import EnergyTables.Proofs.Graph.Joining

namespace EnergyTables

namespace Graph

def asUndirected (graph : Graph) : Graph := { graph with kind := .undirected }

theorem addVertex_asUndirected (graph : Graph) (vertex : Value) :
    graph.asUndirected.addVertex vertex =
      (do let (next, place) ← graph.addVertex vertex; return (next.asUndirected, place)) := by
  have same : graph.asUndirected.placeOf? vertex = graph.placeOf? vertex := rfl
  unfold addVertex
  rw [same]
  split
  · rfl
  · cases graph.placeOf? vertex with
    | some place => rfl
    | none => cases vertex <;> rfl

theorem kind_of_addVertex {graph next : Graph} {vertex : Value} {place : Nat}
    (added : graph.addVertex vertex = .ok (next, place)) : next.kind = graph.kind := by
  unfold addVertex at added
  split at added
  · cases added
  · split at added
    · cases added; rfl
    · cases added
    · cases added; rfl

/-- An edge leads from one end to the other; only an arc does not lead back. -/
def Leads (kind : GraphKind) (edge : Int × Int) (source target : Int) : Prop :=
  edge = (source, target) ∨ kind ≠ .directed ∧ edge = (target, source)

def Adjacent (kind : GraphKind) (edges : List (Int × Int)) (source target : Int) : Prop :=
  ∃ edge ∈ edges, Leads kind edge source target

/-- A graph of the kind whose vertices list, once and by their places, the vertices joined to them. -/
structure Links (graph : Graph) (kind : GraphKind) (vertices : List Int) (joined : Int → Int → Prop) : Prop where
  kind_eq : graph.kind = kind
  joins : graph.asUndirected.Joins vertices joined

theorem join_asUndirected (graph : Graph) (source : Nat) (target : Neighbour) :
    (graph.join source target).asUndirected = graph.asUndirected.join source target := rfl

variable {graph : Graph} {kind : GraphKind} {vertices : List Int} {joined : Int → Int → Prop}

theorem links_empty (kind : GraphKind) : (empty kind).Links kind [] fun _ _ => False := ⟨rfl, joins_empty⟩

theorem Links.addVertex (links : graph.Links kind vertices joined) (vertex : Int) :
    ∃ next place grown, graph.addVertex (.int vertex) = .ok (next, place) ∧ next.Links kind grown joined ∧
      grown[place]? = some vertex ∧
      (∀ (place : Nat) other, vertices[place]? = some other → grown[place]? = some other) ∧
      ∀ other, other ∈ grown ↔ other ∈ vertices ∨ other = vertex := by
  rcases links.joins.addVertex vertex with ⟨_, place, grown, added, joins, rest⟩
  rw [addVertex_asUndirected, Outcome.bind_eq_ok_iff] at added
  rcases added with ⟨⟨next, _⟩, added, same⟩
  cases same
  exact ⟨next, place, grown, added, ⟨(kind_of_addVertex added).trans links.kind_eq, joins⟩, rest⟩

theorem Links.addEdge (links : graph.Links kind vertices joined) (source target : Int) :
    ∃ next grown, graph.addEdge (.int source) (.int target) = .ok next ∧
      next.Links kind grown (fun left right => joined left right ∨ Leads kind (source, target) left right) ∧
      ∀ other, other ∈ grown ↔ (other ∈ vertices ∨ other = source) ∨ other = target := by
  rcases links.addVertex source with ⟨first, start, partly, added, firstLinks, starts, _, firstMem⟩
  rcases firstLinks.addVertex target with ⟨second, finish, grown, addedToo, secondLinks, finishes, persists, secondMem⟩
  have starts : grown[start]? = some source := persists start source starts
  let once := { second with parallelCount := second.parallelCount + 1 }.join start ⟨finish, .int target⟩
  have onceJoins : once.asUndirected.Joins grown fun left right => joined left right ∨ left = source ∧ right = target :=
    (secondLinks.joins.recount (second.parallelCount + 1)).join starts finishes
  -- an arc stops here, an edge is joined from its second end as well
  have twiceJoins := onceJoins.join finishes starts
  rw [← join_asUndirected] at twiceJoins
  have sameKind : once.kind = kind := secondLinks.kind_eq
  have members : ∀ other, other ∈ grown ↔ (other ∈ vertices ∨ other = source) ∨ other = target := by
    simp [secondMem, firstMem]
  have added : graph.addEdge (.int source) (.int target) =
      .ok (if kind = .directed then once else once.join finish ⟨start, .int source⟩) := by
    simp only [Graph.addEdge, added, addedToo, Outcome.ok_bind]
    rw [sameKind]
    cases kind with
    | directed => rfl
    | undirected => rfl
    | parallel => rfl
  cases kind with
  | directed => exact ⟨once, grown, added, ⟨sameKind, by simpa [Leads, eq_comm] using onceJoins⟩, members⟩
  | undirected =>
    refine ⟨_, grown, added, ⟨sameKind, ?_⟩, members⟩
    simpa [Leads, eq_comm, or_assoc, and_comm] using twiceJoins
  | parallel =>
    refine ⟨_, grown, added, ⟨sameKind, ?_⟩, members⟩
    simpa [Leads, eq_comm, or_assoc, and_comm] using twiceJoins

theorem Links.addVertices (links : graph.Links kind vertices joined) (new : List Int) :
    ∃ next grown,
      (new.map Value.int).foldlM (fun (graph : Graph) vertex => do return (← graph.addVertex vertex).1) graph =
        .ok next ∧ next.Links kind grown joined ∧ ∀ other, other ∈ grown ↔ other ∈ vertices ∨ other ∈ new := by
  induction new generalizing graph vertices with
  | nil => exact ⟨graph, vertices, rfl, links, fun other => by simp⟩
  | cons vertex new ih =>
    rcases links.addVertex vertex with ⟨next, _, grown, added, nextLinks, _, _, nextMem⟩
    rcases ih nextLinks with ⟨last, whole, rest, lastLinks, lastMem⟩
    refine ⟨last, whole, ?_, lastLinks, fun other => ?_⟩
    · rw [List.map_cons, List.foldlM_cons, added]
      exact rest
    · rw [lastMem, nextMem, List.mem_cons, or_assoc]

def IsVertex (vertices : List Int) (edges : List (Int × Int)) (vertex : Int) : Prop :=
  vertex ∈ vertices ∨ ∃ edge ∈ edges, vertex = edge.1 ∨ vertex = edge.2

theorem Links.addEdges (links : graph.Links kind vertices joined) (edges : List (Int × Int)) :
    ∃ next grown,
      (edges.map pairOf).foldlM (fun (graph : Graph) (source, target) => graph.addEdge source target) graph =
        .ok next ∧ next.Links kind grown (fun left right => joined left right ∨ Adjacent kind edges left right) ∧
      ∀ other, other ∈ grown ↔ IsVertex vertices edges other := by
  induction edges generalizing graph vertices joined with
  | nil =>
    refine ⟨graph, vertices, rfl, ?_, fun other => by simp [IsVertex]⟩
    simpa [Adjacent] using links
  | cons edge edges ih =>
    rcases links.addEdge edge.1 edge.2 with ⟨next, grown, added, nextLinks, nextMem⟩
    rcases ih nextLinks with ⟨last, whole, rest, lastLinks, lastMem⟩
    refine ⟨last, whole, ?_, ?_, fun other => ?_⟩
    · rw [List.map_cons, List.foldlM_cons]
      exact (congrArg (· >>= _) added).trans rest
    · simpa only [Adjacent, List.mem_cons, exists_eq_or_imp, or_assoc] using lastLinks
    · rw [lastMem]
      simp only [IsVertex, nextMem, List.mem_cons, exists_eq_or_imp, or_assoc]

/-- A graph is built from any integers, and joins exactly what its edges say. -/
theorem exists_build (kind : GraphKind) (vertices : List Int) (edges : List (Int × Int)) :
    ∃ graph all, build kind (vertices.map .int) (edges.map pairOf) = .ok graph ∧
      graph.Links kind all (Adjacent kind edges) ∧ ∀ vertex, vertex ∈ all ↔ IsVertex vertices edges vertex := by
  rcases (links_empty kind).addVertices vertices with ⟨bare, given, added, bareLinks, bareMem⟩
  rcases bareLinks.addEdges edges with ⟨whole, all, joinedAll, wholeLinks, wholeMem⟩
  refine ⟨whole, all, ?_, by simpa only [false_or] using wholeLinks, fun vertex => ?_⟩
  · rw [build, added, Outcome.ok_bind, joinedAll]
  · rw [wholeMem, IsVertex, IsVertex, bareMem]
    simp

end Graph

end EnergyTables
