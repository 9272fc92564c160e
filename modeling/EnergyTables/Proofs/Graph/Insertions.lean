import EnergyTables.Proofs.Graph.Sameness

namespace EnergyTables

inductive Insertion
  | vertex (number : Int)
  | edge (source target : Int)

namespace Insertion

def vertices : Insertion → List Int
  | vertex number => [number]
  | edge source target => [source, target]

def edges : Insertion → List (Int × Int)
  | vertex _ => []
  | edge source target => [(source, target)]

end Insertion

namespace Graph

def insert (graph : Graph) : Insertion → Outcome Graph
  | .vertex number => do return (← graph.addVertex (.int number)).1
  | .edge source target => graph.addEdge (.int source) (.int target)

def ofInsertions (kind : GraphKind) (insertions : List Insertion) : Outcome Graph :=
  insertions.foldlM insert (empty kind)

def insertedVertices (insertions : List Insertion) : List Int := insertions.flatMap Insertion.vertices

def insertedEdges (insertions : List Insertion) : List (Int × Int) := insertions.flatMap Insertion.edges

/-- The same vertices are inserted, and the same edges, either way round. -/
def SameContent (first second : List Insertion) : Prop :=
  (∀ vertex, vertex ∈ insertedVertices first ↔ vertex ∈ insertedVertices second) ∧
    ∀ edge, edge ∈ (insertedEdges first).map turned ↔ edge ∈ (insertedEdges second).map turned

theorem build_eq_ofInsertions (kind : GraphKind) (vertices : List Int) (edges : List (Int × Int)) :
    build kind (vertices.map .int) (edges.map pairOf) =
      ofInsertions kind (vertices.map Insertion.vertex ++ edges.map fun edge => Insertion.edge edge.1 edge.2) := by
  rw [build, ofInsertions, List.foldlM_append, List.foldlM_map, List.foldlM_map]
  congr 1
  funext graph
  rw [List.foldlM_map, List.foldlM_map]
  rfl

variable {graph : Graph} {kind : GraphKind} {vertices : List Int} {joined : Int → Int → Prop}

theorem Links.insert (links : graph.Links kind vertices joined) (insertion : Insertion) :
    ∃ next grown, graph.insert insertion = .ok next ∧
      next.Links kind grown (fun source target => joined source target ∨ Adjacent kind insertion.edges source target) ∧
      ∀ vertex, vertex ∈ grown ↔ vertex ∈ vertices ∨ vertex ∈ insertion.vertices := by
  cases insertion with
  | vertex number =>
    rcases links.addVertex number with ⟨next, _, grown, added, nextLinks, _, _, members⟩
    refine ⟨next, grown, by rw [Graph.insert, added]; rfl, ?_, fun vertex => ?_⟩
    · simpa [Adjacent, Insertion.edges] using nextLinks
    · simp [members, Insertion.vertices]
  | edge source target =>
    rcases links.addEdge source target with ⟨next, grown, added, nextLinks, members⟩
    refine ⟨next, grown, added, ?_, fun vertex => ?_⟩
    · simpa [Adjacent, Insertion.edges] using nextLinks
    · simp [members, Insertion.vertices, or_assoc]

theorem Links.insertAll (links : graph.Links kind vertices joined) (insertions : List Insertion) :
    ∃ next grown, insertions.foldlM Graph.insert graph = .ok next ∧
      next.Links kind grown
        (fun source target => joined source target ∨ Adjacent kind (insertedEdges insertions) source target) ∧
      ∀ vertex, vertex ∈ grown ↔ vertex ∈ vertices ∨ vertex ∈ insertedVertices insertions := by
  -- by induction on the insertions, what is linked already being general
  induction insertions generalizing graph vertices joined with
  | nil => exact ⟨graph, vertices, rfl, by simpa [Adjacent, insertedEdges] using links, by simp [insertedVertices]⟩
  | cons insertion insertions ih =>
    rcases links.insert insertion with ⟨next, grown, added, nextLinks, members⟩
    rcases ih nextLinks with ⟨last, whole, rest, lastLinks, lastMembers⟩
    refine ⟨last, whole, by rw [List.foldlM_cons, added]; exact rest, ?_, fun vertex => ?_⟩
    · simpa only [Adjacent, insertedEdges, List.flatMap_cons, List.mem_append, or_and_right, exists_or, or_assoc]
        using lastLinks
    · simp [lastMembers, members, insertedVertices, or_assoc]

/-- Every sequence of insertions makes a graph, with the vertices and the edges inserted. -/
theorem exists_ofInsertions (kind : GraphKind) (insertions : List Insertion) :
    ∃ graph all, ofInsertions kind insertions = .ok graph ∧
      graph.Links kind all (Adjacent kind (insertedEdges insertions)) ∧
      ∀ vertex, vertex ∈ all ↔ vertex ∈ insertedVertices insertions := by
  rcases (links_empty kind).insertAll insertions with ⟨graph, all, made, links, members⟩
  exact ⟨graph, all, made, by simpa only [false_or] using links, by simpa using members⟩

theorem Links.mem_vertices_iff (links : graph.Links kind vertices joined) (value : Value) :
    value ∈ graph.vertices ↔ ∃ vertex ∈ vertices, value = .int vertex := by
  have listed : graph.vertices = vertices.map .int := links.joins.vertices_eq
  simp only [listed, List.mem_map, eq_comm]

section Undirected

variable {edges others : List (Int × Int)}

theorem mem_ranked_undirected {edge : Int × Int} : edge ∈ ranked .undirected edges ↔ edge ∈ edges.map turned := by
  simp [ranked, distinctEdges]

theorem ranked_undirected_increasing (edges : List (Int × Int)) :
    (ranked .undirected edges).Pairwise fun left right => toLex left < toLex right := by
  have distinct : (ranked .undirected edges).Nodup :=
    (List.perm_insertionSort NotAfter _).nodup_iff.2 (List.nodup_dedup _)
  refine ((List.pairwise_insertionSort NotAfter _).and distinct).imp fun both => ?_
  exact lt_of_le_of_ne both.1 fun same => both.2 (toLex.injective same)

/-- Of undirected edges the ranks depend on the set of them alone. -/
theorem ranked_undirected_eq_iff : ranked .undirected edges = ranked .undirected others ↔
    ∀ edge, edge ∈ edges.map turned ↔ edge ∈ others.map turned := by
  simp only [← mem_ranked_undirected]
  constructor
  · intro same edge
    rw [same]
  · intro same
    have distinct (listed : List (Int × Int)) : (ranked .undirected listed).Nodup :=
      (List.perm_insertionSort NotAfter _).nodup_iff.2 (List.nodup_dedup _)
    exact ((List.perm_ext_iff_of_nodup (distinct edges) (distinct others)).2 same).eq_of_pairwise'
      (List.pairwise_insertionSort NotAfter _) (List.pairwise_insertionSort NotAfter _)

end Undirected

theorem exists_same_iff_sameContent {left right : Graph} {first second : List Insertion}
    (made : ofInsertions .undirected first = .ok left) (madeToo : ofInsertions .undirected second = .ok right) :
    ∃ same, left.same right = .ok same ∧ (same = true ↔ SameContent first second) := by
  rcases exists_ofInsertions .undirected first with ⟨_, leftAll, found, leftLinks, leftMembers⟩
  cases found.symm.trans made
  rcases exists_ofInsertions .undirected second with ⟨_, rightAll, foundToo, rightLinks, rightMembers⟩
  cases foundToo.symm.trans madeToo
  rcases leftLinks.exists_same rightLinks (by decide) (by decide) with ⟨same, compared, same_iff⟩
  refine ⟨same, compared, same_iff.trans ?_⟩
  simp only [SameContent, leftMembers, rightMembers, ranked_undirected_eq_iff]

end Graph

end EnergyTables
