import EnergyTables.Proofs.Graph.SortedEdges

namespace EnergyTables

namespace Graph

/-- A graph or a digraph without loops, built on the vertices from one to the count. -/
structure Simple (graph : Graph) (kind : GraphKind) (vertices : List Int) (edges : List (Int × Int)) (count : Nat) :
    Prop where
  listable : kind ≠ .parallel
  built : build kind (vertices.map .int) (edges.map pairOf) = .ok graph
  numbered : ∀ vertex, IsVertex vertices edges vertex ↔ 1 ≤ vertex ∧ vertex ≤ count
  loopless : ∀ edge ∈ edges, edge.1 ≠ edge.2

variable {graph : Graph} {kind : GraphKind} {vertices : List Int} {edges : List (Int × Int)} {count : Nat}

theorem exists_links_of_build (built : build kind (vertices.map .int) (edges.map pairOf) = .ok graph) :
    ∃ all, graph.Links kind all (Adjacent kind edges) ∧ ∀ vertex, vertex ∈ all ↔ IsVertex vertices edges vertex := by
  rcases exists_build kind vertices edges with ⟨other, all, found, links, members⟩
  cases built.symm.trans found
  exact ⟨all, links, members⟩

theorem simple_of_check (listable : kind ≠ .parallel)
    (built : build kind (vertices.map .int) (edges.map pairOf) = .ok graph) (checked : graph.checkVertices = .ok ())
    (loopless : ∀ edge ∈ edges, edge.1 ≠ edge.2) : graph.Simple kind vertices edges graph.vertexCount := by
  rcases exists_links_of_build built with ⟨all, links, members⟩
  refine ⟨listable, built, fun vertex => ?_, loopless⟩
  rw [← members]
  exact links.joins.numbered_of_check checked vertex

namespace Simple

theorem exists_links (simple : graph.Simple kind vertices edges count) :
    ∃ all, graph.Links kind all (Adjacent kind edges) ∧ ∀ vertex, vertex ∈ all ↔ 1 ≤ vertex ∧ vertex ≤ count := by
  rcases exists_links_of_build simple.built with ⟨all, links, members⟩
  exact ⟨all, links, fun vertex => (members vertex).trans (simple.numbered vertex)⟩

theorem vertexCount_eq (simple : graph.Simple kind vertices edges count) : graph.vertexCount = count := by
  rcases simple.exists_links with ⟨all, links, members⟩
  have counted : graph.vertexCount = all.length := links.joins.vertexCount_eq
  rw [counted, length_of_numbered links.joins.distinct members]

theorem checkVertices_eq_ok (simple : graph.Simple kind vertices edges count) : graph.checkVertices = .ok () := by
  rcases simple.exists_links with ⟨all, links, members⟩
  have numbered : ∀ vertex, vertex ∈ all ↔ 1 ≤ vertex ∧ vertex ≤ graph.vertexCount := by
    rwa [simple.vertexCount_eq]
  exact links.joins.checkVertices_of_numbered numbered

theorem edgeCount_eq (simple : graph.Simple kind vertices edges count) :
    graph.edgeCount = (ranked kind edges).length := by
  rcases simple.exists_links with ⟨all, links, _⟩
  exact links.edgeCount_eq simple.listable

theorem sortedEdges_eq_ok (simple : graph.Simple kind vertices edges count) :
    graph.sortedEdges = .ok ((ranked kind edges).map pairOf) := by
  rcases simple.exists_links with ⟨all, links, _⟩
  exact links.sortedEdges_eq_ok simple.listable

theorem inside (simple : graph.Simple kind vertices edges count) {edge : Int × Int} (member : edge ∈ edges) :
    (1 ≤ edge.1 ∧ edge.1 ≤ count) ∧ (1 ≤ edge.2 ∧ edge.2 ≤ count) :=
  ⟨(simple.numbered _).1 (.inr ⟨edge, member, .inl rfl⟩), (simple.numbered _).1 (.inr ⟨edge, member, .inr rfl⟩)⟩

theorem ranked_inside (simple : graph.Simple kind vertices edges count) {edge : Int × Int}
    (member : edge ∈ ranked kind edges) : 1 ≤ edge.1 ∧ edge.1 < edge.2 ∧ edge.2 ≤ count := by
  rcases mem_ranked.1 member with ⟨ordered, given | given⟩
  · have differ := simple.loopless _ given
    have ends := simple.inside given
    simp only [ne_eq] at differ ends
    omega
  · have differ := simple.loopless _ given
    have ends := simple.inside given
    simp only [ne_eq] at differ ends
    omega

/-- The edges as they are listed, each once, are the ranked ones in some order and turned in some way. -/
theorem exists_listed (simple : graph.Simple kind vertices edges count) :
    ∃ listed : List (Int × Int), graph.edges = .ok (listed.map pairOf) ∧
      (listed.map turned).Perm (ranked kind edges) := by
  rcases simple.exists_links with ⟨all, links, _⟩
  exact ⟨graph.wholeEdges, links.edges_eq_ok simple.listable,
    links.perm_distinctEdges.trans (List.perm_insertionSort _ _).symm⟩

variable {listed : List (Int × Int)}

theorem listed_inside (simple : graph.Simple kind vertices edges count)
    (same : (listed.map turned).Perm (ranked kind edges)) :
    ∀ edge ∈ listed, (1 ≤ edge.1 ∧ edge.1 ≤ count) ∧ (1 ≤ edge.2 ∧ edge.2 ≤ count) := by
  intro edge member
  have ends := simple.ranked_inside (same.mem_iff.1 (List.mem_map_of_mem member))
  simp only [turned] at ends
  omega

end Simple

def oneEdge : Graph := ⟨.undirected, [(.int 1, [⟨1, .int 2⟩]), (.int 2, [⟨0, .int 1⟩])], 1⟩

theorem simple_oneEdge : oneEdge.Simple .undirected [] [(1, 2)] 2 where
  listable := by decide
  built := rfl
  numbered := by
    intro vertex
    simp only [IsVertex, List.not_mem_nil, List.mem_singleton, exists_eq_left, false_or]
    omega
  loopless := by simp

theorem all_listed {listed : List (Int × Int)} (same : (listed.map turned).Perm (ranked kind edges))
    (test : Int → Int → Bool) (symmetric : ∀ source target, test source target = test target source) :
    (listed.all fun edge => test edge.1 edge.2) = (ranked kind edges).all fun edge => test edge.1 edge.2 := by
  rw [← same.all_eq, List.all_map]
  congr 1
  funext edge
  rcases Int.le_total edge.1 edge.2 with ordered | ordered
  · simp [turned, ordered]
  · simp [turned, ordered, symmetric edge.1]

theorem pairwise_ranked (kind : GraphKind) (edges : List (Int × Int)) : (ranked kind edges).Pairwise NotAfter :=
  List.pairwise_insertionSort NotAfter _

end Graph

end EnergyTables
