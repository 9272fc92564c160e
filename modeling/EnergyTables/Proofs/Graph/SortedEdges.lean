import EnergyTables.Proofs.Graph.Building
import EnergyTables.Proofs.Value.Sorting
import Mathlib.Data.List.Dedup
import Mathlib.Data.List.Sort
import Mathlib.Data.Prod.Lex

namespace EnergyTables

namespace Graph

def turned (ends : Int × Int) : Int × Int := (min ends.1 ends.2, max ends.1 ends.2)

def wholeEnds (ends : Value × Value) : Int × Int := (ends.1.whole, ends.2.whole)

theorem wholeEnds_pairOf (ends : Int × Int) : wholeEnds (pairOf ends) = ends := rfl

def wholeEdges (graph : Graph) : List (Int × Int) := graph.edgeEnds.map wholeEnds

/-- The edges that a graph of a kind keeps, each turned: one for any two vertices that are joined, but one for every
    arc. -/
def distinctEdges (kind : GraphKind) (edges : List (Int × Int)) : List (Int × Int) :=
  match kind with
  | .directed => edges.dedup.map turned
  | .undirected | .parallel => (edges.map turned).dedup

def NotAfter (left right : Int × Int) : Prop := toLex left ≤ toLex right

instance : DecidableRel NotAfter := fun left right => inferInstanceAs (Decidable (toLex left ≤ toLex right))

instance : Std.Total NotAfter := ⟨fun left right => le_total (toLex left) (toLex right)⟩

instance : IsTrans (Int × Int) NotAfter := ⟨fun _ _ _ => le_trans⟩

instance : Std.Antisymm NotAfter := ⟨fun _ _ before after => toLex.injective (le_antisymm before after)⟩

def ranked (kind : GraphKind) (edges : List (Int × Int)) : List (Int × Int) :=
  (distinctEdges kind edges).insertionSort NotAfter

variable {graph : Graph} {kind : GraphKind} {vertices : List Int} {edges : List (Int × Int)}
  {joined : Int → Int → Prop}

theorem Joins.exists_source (joins : graph.Joins vertices joined) {place : Nat} {entry : Value × List Neighbour}
    (found : graph.adjacency[place]? = some entry) :
    ∃ source, vertices[place]? = some source ∧ entry = (.int source, graph.neighboursAt place) := by
  have stands : graph.vertices[place]? = some entry.1 := by rw [Graph.vertices, List.getElem?_map, found]; rfl
  rw [joins.vertices_eq, List.getElem?_map, Option.map_eq_some_iff] at stands
  rcases stands with ⟨source, stands, same⟩
  refine ⟨source, stands, Prod.ext same.symm ?_⟩
  rw [neighboursAt, found]
  rfl

theorem Joins.adjacency_eq (joins : graph.Joins vertices joined) {place : Nat} {source : Int}
    (stands : vertices[place]? = some source) :
    graph.adjacency[place]? = some (.int source, graph.neighboursAt place) := by
  have length : graph.adjacency.length = vertices.length := joins.vertexCount_eq
  have bound : place < graph.adjacency.length := length ▸ (List.getElem?_eq_some_iff.1 stands).1
  obtain ⟨other, stands', entry⟩ := joins.exists_source (List.getElem?_eq_getElem bound)
  rw [stands] at stands'
  cases stands'
  rw [List.getElem?_eq_getElem bound, entry]

theorem Links.mem_listed (links : graph.Links kind vertices joined) {start : Nat} {source : Int}
    (starts : vertices[start]? = some source) (neighbour : Neighbour) :
    neighbour ∈ graph.listed start (graph.neighboursAt start) ↔ (kind = .directed ∨ start ≤ neighbour.place) ∧
      ∃ target, vertices[neighbour.place]? = some target ∧ neighbour.key = .int target ∧ joined source target := by
  have neighbours : neighbour ∈ graph.neighboursAt start ↔ _ := links.joins.neighbours start source starts neighbour
  unfold listed
  rw [links.kind_eq]
  cases kind with
  | directed => simp [neighbours]
  | undirected => simp [neighbours, and_comm]
  | parallel => simp [neighbours, and_comm]

theorem Links.mem_edgeEnds (links : graph.Links kind vertices joined) (ends : Value × Value) :
    ends ∈ graph.edgeEnds ↔ ∃ (start finish : Nat) (source target : Int), (kind = .directed ∨ start ≤ finish) ∧
      vertices[start]? = some source ∧ vertices[finish]? = some target ∧ joined source target ∧
      ends = pairOf (source, target) := by
  simp only [edgeEnds, List.mem_flatMap, List.mem_map]
  constructor
  · rintro ⟨⟨entry, start⟩, found, neighbour, member, rfl⟩
    have found : graph.adjacency[start]? = some entry := List.mem_zipIdx_iff_getElem?.1 found
    rcases links.joins.exists_source found with ⟨source, starts, rfl⟩
    rcases (links.mem_listed starts neighbour).1 member with ⟨first, target, finishes, key, isJoined⟩
    exact ⟨start, neighbour.place, source, target, first, starts, finishes, isJoined, Prod.ext rfl key⟩
  · rintro ⟨start, finish, source, target, first, starts, finishes, isJoined, rfl⟩
    have stands : graph.adjacency[start]? = some (.int source, graph.neighboursAt start) :=
      links.joins.adjacency_eq starts
    exact ⟨((.int source, graph.neighboursAt start), start), List.mem_zipIdx_iff_getElem?.2 stands,
      ⟨finish, .int target⟩, (links.mem_listed starts _).2 ⟨first, target, finishes, rfl, isJoined⟩, rfl⟩

theorem Links.mem_wholeEdges (links : graph.Links kind vertices joined) {source target : Int} :
    (source, target) ∈ graph.wholeEdges ↔ ∃ start finish : Nat, (kind = .directed ∨ start ≤ finish) ∧
      vertices[start]? = some source ∧ vertices[finish]? = some target ∧ joined source target := by
  simp only [wholeEdges, List.mem_map, links.mem_edgeEnds]
  constructor
  · rintro ⟨_, ⟨start, finish, _, _, first, starts, finishes, isJoined, rfl⟩, same⟩
    cases same
    exact ⟨start, finish, first, starts, finishes, isJoined⟩
  · rintro ⟨start, finish, first, starts, finishes, isJoined⟩
    exact ⟨pairOf (source, target), ⟨start, finish, source, target, first, starts, finishes, isJoined, rfl⟩, rfl⟩

theorem Links.edgeEnds_eq (links : graph.Links kind vertices joined) :
    graph.edgeEnds = graph.wholeEdges.map pairOf := by
  rw [wholeEdges, List.map_map]
  refine (List.map_id _).symm.trans (List.map_congr_left fun ends member => ?_)
  rcases (links.mem_edgeEnds ends).1 member with ⟨_, _, _, _, _, _, _, _, rfl⟩
  rfl

theorem pairwise_zipIdx {α : Type} (items : List α) (first : Nat) :
    (items.zipIdx first).Pairwise fun left right => left.2 < right.2 := by
  have places : ((items.zipIdx first).map Prod.snd).Pairwise (· < ·) := by
    rw [List.zipIdx_map_snd]
    exact List.pairwise_lt_range'
  exact List.pairwise_map.1 places

theorem Links.nodup_wholeEdges (links : graph.Links kind vertices joined) : graph.wholeEdges.Nodup := by
  rw [wholeEdges, List.Nodup, List.pairwise_map, edgeEnds, List.pairwise_flatMap]
  constructor
  · rintro ⟨entry, start⟩ found
    have found : graph.adjacency[start]? = some entry := List.mem_zipIdx_iff_getElem?.1 found
    rcases links.joins.exists_source found with ⟨source, starts, rfl⟩
    have apart : (graph.neighboursAt start).Pairwise fun left right => left.place ≠ right.place :=
      List.pairwise_map.1 (links.joins.once start)
    have listedApart : (graph.listed start (graph.neighboursAt start)).Pairwise
        fun left right => left.place ≠ right.place := by
      unfold listed
      split
      · exact apart
      · exact apart.filter _
      · exact apart.filter _
    rw [List.pairwise_map]
    refine listedApart.imp_of_mem fun {left right} leftMember rightMember differ same => differ ?_
    rcases (links.mem_listed starts left).1 leftMember with ⟨_, leftTarget, leftStands, leftKey, _⟩
    rcases (links.mem_listed starts right).1 rightMember with ⟨_, rightTarget, rightStands, rightKey, _⟩
    rw [leftKey, rightKey] at same
    cases same
    exact links.joins.place_unique leftStands rightStands
  · refine (pairwise_zipIdx graph.adjacency 0).imp_of_mem ?_
    rintro ⟨left, start⟩ ⟨right, later⟩ leftFound rightFound before _ leftMember _ rightMember same
    have leftFound : graph.adjacency[start]? = some left := List.mem_zipIdx_iff_getElem?.1 leftFound
    have rightFound : graph.adjacency[later]? = some right := List.mem_zipIdx_iff_getElem?.1 rightFound
    rcases links.joins.exists_source leftFound with ⟨source, starts, rfl⟩
    rcases links.joins.exists_source rightFound with ⟨other, begins, rfl⟩
    rcases List.mem_map.1 leftMember with ⟨leftNeighbour, _, rfl⟩
    rcases List.mem_map.1 rightMember with ⟨rightNeighbour, _, rfl⟩
    have sameSource : source = other := congrArg Prod.fst same
    subst sameSource
    exact absurd (links.joins.place_unique starts begins) before.ne

theorem turned_eq_turned_iff {left right : Int × Int} :
    turned left = turned right ↔ left = right ∨ left = right.swap := by
  rcases left with ⟨first, second⟩
  rcases right with ⟨third, fourth⟩
  simp only [turned, Prod.mk.injEq, Prod.swap_prod_mk]
  omega

theorem mem_distinctEdges {source target : Int} : (source, target) ∈ distinctEdges kind edges ↔
    source ≤ target ∧ ((source, target) ∈ edges ∨ (target, source) ∈ edges) := by
  have listed : (source, target) ∈ distinctEdges kind edges ↔ ∃ edge ∈ edges, turned edge = (source, target) := by
    cases kind <;> simp [distinctEdges]
  rw [listed]
  constructor
  · rintro ⟨⟨first, second⟩, member, same⟩
    cases same
    rcases Int.le_total first second with ordered | ordered
    · simp [ordered, member]
    · simp [ordered, member]
  · rintro ⟨ordered, member | member⟩
    · exact ⟨_, member, by simp [turned, ordered]⟩
    · exact ⟨_, member, by simp [turned, ordered]⟩

theorem Links.inside (links : graph.Links kind vertices (Adjacent kind edges)) {edge : Int × Int}
    (member : edge ∈ edges) : ∃ start finish : Nat, vertices[start]? = some edge.1 ∧ vertices[finish]? = some edge.2 := by
  have ends := links.joins.inside edge.1 edge.2 ⟨edge, member, .inl rfl⟩
  rcases List.mem_iff_getElem?.1 ends.1 with ⟨start, starts⟩
  rcases List.mem_iff_getElem?.1 ends.2 with ⟨finish, finishes⟩
  exact ⟨start, finish, starts, finishes⟩

theorem Links.mem_arcs (links : graph.Links .directed vertices (Adjacent .directed edges)) (edge : Int × Int) :
    edge ∈ graph.wholeEdges ↔ edge ∈ edges := by
  rw [links.mem_wholeEdges]
  constructor
  · rintro ⟨_, _, _, _, _, other, member, same | ⟨back, _⟩⟩
    · rwa [same] at member
    · exact absurd rfl back
  · intro member
    rcases links.inside member with ⟨start, finish, starts, finishes⟩
    exact ⟨start, finish, .inl rfl, starts, finishes, edge, member, .inl rfl⟩

theorem Links.turned_injOn (links : graph.Links kind vertices joined) (both : kind ≠ .directed) :
    ∀ left ∈ graph.wholeEdges, ∀ right ∈ graph.wholeEdges, turned left = turned right → left = right := by
  intro left leftMember right rightMember same
  rcases turned_eq_turned_iff.1 same with same | rfl
  · exact same
  rcases links.mem_wholeEdges.1 leftMember with ⟨start, finish, first, starts, finishes, _⟩
  rcases links.mem_wholeEdges.1 rightMember with ⟨begins, ends, second, beginsAt, endsAt, _⟩
  have sameStart := links.joins.place_unique starts endsAt
  have sameFinish := links.joins.place_unique finishes beginsAt
  have place : start = finish := by
    have forth := first.resolve_left both
    have back := second.resolve_left both
    omega
  subst place
  have sameEnds : right.2 = right.1 := Option.some.inj (starts.symm.trans finishes)
  exact Prod.ext sameEnds sameEnds.symm

theorem Links.mem_turned (links : graph.Links kind vertices (Adjacent kind edges)) (both : kind ≠ .directed)
    {source target : Int} : (source, target) ∈ graph.wholeEdges.map turned ↔
      source ≤ target ∧ ((source, target) ∈ edges ∨ (target, source) ∈ edges) := by
  rw [← @mem_distinctEdges .directed]
  simp only [distinctEdges, List.mem_map, List.mem_dedup]
  constructor
  · rintro ⟨edge, member, same⟩
    rcases links.mem_wholeEdges.1 member with ⟨_, _, _, _, _, other, given, rfl | ⟨_, rfl⟩⟩
    · exact ⟨_, given, same⟩
    · exact ⟨_, given, (turned_eq_turned_iff.2 (.inr rfl)).trans same⟩
  · rintro ⟨edge, given, same⟩
    rcases links.inside given with ⟨start, finish, starts, finishes⟩
    -- the vertex that came first lists the edge, whichever end was given first
    rcases Nat.le_total start finish with first | first
    · exact ⟨edge, links.mem_wholeEdges.2 ⟨start, finish, .inr first, starts, finishes, edge, given, .inl rfl⟩, same⟩
    · exact ⟨edge.swap, links.mem_wholeEdges.2 ⟨finish, start, .inr first, finishes, starts, edge, given,
        .inr ⟨both, rfl⟩⟩, (turned_eq_turned_iff.2 (.inr rfl)).trans same⟩

/-- The edges that a graph lists are those that it was built from, each once. -/
theorem Links.perm_distinctEdges (links : graph.Links kind vertices (Adjacent kind edges)) :
    (graph.wholeEdges.map turned).Perm (distinctEdges kind edges) := by
  by_cases directed : kind = .directed
  · subst directed
    apply List.Perm.map
    rw [List.perm_ext_iff_of_nodup links.nodup_wholeEdges (List.nodup_dedup edges)]
    simp [links.mem_arcs]
  · have once : (graph.wholeEdges.map turned).Nodup :=
      List.Nodup.map_on (links.turned_injOn directed) links.nodup_wholeEdges
    have distinct : (distinctEdges kind edges).Nodup := by
      cases kind with
      | directed => exact absurd rfl directed
      | undirected => exact List.nodup_dedup _
      | parallel => exact List.nodup_dedup _
    rw [List.perm_ext_iff_of_nodup once distinct]
    rintro ⟨source, target⟩
    rw [links.mem_turned directed, mem_distinctEdges]

theorem least_int (left right : Int) : (Value.int left).least (.int right) = .ok (.int (min left right)) := by
  rw [Value.least, Value.less_int, Outcome.ok_bind, Outcome.pure_eq_ok]
  by_cases lesser : right < left
  · rw [decide_eq_true lesser, if_pos rfl, min_eq_right lesser.le]
  · rw [decide_eq_false lesser, if_neg Bool.false_ne_true, min_eq_left (Int.not_lt.1 lesser)]

theorem greatest_int (left right : Int) : (Value.int left).greatest (.int right) = .ok (.int (max left right)) := by
  rw [Value.greatest, Value.less_int, Outcome.ok_bind, Outcome.pure_eq_ok]
  by_cases lesser : left < right
  · rw [decide_eq_true lesser, if_pos rfl, max_eq_right lesser.le]
  · rw [decide_eq_false lesser, if_neg Bool.false_ne_true, max_eq_left (Int.not_lt.1 lesser)]

theorem pairLess_pairOf (left right : Int × Int) :
    pairLess (pairOf left) (pairOf right) = .ok (decide (toLex left < toLex right)) := by
  rcases left with ⟨first, second⟩
  rcases right with ⟨third, fourth⟩
  have lex : toLex (first, second) < toLex (third, fourth) ↔ first < third ∨ first = third ∧ second < fourth :=
    Prod.Lex.toLex_lt_toLex
  simp only [pairLess, pairOf, Value.equal_int, Value.less_int, Outcome.ok_bind, Outcome.pure_eq_ok, lex]
  by_cases firsts : first = third
  · by_cases seconds : second = fourth
    · simp [firsts, seconds]
    · simp [firsts, seconds]
  · simp [firsts]

theorem turns_eq_ok (edges : List (Int × Int)) :
    (edges.map pairOf).mapM (fun (ends : Value × Value) => do
      return (← ends.1.least ends.2, ← ends.1.greatest ends.2)) =
        Except.ok (ε := Fault) ((edges.map turned).map pairOf) := by
  rw [Outcome.mapM_eq_ok_iff, List.map_map, List.forall₂_map_left_iff, List.forall₂_map_right_iff, List.forall₂_same]
  intro edge _
  simp only [pairOf, least_int, greatest_int, Outcome.ok_bind, Outcome.pure_eq_ok]
  rfl

theorem sort_pairOf (edges : List (Int × Int)) :
    Value.sort pairLess (edges.map pairOf) = .ok ((edges.insertionSort NotAfter).map pairOf) := by
  apply Value.sort_map_eq_ok wholeEnds_pairOf
  intro left right
  rw [pairLess_pairOf]
  simp only [NotAfter, ← not_lt, decide_not, Bool.not_not]

theorem Links.edges_eq_ok (links : graph.Links kind vertices joined) (listable : kind ≠ .parallel) :
    graph.edges = .ok (graph.wholeEdges.map pairOf) := by
  rw [Graph.edges, links.kind_eq, links.edgeEnds_eq]
  cases kind with
  | directed => rfl
  | undirected => rfl
  | parallel => exact absurd rfl listable

theorem Links.edgeCount_eq (links : graph.Links kind vertices (Adjacent kind edges)) (listable : kind ≠ .parallel) :
    graph.edgeCount = (ranked kind edges).length := by
  have lengths := links.perm_distinctEdges.length_eq
  rw [edgeCount, links.kind_eq, links.edgeEnds_eq, ranked, List.length_insertionSort, ← lengths, List.length_map,
    List.length_map]
  cases kind with
  | directed => rfl
  | undirected => rfl
  | parallel => exact absurd rfl listable

/-- Each edge once, its lesser end first, in lexicographic order. -/
theorem Links.sortedEdges_eq_ok (links : graph.Links kind vertices (Adjacent kind edges))
    (listable : kind ≠ .parallel) : graph.sortedEdges = .ok ((ranked kind edges).map pairOf) := by
  have sorts : (graph.wholeEdges.map turned).insertionSort NotAfter = ranked kind edges := by
    apply List.Perm.eq_of_pairwise' (List.pairwise_insertionSort NotAfter _) (List.pairwise_insertionSort NotAfter _)
    exact (List.perm_insertionSort _ _).trans (links.perm_distinctEdges.trans (List.perm_insertionSort _ _).symm)
  rw [sortedEdges, links.edges_eq_ok listable, Outcome.ok_bind, turns_eq_ok, Outcome.ok_bind, sort_pairOf, sorts]

theorem mem_ranked {source target : Int} : (source, target) ∈ ranked kind edges ↔
    source ≤ target ∧ ((source, target) ∈ edges ∨ (target, source) ∈ edges) := by
  rw [ranked, List.mem_insertionSort, mem_distinctEdges]

theorem forall_ranked (holds : Int → Int → Prop) (symmetric : ∀ source target, holds source target → holds target source) :
    (∀ edge ∈ ranked kind edges, holds edge.1 edge.2) ↔ ∀ edge ∈ edges, holds edge.1 edge.2 := by
  constructor
  · intro each edge member
    rcases Int.le_total edge.1 edge.2 with ordered | ordered
    · exact each edge (mem_ranked.2 ⟨ordered, .inl member⟩)
    · exact symmetric _ _ (each edge.swap (mem_ranked.2 ⟨ordered, .inr member⟩))
  · rintro each ⟨source, target⟩ member
    rcases (mem_ranked.1 member).2 with given | given
    · exact each _ given
    · exact symmetric _ _ (each _ given)

end Graph

end EnergyTables
