import EnergyTables.Proofs.Graph.SortedEdges

namespace EnergyTables

namespace Graph

theorem pairsEqual_pairOf {left right : List (Int × Int)} (lengths : left.length = right.length) :
    pairsEqual ((left.map pairOf).zip (right.map pairOf)) = .ok (decide (left = right)) := by
  induction left generalizing right with
  | nil =>
    cases right with
    | nil => rfl
    | cons => cases lengths
  | cons first left ih =>
    cases right with
    | nil => cases lengths
    | cons second right =>
      have rest := ih (Nat.succ.inj lengths)
      simp only [List.map_cons, List.zip_cons_cons, pairsEqual, pairOf, Value.equal_int, Outcome.ok_bind, rest,
        List.cons.injEq, Prod.ext_iff]
      by_cases sources : first.1 = second.1
      · by_cases targets : first.2 = second.2
        · simp [sources, targets]
        · simp [sources, targets]
      · simp [sources]

variable {left right : Graph} {leftKind rightKind : GraphKind} {leftVertices rightVertices : List Int}
  {leftEdges rightEdges : List (Int × Int)} {joined others : Int → Int → Prop}

theorem same_members_iff (distinct : leftVertices.Nodup) (distinctToo : rightVertices.Nodup) :
    (leftVertices.length = rightVertices.length ∧ ∀ vertex ∈ leftVertices, vertex ∈ rightVertices) ↔
      ∀ vertex, vertex ∈ leftVertices ↔ vertex ∈ rightVertices := by
  constructor
  · rintro ⟨lengths, inside⟩ vertex
    have permuted := (List.subperm_of_subset distinct inside).perm_of_length_le lengths.symm.le
    exact permuted.mem_iff
  · intro same
    have permuted := (List.perm_ext_iff_of_nodup distinct distinctToo).2 same
    exact ⟨permuted.length_eq, fun vertex => (same vertex).1⟩

theorem Joins.all_hasVertex (joins : right.Joins rightVertices joined) (numbers : List Int) :
    (numbers.map Value.int).all right.hasVertex = decide (∀ vertex ∈ numbers, vertex ∈ rightVertices) := by
  rw [Bool.eq_iff_iff, List.all_map, List.all_eq_true, decide_eq_true_iff]
  simp only [Function.comp_apply, joins.hasVertex_iff]

/-- Two graphs are the same where they have the same vertices and the same edges by their ranks. -/
theorem Links.exists_same (leftLinks : left.Links leftKind leftVertices (Adjacent leftKind leftEdges))
    (rightLinks : right.Links rightKind rightVertices (Adjacent rightKind rightEdges)) (listable : leftKind ≠ .parallel)
    (listableToo : rightKind ≠ .parallel) :
    ∃ same, left.same right = .ok same ∧ (same = true ↔ (∀ vertex, vertex ∈ leftVertices ↔ vertex ∈ rightVertices) ∧
      ranked leftKind leftEdges = ranked rightKind rightEdges) := by
  have counted : left.vertexCount = leftVertices.length := leftLinks.joins.vertexCount_eq
  have countedToo : right.vertexCount = rightVertices.length := rightLinks.joins.vertexCount_eq
  have vertices : left.vertices = leftVertices.map .int := leftLinks.joins.vertices_eq
  have all : (leftVertices.map Value.int).all right.hasVertex = _ := rightLinks.joins.all_hasVertex leftVertices
  rw [← same_members_iff leftLinks.joins.distinct rightLinks.joins.distinct, Graph.same, counted, countedToo, vertices,
    all]
  by_cases lengths : leftVertices.length = rightVertices.length
  · by_cases inside : ∀ vertex ∈ leftVertices, vertex ∈ rightVertices
    · rw [if_neg (not_not_intro lengths), decide_eq_true inside, leftLinks.sortedEdges_eq_ok listable,
        rightLinks.sortedEdges_eq_ok listableToo]
      simp only [Bool.not_true, Bool.false_eq_true, if_false, Outcome.ok_bind, List.length_map]
      by_cases counts : (ranked leftKind leftEdges).length = (ranked rightKind rightEdges).length
      · refine ⟨_, by rw [if_neg (not_not_intro counts)]; exact pairsEqual_pairOf counts, ?_⟩
        rw [decide_eq_true_iff]
        exact (and_iff_right ⟨lengths, inside⟩).symm
      · refine ⟨false, by rw [if_pos counts]; rfl, ?_⟩
        simp only [Bool.false_eq_true, false_iff]
        exact fun both => counts (congrArg List.length both.2)
    · refine ⟨false, by rw [if_neg (not_not_intro lengths), decide_eq_false inside]; rfl, ?_⟩
      simp [inside]
  · exact ⟨false, by rw [if_pos lengths]; rfl, by simp [lengths]⟩

/-- Two graphs that a problem on their vertices and edges cannot tell apart. -/
structure Alike (left right : Graph) : Prop where
  vertexCount_eq : left.vertexCount = right.vertexCount
  checkVertices_eq : left.checkVertices = right.checkVertices
  edgeCount_eq : left.edgeCount = right.edgeCount
  sortedEdges_eq : left.sortedEdges = right.sortedEdges

theorem Joins.all_numbers (joins : left.Joins leftVertices joined) (count : Nat) :
    ((List.range count).map fun (index : Nat) => Value.int (index + 1)).all left.hasVertex =
      decide (∀ index < count, (index : Int) + 1 ∈ leftVertices) := by
  rw [Bool.eq_iff_iff, List.all_map, List.all_eq_true, decide_eq_true_iff]
  simp only [List.mem_range, Function.comp_apply, joins.hasVertex_iff]

theorem Joins.checkVertices_congr (leftJoins : left.Joins leftVertices joined) (rightJoins : right.Joins rightVertices others)
    (same : ∀ vertex, vertex ∈ leftVertices ↔ vertex ∈ rightVertices) : left.checkVertices = right.checkVertices := by
  have permuted := (List.perm_ext_iff_of_nodup leftJoins.distinct rightJoins.distinct).2 same
  have counts : left.vertexCount = right.vertexCount := by
    rw [leftJoins.vertexCount_eq, rightJoins.vertexCount_eq, permuted.length_eq]
  have sorts : leftVertices.insertionSort (· ≤ ·) = rightVertices.insertionSort (· ≤ ·) := by
    apply List.Perm.eq_of_pairwise' (List.pairwise_insertionSort _ _) (List.pairwise_insertionSort _ _)
    exact (List.perm_insertionSort _ _).trans (permuted.trans (List.perm_insertionSort _ _).symm)
  have numbered : (∀ index < left.vertexCount, (index : Int) + 1 ∈ leftVertices) ↔
      ∀ index < right.vertexCount, (index : Int) + 1 ∈ rightVertices := by
    rw [counts]
    simp only [same]
  rw [checkVertices, checkVertices, leftJoins.all_numbers, rightJoins.all_numbers, leftJoins.vertices_eq,
    rightJoins.vertices_eq, Value.sort_int, Value.sort_int, sorts, counts]
  rw [counts] at numbered
  simp only [numbered]

theorem Links.alike (leftLinks : left.Links leftKind leftVertices (Adjacent leftKind leftEdges))
    (rightLinks : right.Links rightKind rightVertices (Adjacent rightKind rightEdges)) (listable : leftKind ≠ .parallel)
    (listableToo : rightKind ≠ .parallel) (same : left.same right = .ok true) : left.Alike right := by
  rcases leftLinks.exists_same rightLinks listable listableToo with ⟨_, found, same_iff⟩
  cases found.symm.trans same
  rcases same_iff.1 rfl with ⟨vertices, edges⟩
  have permuted := (List.perm_ext_iff_of_nodup leftLinks.joins.distinct rightLinks.joins.distinct).2 vertices
  have counted : left.vertexCount = leftVertices.length := leftLinks.joins.vertexCount_eq
  have countedToo : right.vertexCount = rightVertices.length := rightLinks.joins.vertexCount_eq
  have checked : left.asUndirected.checkVertices = right.asUndirected.checkVertices :=
    leftLinks.joins.checkVertices_congr rightLinks.joins vertices
  exact {
    vertexCount_eq := by rw [counted, countedToo, permuted.length_eq]
    checkVertices_eq := checked
    edgeCount_eq := by rw [leftLinks.edgeCount_eq listable, rightLinks.edgeCount_eq listableToo, edges]
    sortedEdges_eq := by rw [leftLinks.sortedEdges_eq_ok listable, rightLinks.sortedEdges_eq_ok listableToo, edges] }

end Graph

end EnergyTables
