import EnergyTables.Proofs.Qubo.Folding

namespace EnergyTables

namespace Qubo

open EnergyTables.Matrix

def diagonal (size : Nat) : List (Nat × Nat) := (List.range size).map fun place => (place, place)

def above (size : Nat) : List (Nat × Nat) :=
  (List.range size).flatMap fun row => (List.range' (row + 1) (size - row - 1)).map fun column => (row, column)

theorem mem_diagonal {size : Nat} {place : Nat × Nat} : place ∈ diagonal size ↔ place.1 = place.2 ∧ place.2 < size := by
  obtain ⟨row, column⟩ := place
  simp only [diagonal, List.mem_map, List.mem_range, Prod.mk.injEq]
  constructor
  · rintro ⟨_, bound, rfl, rfl⟩
    exact ⟨rfl, bound⟩
  · rintro ⟨rfl, bound⟩
    exact ⟨_, bound, rfl, rfl⟩

theorem mem_above {size : Nat} {place : Nat × Nat} : place ∈ above size ↔ place.1 < place.2 ∧ place.2 < size := by
  obtain ⟨row, column⟩ := place
  simp only [above, List.mem_flatMap, List.mem_map, List.mem_range, List.mem_range'_1, Prod.mk.injEq]
  constructor
  · rintro ⟨_, _, _, _, rfl, rfl⟩
    omega
  · intro bounds
    exact ⟨row, by omega, column, by omega, rfl, rfl⟩

theorem nodup_places (size : Nat) : (diagonal size ++ above size).Nodup := by
  refine List.nodup_append'.2 ⟨?_, ?_, ?_⟩
  · exact List.nodup_range.map fun _ _ same => congrArg Prod.fst same
  · refine List.nodup_flatMap.2 ⟨fun row _ => ?_, ?_⟩
    · exact (List.nodup_range' ..).map fun _ _ same => congrArg Prod.snd same
    · refine List.nodup_range.imp fun differ => List.disjoint_left.2 fun place first second => ?_
      obtain ⟨_, _, rfl⟩ := List.mem_map.1 first
      obtain ⟨_, _, same⟩ := List.mem_map.1 second
      exact differ (congrArg Prod.fst same).symm
  · refine List.disjoint_left.2 fun place onDiagonal isAbove => ?_
    have same := (mem_diagonal.1 onDiagonal).1
    have below := (mem_above.1 isAbove).1
    omega

def live (matrix : Matrix) (places : List (Nat × Nat)) : List (Nat × Nat) :=
  places.filter fun place => !isZero (matrix.coupling place)

theorem mem_live {matrix : Matrix} {places : List (Nat × Nat)} {place : Nat × Nat} :
    place ∈ live matrix places ↔ place ∈ places ∧ isZero (matrix.coupling place) = false := by
  rw [live, List.mem_filter, Bool.not_eq_true']

theorem flatMap_term (matrix : Matrix) (scope : Nat × Nat → List Int) (tag : String) (places : List (Nat × Nat)) :
    (places.flatMap fun place => term (scope place) tag (matrix.coupling place)) =
      (live matrix places).map fun place => ⟨scope place, tag, .float (matrix.coupling place),
        energy (scope place) (.float (matrix.coupling place))⟩ := by
  induction places with
  | nil => rfl
  | cons place places ih =>
    rw [List.flatMap_cons, ih, term, live, live, List.filter_cons]
    cases isZero (matrix.coupling place) <;> rfl

theorem linearTerms_eq (matrix : Matrix) : linearTerms matrix =
    (diagonal matrix.size).flatMap fun place => term [(place.1 : Int) + 1] "linear" (matrix.coupling place) := by
  rw [diagonal, List.flatMap_map]
  simp only [coupling_self]
  rfl

theorem quadraticTerms_eq (matrix : Matrix) : quadraticTerms matrix = (above matrix.size).flatMap fun place =>
    term [(place.1 : Int) + 1, (place.2 : Int) + 1] "quadratic" (matrix.coupling place) := by
  rw [above, List.flatMap_assoc]
  unfold quadraticTerms
  refine List.flatMap_congr fun row _ => ?_
  rw [List.flatMap_map]
  refine List.flatMap_congr fun column member => ?_
  have below : row < column := (List.mem_range'_1.1 member).1
  rw [coupling_of_lt matrix below]

theorem term_congr {scope : List Int} {tag : String} {left right : Binary .double}
    (same : left = if isZero right then .zero .double else right) : term scope tag left = term scope tag right := by
  subst same
  unfold term
  split <;> simp_all [isZero_zero]

/-- The couplings of a matrix are all that its constraints know of it. -/
theorem terms_congr {left right : Matrix} (size : left.size = right.size)
    (same : ∀ row column, row ≤ column → column < right.size → ∀ scope tag,
      term scope tag (left.coupling (row, column)) = term scope tag (right.coupling (row, column))) :
    linearTerms left ++ quadraticTerms left = linearTerms right ++ quadraticTerms right := by
  rw [linearTerms_eq, linearTerms_eq, quadraticTerms_eq, quadraticTerms_eq, size]
  congr 1
  · refine List.flatMap_congr fun place member => ?_
    obtain ⟨equal, bound⟩ := mem_diagonal.1 member
    exact same _ _ equal.le bound _ _
  · refine List.flatMap_congr fun place member => ?_
    obtain ⟨below, bound⟩ := mem_above.1 member
    exact same _ _ below.le bound _ _

theorem terms_folded (matrix : Matrix) :
    linearTerms matrix.folded ++ quadraticTerms matrix.folded = linearTerms matrix ++ quadraticTerms matrix :=
  terms_congr rfl fun _ _ ordered bound _ _ => term_congr (coupling_folded ordered bound)

theorem terms_transpose (matrix : Matrix) :
    linearTerms matrix.transpose ++ quadraticTerms matrix.transpose = linearTerms matrix ++ quadraticTerms matrix :=
  terms_congr rfl fun _ _ ordered bound _ _ => by
    rw [coupling_transpose (Nat.lt_of_le_of_lt ordered bound) bound]

def linearOf (constraints : List SoftConstraint) : List (Value × Value) :=
  constraints.filterMap fun constraint =>
    match constraint.scope with
    | [index] => some (.int index, constraint.weight)
    | _ => none

def quadraticOf (constraints : List SoftConstraint) : List (Value × Value) :=
  constraints.filterMap fun constraint =>
    match constraint.scope with
    | [left, right] => some (pairKey (left, right), constraint.weight)
    | _ => none

def remade (qubo : Qubo) : Outcome Qubo := do
  let constraints ← qubo.problem.softConstraints
  ofTerms (.int qubo.matrix.size) (linearOf constraints) (quadraticOf constraints)

theorem linearOf_terms (matrix : Matrix) : linearOf (linearTerms matrix ++ quadraticTerms matrix) =
    (live matrix (diagonal matrix.size)).map fun place => (.int (place.1 + 1), .float (matrix.coupling place)) := by
  rw [linearTerms_eq, quadraticTerms_eq, flatMap_term, flatMap_term, linearOf, List.filterMap_append,
    List.filterMap_map, List.filterMap_map]
  simp

theorem quadraticOf_terms (matrix : Matrix) : quadraticOf (linearTerms matrix ++ quadraticTerms matrix) =
    (live matrix (above matrix.size)).map fun place =>
      (pairKey (place.1 + 1, place.2 + 1), .float (matrix.coupling place)) := by
  rw [linearTerms_eq, quadraticTerms_eq, flatMap_term, flatMap_term, quadraticOf, List.filterMap_append,
    List.filterMap_map, List.filterMap_map]
  simp

def Adds (coefficient : Value) (amount : Binary .double) : Prop :=
  ∀ cell : Binary .double, cellSum cell coefficient = .ok (Matrix.real (cell.add amount))

theorem adds_float (amount : Binary .double) : Adds (.float amount) amount := fun _ => Number.add_real _ rfl rfl

theorem addAt_eq_ok {matrix : Matrix} {row column : Value} {cell : Nat × Nat} (isRow : place matrix.size row = .ok cell.1)
    (isColumn : place matrix.size column = .ok cell.2) {coefficient : Value} {amount : Binary .double}
    (adds : Adds coefficient amount) : addAt matrix row column coefficient = .ok (matrix.increase cell amount) := by
  rw [addAt, isRow, Outcome.ok_bind, isColumn, Outcome.ok_bind, adds, Outcome.ok_bind, store_real, Outcome.ok_bind,
    Matrix.real, Matrix.realEntry, Binary.convert_self]
  rfl

theorem addAt_float {matrix : Matrix} {place : Nat × Nat} (inside : place.1 < matrix.size ∧ place.2 < matrix.size)
    (amount : Binary .double) :
    addAt matrix (.int (place.1 + 1)) (.int (place.2 + 1)) (.float amount) = .ok (matrix.increase place amount) :=
  addAt_eq_ok (place_eq_ok inside.1) (place_eq_ok inside.2) (adds_float amount)

theorem foldlM_eq_foldl {amount : Nat × Nat → Binary .double} {step : Matrix → Nat × Nat → Outcome Matrix} {size : Nat}
    {places : List (Nat × Nat)}
    (steps : ∀ place ∈ places, ∀ current : Matrix, current.size = size →
      step current place = .ok (current.increase place (amount place))) {matrix : Matrix} (sized : matrix.size = size) :
    places.foldlM step matrix = .ok (places.foldl (fun current place => current.increase place (amount place)) matrix) := by
  induction places generalizing matrix with
  | nil => rfl
  | cons place places ih =>
    obtain ⟨first, rest⟩ := List.forall_mem_cons.1 steps
    have next := @ih rest (matrix.increase place (amount place)) sized
    rw [List.foldlM_cons, first matrix sized, Outcome.ok_bind, next, List.foldl_cons]

theorem folded_eq_foldl (matrix : Matrix) : (live matrix (diagonal matrix.size ++ above matrix.size)).foldl
    (fun current place => current.increase place (matrix.coupling place)) (Matrix.zero matrix.size) = matrix.folded := by
  have nodup : (live matrix (diagonal matrix.size ++ above matrix.size)).Nodup := (nodup_places matrix.size).filter _
  have inside : ∀ place ∈ live matrix (diagonal matrix.size ++ above matrix.size),
      place.1 < (Matrix.zero matrix.size).size ∧ place.2 < (Matrix.zero matrix.size).size := by
    intro place member
    change place.1 < matrix.size ∧ place.2 < matrix.size
    rcases List.mem_append.1 (mem_live.1 member).1 with member | member
    · have := mem_diagonal.1 member
      omega
    · have := mem_above.1 member
      omega
  refine eq_of_cell_eq (size_foldl_increase ..)
    fun row (rowBound : row < matrix.size) column (columnBound : column < matrix.size) => ?_
  have member_iff : (row, column) ∈ live matrix (diagonal matrix.size ++ above matrix.size) ↔
      ¬(column < row ∨ isZero (matrix.coupling (row, column)) = true) := by
    rw [mem_live, List.mem_append, mem_diagonal, mem_above, not_or, Bool.not_eq_true]
    refine and_congr_left fun _ => ?_
    omega
  rw [cell_foldl_increase _ nodup inside columnBound, cell_zero, Matrix.folded, cell_ofCells _ rowBound columnBound]
  by_cases none : column < row ∨ isZero (matrix.coupling (row, column)) = true
  · rw [if_neg (mt member_iff.1 (not_not.2 none)), if_pos none]
  · have nonzero : isZero (matrix.coupling (row, column)) = false := Bool.eq_false_iff.2 fun zero => none (.inr zero)
    rw [if_pos (member_iff.2 none), if_neg none, Binary.zero_add nonzero]

theorem sameKey_variables {matrix : Matrix} {places : List (Nat × Nat)} (nodup : (places.map Prod.fst).Nodup) :
    (places.map fun place => ((.int (place.1 + 1), .float (matrix.coupling place)) : Value × Value)).Pairwise
      fun left right => left.1.sameKey right.1 = false := by
  refine List.pairwise_map.2 ((List.pairwise_map.1 nodup).imp fun differ => ?_)
  rw [Value.sameKey_int, decide_eq_false_iff_not]
  omega

theorem sameKey_pairs {matrix : Matrix} {places : List (Nat × Nat)} (nodup : places.Nodup) :
    (places.map fun place => (pairKey (place.1 + 1, place.2 + 1), (.float (matrix.coupling place) : Value))).Pairwise
      fun left right => left.1.sameKey right.1 = false := by
  refine List.pairwise_map.2 (nodup.imp fun differ => sameKey_pairKey fun same => differ ?_)
  obtain ⟨sameRow, sameColumn⟩ := Prod.mk.injEq .. ▸ same
  exact Prod.ext (by omega) (by omega)

theorem foldlM_linear (matrix : Matrix) :
    ((live matrix (diagonal matrix.size)).map fun place =>
      ((.int (place.1 + 1), .float (matrix.coupling place)) : Value × Value)).foldlM
        (fun current pair => addAt current pair.1 pair.1 pair.2) (Matrix.zero matrix.size) =
      .ok ((live matrix (diagonal matrix.size)).foldl
        (fun current place => current.increase place (matrix.coupling place)) (Matrix.zero matrix.size)) := by
  rw [List.foldlM_map]
  refine @foldlM_eq_foldl _ _ matrix.size _ (fun place member current sized => ?_) _ rfl
  obtain ⟨same, bound⟩ := mem_diagonal.1 (mem_live.1 member).1
  have added := @addAt_float current place (by omega) (matrix.coupling place)
  rwa [← same] at added

theorem foldlM_quadratic (matrix : Matrix) {start : Matrix} (sized : start.size = matrix.size) :
    ((live matrix (above matrix.size)).map fun place =>
      (pairKey (place.1 + 1, place.2 + 1), (.float (matrix.coupling place) : Value))).foldlM addPair start =
      .ok ((live matrix (above matrix.size)).foldl
        (fun current place => current.increase place (matrix.coupling place)) start) := by
  rw [List.foldlM_map]
  refine @foldlM_eq_foldl _ _ matrix.size _ (fun place member current currentSized => ?_) _ sized
  obtain ⟨below, bound⟩ := mem_above.1 (mem_live.1 member).1
  have row : (min ((place.1 : Int) + 1) (place.2 + 1)).toNat - 1 = place.1 := by omega
  have column : (max ((place.1 : Int) + 1) (place.2 + 1)).toNat - 1 = place.2 := by omega
  have positive : 1 ≤ (place.1 : Int) + 1 ∧ 1 ≤ (place.2 : Int) + 1 := by omega
  have added := @addPair_eq current (((place.1 : Int) + 1, (place.2 : Int) + 1), 0) positive
    (.float (matrix.coupling place))
  dsimp only [Qubo.folded] at added
  rwa [row, column, addAt_float (by omega)] at added

/-- The problem of its own coefficients is that of the folded matrix, where a matrix of its size can be made. -/
theorem remade_eq (qubo : Qubo) : qubo.remade =
    if 8 * ((qubo.matrix.size : Int) * qubo.matrix.size) < Value.sizeLimit then .ok ⟨qubo.matrix.folded⟩
    else .error .invalid := by
  obtain ⟨matrix⟩ := qubo
  have soft : (Qubo.mk matrix).problem.softConstraints = .ok (linearTerms matrix ++ quadraticTerms matrix) := rfl
  have places := List.nodup_append'.1 (nodup_places matrix.size)
  have distinct : ((live matrix (diagonal matrix.size)).map Prod.fst).Nodup := by
    refine List.Nodup.map_on ?_ (places.1.filter _)
    intro left leftMember right rightMember same
    have leftDiagonal := (mem_diagonal.1 (mem_live.1 leftMember).1).1
    have rightDiagonal := (mem_diagonal.1 (mem_live.1 rightMember).1).1
    exact Prod.ext same (by omega)
  have linearKeys := mergeKeys_eq_ok (List.forall_mem_map.2 fun _ _ => rfl) (@sameKey_variables matrix _ distinct)
  have pairs : (live matrix (above matrix.size)).Nodup := places.2.1.filter _
  have quadraticKeys := mergeKeys_eq_ok (List.forall_mem_map.2 fun _ _ => rfl) (@sameKey_pairs matrix _ pairs)
  rw [remade, soft, Outcome.ok_bind, linearOf_terms, quadraticOf_terms, ofTerms_eq_foldlM, linearKeys, Outcome.ok_bind,
    quadraticKeys, Outcome.ok_bind, sizeOf_int]
  split
  · have sums := folded_eq_foldl matrix
    rw [live, List.filter_append, List.foldl_append] at sums
    have sized := size_foldl_increase matrix.coupling (live matrix (diagonal matrix.size)) (Matrix.zero matrix.size)
    rw [Outcome.ok_bind, foldlM_linear, Outcome.ok_bind, foldlM_quadratic matrix sized]
    exact congrArg (fun folded => Except.ok (Qubo.mk folded)) sums
  · rfl

theorem same_self {qubo : Qubo} (numbers : ∀ entry ∈ qubo.matrix.entries, entry.isNaN = false) :
    qubo.same qubo = true := by
  rw [same, beq_self_eq_true, Bool.true_and, List.all_eq_true]
  rintro ⟨left, right⟩ member
  obtain ⟨index, bound, found⟩ := List.getElem_of_mem member
  rw [List.getElem_zip] at found
  cases found
  exact Binary.equal_self (numbers _ (List.getElem_mem _))

theorem isFinite_cell {matrix : Matrix} (finite : ∀ entry ∈ matrix.entries, entry.isFinite = true) (row column : Nat) :
    (matrix.cell row column).isFinite = true := by
  unfold cell
  by_cases inside : row * matrix.size + column < matrix.entries.length
  · rw [List.getD_eq_getElem _ _ inside]
    exact finite _ (List.getElem_mem inside)
  · rw [List.getD_eq_default _ _ (not_lt.1 inside)]
    rfl

theorem isNaN_folded {matrix : Matrix} (finite : ∀ entry ∈ matrix.entries, entry.isFinite = true) :
    ∀ entry ∈ matrix.folded.entries, entry.isNaN = false := by
  intro entry member
  obtain ⟨index, _, rfl⟩ := List.mem_map.1 member
  dsimp only
  split
  next => rfl
  next =>
    -- a sum may leave the range of the reals, but is a number still
    unfold coupling
    split
    next => exact Binary.isNaN_of_isFinite (isFinite_cell finite _ _)
    next => exact Binary.isNaN_add_of_isFinite (isFinite_cell finite _ _) (isFinite_cell finite _ _)

theorem energyTerms_congr {left right : Qubo} (size : left.matrix.size = right.matrix.size)
    (same : linearTerms left.matrix ++ quadraticTerms left.matrix = linearTerms right.matrix ++ quadraticTerms right.matrix) :
    left.problem.energyTerms = right.problem.energyTerms := by
  have tables : left.problem.softTerm (.stored (.real .double)) = right.problem.softTerm (.stored (.real .double)) := by
    have counted : left.problem.variableCount = right.problem.variableCount := congrArg Nat.cast size
    funext constraint
    rw [Problem.softTerm, counted]
    rfl
  rw [energyTerms_eq_mapM, energyTerms_eq_mapM, same, tables]

theorem exists_energyTerms (qubo : Qubo) : ∃ terms, qubo.problem.energyTerms = .ok terms := by
  rw [energyTerms_eq_mapM]
  refine Outcome.exists_mapM fun constraint member => ?_
  have counted : qubo.problem.variableCount = (qubo.matrix.size : Int) := rfl
  rw [linearTerms_eq, quadraticTerms_eq, flatMap_term, flatMap_term] at member
  rcases List.mem_append.1 member with member | member
  · obtain ⟨place, live, rfl⟩ := List.mem_map.1 member
    obtain ⟨same, bound⟩ := mem_diagonal.1 (mem_live.1 live).1
    exact exists_softTerm_of_float rfl (counted ▸ inside_single (same ▸ bound)) rfl
  · obtain ⟨place, live, rfl⟩ := List.mem_map.1 member
    obtain ⟨below, bound⟩ := mem_above.1 (mem_live.1 live).1
    exact exists_softTerm_of_float rfl (counted ▸ inside_pair (below.trans bound) bound) rfl

/-- The coefficients that the constraints of a problem over finite entries give make, where a matrix of its size can
    be, a problem with the same constraints and tables and with a matrix that is zero below the diagonal; its own
    coefficients make it again. The matrix with its rows as columns has the same constraints too. -/
theorem constraints_normalForm (qubo : Qubo) (finite : ∀ entry ∈ qubo.matrix.entries, entry.isFinite = true) :
    ((∃ made, qubo.remade = .ok made) ↔ 8 * ((qubo.matrix.size : Int) * qubo.matrix.size) < Value.sizeLimit) ∧
    (∀ made, qubo.remade = .ok made →
      made.problem.softConstraints = qubo.problem.softConstraints ∧
      (∃ terms, qubo.problem.energyTerms = .ok terms ∧ made.problem.energyTerms = .ok terms) ∧
      made.matrix.size = qubo.matrix.size ∧
      (∀ row < qubo.matrix.size, ∀ column < row, made.matrix.cell row column = .zero .double) ∧
      ∃ again, made.remade = .ok again ∧ again.same made = true) ∧
    (⟨qubo.matrix.transpose⟩ : Qubo).problem.softConstraints = qubo.problem.softConstraints := by
  obtain ⟨matrix⟩ := qubo
  have made_eq := remade_eq ⟨matrix⟩
  by_cases fits : 8 * ((matrix.size : Int) * matrix.size) < Value.sizeLimit
  · rw [if_pos fits] at made_eq
    refine ⟨⟨fun _ => fits, fun _ => ⟨_, made_eq⟩⟩, fun made found => ?_, congrArg Except.ok (terms_transpose matrix)⟩
    obtain rfl : (Qubo.mk matrix.folded) = made := Except.ok.inj (made_eq.symm.trans found)
    obtain ⟨terms, compiled⟩ := exists_energyTerms ⟨matrix⟩
    refine ⟨congrArg Except.ok (terms_folded matrix), ⟨terms, compiled, ?_⟩, rfl, ?_, ⟨matrix.folded⟩, ?_, ?_⟩
    · rw [← compiled]
      exact energyTerms_congr rfl (terms_folded matrix)
    · intro row rowBound column below
      exact (cell_ofCells _ rowBound (below.trans rowBound)).trans (if_pos (.inl below))
    · have again := remade_eq ⟨matrix.folded⟩
      rw [folded_folded] at again
      exact again.trans (if_pos fits)
    · exact same_self (isNaN_folded finite)
  · rw [if_neg fits] at made_eq
    refine ⟨⟨?_, fun small => absurd small fits⟩, ?_, congrArg Except.ok (terms_transpose matrix)⟩
    · rintro ⟨made, found⟩
      cases made_eq.symm.trans found
    · intro made found
      cases made_eq.symm.trans found

theorem constraints_normalForm_cancelling : ∃ qubo made : Qubo,
    qubo.matrix.entries = [1, 2, 0, -2, 0, 7, 5, 1, -4].map (Binary.ofInt .double) ∧
    (∀ entry ∈ qubo.matrix.entries, entry.isFinite = true) ∧ qubo.remade = .ok made ∧
    made.problem.softConstraints = qubo.problem.softConstraints ∧
    (∀ row < 3, ∀ column < row, made.matrix.cell row column = .zero .double) ∧
    (⟨qubo.matrix.transpose⟩ : Qubo).problem.softConstraints = qubo.problem.softConstraints := by
  have finite : ∀ entry ∈ [1, 2, 0, -2, 0, 7, 5, 1, -4].map (Binary.ofInt .double), entry.isFinite = true := by
    decide +kernel
  obtain ⟨made_iff, results, transposed⟩ :=
    constraints_normalForm ⟨⟨3, [1, 2, 0, -2, 0, 7, 5, 1, -4].map (Binary.ofInt .double), rfl⟩⟩ finite
  obtain ⟨made, found⟩ := made_iff.2 (by decide)
  obtain ⟨constraints, _, _, below, _⟩ := results made found
  exact ⟨_, made, rfl, finite, found, constraints, below, transposed⟩

end Qubo

end EnergyTables
