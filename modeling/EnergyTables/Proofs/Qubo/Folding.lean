import EnergyTables.Proofs.Qubo.Coefficients

namespace EnergyTables

namespace Binary

variable {format : BinaryFormat}

theorem add_comm (left right : Binary format) : left.add right = right.add left := by
  cases left with
  | nan => cases right <;> rfl
  | infinite left =>
    cases right with
    | infinite right => cases left <;> cases right <;> rfl
    | _ => rfl
  | finite left leftUnits =>
    cases right with
    | finite right rightUnits => rw [add, add, Bool.and_comm, Int.add_comm]
    | _ => rfl

theorem zero_eq : zero .double = .finite false 0 (by decide +kernel) :=
  ofUnits_of_representable false _

theorem zero_add {real : Binary .double} (nonzero : Matrix.isZero real = false) : (zero .double).add real = real := by
  rw [zero_eq]
  cases real with
  | nan | infinite => rfl
  | finite negative units representable =>
    have signed : signedUnits negative units ≠ 0 := by
      intro none
      have equal : Matrix.isZero (.finite negative units representable) =
          (compare (signedUnits negative units) 0 == .eq) := rfl
      rw [equal, none] at nonzero
      cases nonzero
    have sign : decide (signedUnits negative units < 0) = negative := by
      unfold signedUnits at signed ⊢
      cases negative
      · simp
      · simp at signed ⊢
        omega
    have size : (signedUnits negative units).natAbs = units := by
      unfold signedUnits
      cases negative <;> simp
    have sum : signedUnits false 0 + signedUnits negative units = signedUnits negative units := Int.zero_add _
    rw [add, sum, ofSignedUnits, if_neg signed, sign, size, roundUnits_of_representable representable,
      ofUnits_of_representable]

theorem add_zero {real : Binary .double} (nonzero : Matrix.isZero real = false) : real.add (zero .double) = real := by
  rw [add_comm, zero_add nonzero]

theorem zero_add_zero : (zero .double).add (zero .double) = zero .double := by
  rw [zero_eq]
  decide +kernel

theorem equal_self {real : Binary format} (number : real.isNaN = false) : real.equal real = true := by
  cases real with
  | nan => cases number
  | infinite negative => cases negative <;> rfl
  | finite => simp [equal, compare?]

theorem isNaN_of_isFinite {real : Binary format} (finite : real.isFinite = true) : real.isNaN = false := by
  cases real with
  | finite => rfl
  | _ => cases finite

theorem isNaN_add_of_isFinite {left right : Binary format} (leftFinite : left.isFinite = true)
    (rightFinite : right.isFinite = true) : (left.add right).isNaN = false := by
  cases left with
  | finite left leftUnits =>
    cases right with
    | finite right rightUnits =>
      rw [add, ofSignedUnits]
      split <;> rw [ofUnits] <;> split <;> rfl
    | _ => cases rightFinite
  | _ => cases leftFinite

end Binary

namespace Matrix

@[ext] theorem ext {left right : Matrix} (size : left.size = right.size) (entries : left.entries = right.entries) :
    left = right := by
  cases left
  cases right
  cases size
  cases entries
  rfl

theorem eq_of_cell_eq {left right : Matrix} (size : left.size = right.size)
    (same : ∀ row < right.size, ∀ column < right.size, left.cell row column = right.cell row column) : left = right := by
  have lengths : left.entries.length = right.entries.length := by rw [left.square, right.square, size]
  refine Matrix.ext size (List.ext_getElem lengths fun index leftBound rightBound => ?_)
  have bound : index < right.size * right.size := by rwa [← right.square]
  have positive : 0 < right.size := Nat.pos_of_mul_pos_left (by omega : 0 < right.size * right.size)
  have cells := same (index / right.size) (Nat.div_lt_of_lt_mul bound) (index % right.size) (Nat.mod_lt _ positive)
  unfold cell at cells
  rwa [size, Nat.div_add_mod', List.getD_eq_getElem _ _ leftBound, List.getD_eq_getElem _ _ rightBound] at cells

def ofCells (size : Nat) (entry : Nat → Nat → Binary .double) : Matrix :=
  ⟨size, (List.range (size * size)).map fun index => entry (index / size) (index % size), by simp⟩

theorem cell_ofCells {size row column : Nat} (entry : Nat → Nat → Binary .double) (rowBound : row < size)
    (columnBound : column < size) : (ofCells size entry).cell row column = entry row column := by
  have bound := cellIndex_lt rowBound columnBound
  have quotient : (row * size + column) / size = row := by
    rw [Nat.mul_comm, Nat.mul_add_div (by omega), Nat.div_eq_of_lt columnBound, Nat.add_zero]
  have remainder : (row * size + column) % size = column := by
    rw [Nat.mul_comm, Nat.mul_add_mod, Nat.mod_eq_of_lt columnBound]
  unfold cell ofCells
  dsimp only
  rw [List.getD_eq_getElem _ _ (by simpa using bound), List.getElem_map, List.getElem_range, quotient, remainder]

def transpose (matrix : Matrix) : Matrix := ofCells matrix.size fun row column => matrix.cell column row

/-- What a matrix says of a variable, or of two of them: their entry, or the two entries of the pair together. -/
def coupling (matrix : Matrix) (place : Nat × Nat) : Binary .double :=
  if place.1 = place.2 then matrix.cell place.1 place.2
  else (matrix.cell place.1 place.2).add (matrix.cell place.2 place.1)

/-- The matrix with its entries below the diagonal added to those above; a coupling of zero leaves a plain zero. -/
def folded (matrix : Matrix) : Matrix :=
  ofCells matrix.size fun row column =>
    if column < row ∨ isZero (matrix.coupling (row, column)) then .zero .double else matrix.coupling (row, column)

theorem coupling_self (matrix : Matrix) (place : Nat) : matrix.coupling (place, place) = matrix.cell place place :=
  if_pos rfl

theorem coupling_of_lt (matrix : Matrix) {row column : Nat} (below : row < column) :
    matrix.coupling (row, column) = (matrix.cell row column).add (matrix.cell column row) :=
  if_neg below.ne

theorem coupling_transpose {matrix : Matrix} {row column : Nat} (rowBound : row < matrix.size)
    (columnBound : column < matrix.size) : matrix.transpose.coupling (row, column) = matrix.coupling (row, column) := by
  unfold coupling transpose
  dsimp only
  rw [cell_ofCells _ rowBound columnBound, cell_ofCells _ columnBound rowBound]
  split
  next same => rw [same]
  next => rw [Binary.add_comm]

theorem isZero_zero : isZero (.zero .double) = true := by decide +kernel

/-- Folding keeps each coupling, up to the sign of a zero. -/
theorem coupling_folded {matrix : Matrix} {row column : Nat} (ordered : row ≤ column) (bound : column < matrix.size) :
    matrix.folded.coupling (row, column) =
      if isZero (matrix.coupling (row, column)) then .zero .double else matrix.coupling (row, column) := by
  have rowBound : row < matrix.size := by omega
  have upper : matrix.folded.cell row column =
      if isZero (matrix.coupling (row, column)) then .zero .double else matrix.coupling (row, column) := by
    rw [folded, cell_ofCells _ rowBound bound]
    simp only [not_lt.2 ordered, false_or]
  rcases Nat.eq_or_lt_of_le ordered with rfl | below
  · rw [coupling_self matrix.folded, upper]
  · have lower : matrix.folded.cell column row = .zero .double := by
      rw [folded, cell_ofCells _ bound rowBound, if_pos (.inl below)]
    rw [coupling_of_lt matrix.folded below, upper, lower]
    split
    next => exact Binary.zero_add_zero
    next nonzero => exact Binary.add_zero (Bool.eq_false_iff.2 nonzero)

theorem isZero_coupling_folded {matrix : Matrix} {row column : Nat} (ordered : row ≤ column)
    (bound : column < matrix.size) :
    isZero (matrix.folded.coupling (row, column)) = isZero (matrix.coupling (row, column)) := by
  rw [coupling_folded ordered bound]
  split
  next zero => rw [isZero_zero, zero]
  next => rfl

theorem folded_folded (matrix : Matrix) : matrix.folded.folded = matrix.folded := by
  refine eq_of_cell_eq rfl fun row (rowBound : row < matrix.size) column (columnBound : column < matrix.size) => ?_
  have again : matrix.folded.folded.cell row column = if column < row ∨ isZero (matrix.folded.coupling (row, column))
      then .zero .double else matrix.folded.coupling (row, column) := cell_ofCells _ rowBound columnBound
  have once : matrix.folded.cell row column = if column < row ∨ isZero (matrix.coupling (row, column))
      then .zero .double else matrix.coupling (row, column) := cell_ofCells _ rowBound columnBound
  rw [again, once]
  rcases Nat.lt_or_ge column row with below | ordered
  · rw [if_pos (.inl below), if_pos (.inl below)]
  · rw [isZero_coupling_folded ordered columnBound, coupling_folded ordered columnBound]
    split <;> simp_all

def increase (matrix : Matrix) (place : Nat × Nat) (amount : Binary .double) : Matrix :=
  matrix.setCell place.1 place.2 ((matrix.cell place.1 place.2).add amount)

theorem size_foldl_increase (amount : Nat × Nat → Binary .double) (places : List (Nat × Nat)) (matrix : Matrix) :
    (places.foldl (fun current place => current.increase place (amount place)) matrix).size = matrix.size := by
  induction places generalizing matrix with
  | nil => rfl
  | cons place places ih => exact ih _

theorem cell_foldl_increase (amount : Nat × Nat → Binary .double) {places : List (Nat × Nat)} (nodup : places.Nodup)
    {matrix : Matrix} (inside : ∀ place ∈ places, place.1 < matrix.size ∧ place.2 < matrix.size) {row column : Nat}
    (bound : column < matrix.size) :
    (places.foldl (fun current place => current.increase place (amount place)) matrix).cell row column =
      if (row, column) ∈ places then (matrix.cell row column).add (amount (row, column)) else matrix.cell row column := by
  induction places generalizing matrix with
  | nil => rfl
  | cons place places ih =>
    obtain ⟨first, rest⟩ := List.forall_mem_cons.1 inside
    obtain ⟨new, nodup⟩ := List.nodup_cons.1 nodup
    have sums := @ih nodup (matrix.increase place (amount place)) rest bound
    rw [List.foldl_cons, sums, increase, cell_setCell first.1 first.2 bound]
    by_cases same : place = (row, column)
    · subst same
      simp [new]
    · simp [same, Ne.symm same]

end Matrix

end EnergyTables
