import EnergyTables.Proofs.Qubo.QuadraticForm

namespace EnergyTables

open Selection

namespace Value

theorem shapesOf_eq_ok {items : List Value} {shape : List Nat} (same : ∀ item ∈ items, shapeOf item = .ok shape)
    (some : items ≠ []) : shapesOf items = .ok (.some shape) := by
  induction items with
  | nil => exact absurd rfl some
  | cons item items ih =>
    obtain ⟨first, rest⟩ := List.forall_mem_cons.1 same
    rw [shapesOf, first, Outcome.ok_bind]
    cases items with
    | nil => rfl
    | cons next items =>
      rw [ih rest (List.cons_ne_nil _ _), Outcome.ok_bind]
      dsimp only
      rw [if_pos rfl]
      rfl

theorem Lists.shapeOf_eq_ok {value : Value} {items : List Value} (lists : value.Lists items) {shape : List Nat}
    (same : ∀ item ∈ items, shapeOf item = .ok shape) (some : items ≠ []) :
    shapeOf value = .ok (items.length :: shape) := by
  have shapes := shapesOf_eq_ok same some
  cases lists with
  | list => rw [shapeOf, shapes]; rfl
  | tuple => rw [shapeOf, shapes]; rfl

theorem leavesOf_eq_flatMap (items : List Value) : leavesOf items = items.flatMap leaves := by
  induction items with
  | nil => rfl
  | cons item items ih => rw [leavesOf, ih, List.flatMap_cons]

theorem Lists.leaves_eq {value : Value} {items : List Value} (lists : value.Lists items) :
    leaves value = items.flatMap leaves := by
  cases lists with
  | list => rw [leaves, leavesOf_eq_flatMap]
  | tuple => rw [leaves, leavesOf_eq_flatMap]

theorem leaves_numbers (numbers : List Number) : (numbers.map Value.number).flatMap leaves = numbers.map .number := by
  rw [List.flatMap_map]
  induction numbers with
  | nil => rfl
  | cons number numbers ih =>
    rw [List.flatMap_cons, ih]
    rfl

end Value

namespace Qubo

def cells (count : Nat) (entry : Nat → Nat → Int) : List Int :=
  (List.range count).flatMap fun row => (List.range count).map (entry row)

inductive Given (count : Nat) (entry : Nat → Nat → Int) : Value → Prop
  | array (storage : Storage) (writeable : Bool) {numbers : List Number}
      (whole : List.Forall₂ Number.IsWhole numbers (cells count entry)) :
      Given count entry (.array storage [count, count] writeable (numbers.map .number))
  | rows {given : Value} {items : List Value} (some : 0 < count) (outer : given.Lists items)
      (inner : List.Forall₂ (fun (item : Value) (row : Nat) => ∃ numbers : List Number,
        item.Lists (numbers.map .number) ∧ List.Forall₂ Number.IsWhole numbers ((List.range count).map (entry row)))
        items (List.range count)) : Given count entry given

variable {count : Nat} {entry : Nat → Nat → Int}

theorem getElem?_flatMap_range (count : Nat) (entry : Nat → Nat → Int) (rows : List Nat) {place column : Nat}
    (bound : column < count) :
    (rows.flatMap fun row => (List.range count).map (entry row))[place * count + column]? =
      rows[place]?.map fun row => entry row column := by
  induction rows generalizing place with
  | nil => simp
  | cons row rows ih =>
    have width : ((List.range count).map (entry row)).length = count := by
      rw [List.length_map, List.length_range]
    rw [List.flatMap_cons]
    cases place with
    | zero =>
      rw [Nat.zero_mul, Nat.zero_add, List.getElem?_append_left (by rwa [width]), List.getElem?_map,
        List.getElem?_range bound]
      rfl
    | succ place =>
      have later : (place + 1) * count + column = count + (place * count + column) := by
        rw [Nat.succ_mul]
        omega
      rw [List.getElem?_append_right (by rw [width, later]; exact Nat.le_add_right _ _), width, later,
        Nat.add_sub_cancel_left, ih, List.getElem?_cons_succ]

theorem getElem?_cells {row column : Nat} (rowBound : row < count) (columnBound : column < count) :
    (cells count entry)[row * count + column]? = some (entry row column) := by
  rw [cells, getElem?_flatMap_range count entry _ columnBound, List.getElem?_range rowBound]
  rfl

theorem length_cells (count : Nat) (entry : Nat → Nat → Int) : (cells count entry).length = count * count := by
  rw [cells, List.length_flatMap]
  simp

theorem mem_cells {number : Int} (member : number ∈ cells count entry) :
    ∃ row < count, ∃ column < count, entry row column = number := by
  obtain ⟨row, rowMember, member⟩ := List.mem_flatMap.1 member
  obtain ⟨column, columnMember, same⟩ := List.mem_map.1 member
  exact ⟨row, List.mem_range.1 rowMember, column, List.mem_range.1 columnMember, same⟩

theorem exists_numbers_of_rows {items : List Value} {rows : List Nat}
    (inner : List.Forall₂ (fun (item : Value) (row : Nat) => ∃ numbers : List Number,
      item.Lists (numbers.map .number) ∧ List.Forall₂ Number.IsWhole numbers ((List.range count).map (entry row)))
      items rows) :
    ∃ numbers : List Number, items.flatMap Value.leaves = numbers.map .number ∧
      List.Forall₂ Number.IsWhole numbers (rows.flatMap fun row => (List.range count).map (entry row)) := by
  induction inner with
  | nil => exact ⟨[], rfl, .nil⟩
  | cons first _ ih =>
    obtain ⟨numbers, lists, whole⟩ := first
    obtain ⟨others, rest, othersWhole⟩ := ih
    refine ⟨numbers ++ others, ?_, ?_⟩
    · rw [List.flatMap_cons, rest, lists.leaves_eq, Value.leaves_numbers, List.map_append]
    · rw [List.flatMap_cons]
      exact List.rel_append whole othersWhole

theorem Given.exists_numbers {given : Value} (isGiven : Given count entry given) :
    given.shapeOf = .ok [count, count] ∧ ∃ numbers : List Number, given.leaves = numbers.map .number ∧
      List.Forall₂ Number.IsWhole numbers (cells count entry) := by
  cases isGiven with
  | array storage writeable whole => exact ⟨rfl, _, rfl, whole⟩
  | @rows _ items some outer inner =>
    have tall : items.length = count := by rw [inner.length_eq, List.length_range]
    have shapes : ∀ item ∈ items, item.shapeOf = .ok [count] := by
      intro item member
      obtain ⟨row, _, numbers, lists, whole⟩ := Outcome.exists_of_forall₂_right inner.flip member
      have wide : (numbers.map Value.number).length = count := by
        rw [List.length_map, whole.length_eq, List.length_map, List.length_range]
      have nonempty : numbers.map Value.number ≠ [] := List.ne_nil_of_length_pos (by omega)
      have shape := lists.shapeOf_eq_ok (List.forall_mem_map.2 fun _ _ => rfl) nonempty
      rwa [wide] at shape
    have shape := outer.shapeOf_eq_ok shapes (List.ne_nil_of_length_pos (by omega))
    rw [tall] at shape
    rw [outer.leaves_eq]
    exact ⟨shape, exists_numbers_of_rows inner⟩

theorem exists_reals {numbers : List Number} {values : List Int} (whole : List.Forall₂ Number.IsWhole numbers values)
    (small : ∀ value ∈ values, |value| ≤ 2 ^ 53) :
    ∃ reals : List (Binary .double), (numbers.map Value.number).mapM (Value.store (.real .double)) =
        .ok (reals.map Matrix.real) ∧ List.Forall₂ Binary.IsWhole reals values := by
  induction whole with
  | nil => exact ⟨[], rfl, .nil⟩
  | cons first _ ih =>
    obtain ⟨firstSmall, restSmall⟩ := List.forall_mem_cons.1 small
    obtain ⟨real, realWhole, stored, _⟩ := first.exists_real firstSmall
    obtain ⟨reals, rest, restWhole⟩ := ih restSmall
    refine ⟨real :: reals, ?_, .cons realWhole restWhole⟩
    rw [List.map_cons, List.mapM_cons, stored, Outcome.ok_bind, rest]
    rfl

theorem map_realEntry (reals : List (Binary .double)) : (reals.map Matrix.real).map Matrix.realEntry = reals := by
  rw [List.map_map]
  conv_rhs => rw [← List.map_id reals]
  apply List.map_congr_left
  intro real _
  exact Binary.convert_self real

theorem holds_of_cells {reals : List (Binary .double)} (whole : List.Forall₂ Binary.IsWhole reals (cells count entry))
    (square : reals.length = count * count) : Matrix.Holds ⟨count, reals, square⟩ count entry := by
  refine ⟨rfl, fun row rowBound column columnBound => ?_⟩
  obtain ⟨lengths, each⟩ := List.forall₂_iff_get.1 whole
  obtain ⟨bound, found⟩ := List.getElem?_eq_some_iff.1 (@getElem?_cells count entry _ _ rowBound columnBound)
  have inside : row * count + column < reals.length := by rwa [lengths]
  have related := each _ inside bound
  rw [List.get_eq_getElem, List.get_eq_getElem, found] at related
  rw [Matrix.cell, List.getD_eq_getElem _ _ inside]
  exact related

/-- A matrix of small integers makes a problem, in whatever form it is given. -/
theorem Given.exists_qubo {given : Value} (isGiven : Given count entry given) (room : mass count entry ≤ 2 ^ 53) :
    ∃ qubo, make given = .ok qubo ∧ qubo.matrix.Holds count entry := by
  obtain ⟨shape, numbers, leaves, whole⟩ := isGiven.exists_numbers
  have small : ∀ value ∈ cells count entry, |value| ≤ 2 ^ 53 := by
    intro value member
    obtain ⟨row, rowBound, column, columnBound, rfl⟩ := mem_cells member
    exact (abs_le_mass entry rowBound columnBound).trans room
  obtain ⟨reals, stored, realsWhole⟩ := exists_reals whole small
  have square : reals.length = count * count := by rw [realsWhole.length_eq, length_cells]
  have array : given.toArray (.real .double) = .ok ([count, count], reals.map Matrix.real) := by
    rw [Value.toArray, shape, Outcome.ok_bind, leaves, stored]
    rfl
  have shaped : Matrix.shaped (.given given) = .ok ([count, count], some ⟨count, reals, square⟩) := by
    simp only [Matrix.shaped, Matrix.realsOf, array, Outcome.pure_eq_ok, Outcome.ok_bind, map_realEntry, square,
      and_self, dite_true]
  refine ⟨⟨⟨count, reals, square⟩⟩, ?_, holds_of_cells realsWhole square⟩
  rw [make, construct, shaped]
  rfl

end Qubo

end EnergyTables
