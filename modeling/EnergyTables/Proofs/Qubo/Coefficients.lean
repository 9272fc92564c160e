import EnergyTables.Proofs.Qubo.Matrices

namespace EnergyTables

open Selection

namespace Qubo

def single (place : Nat × Nat) (value : Int) (row column : Nat) : Int := if place = (row, column) then value else 0

def tally (terms : List ((Nat × Nat) × Int)) (row column : Nat) : Int :=
  (terms.map fun term => single term.1 term.2 row column).sum

def weight (terms : List ((Nat × Nat) × Int)) : Int := (terms.map fun term => |term.2|).sum

theorem weight_nonneg (terms : List ((Nat × Nat) × Int)) : 0 ≤ weight terms :=
  List.sum_nonneg (List.forall_mem_map.2 fun _ _ => abs_nonneg _)

theorem weight_append (front back : List ((Nat × Nat) × Int)) : weight (front ++ back) = weight front + weight back := by
  rw [weight, List.map_append, List.sum_append, weight, weight]

theorem weight_cons (term : (Nat × Nat) × Int) (terms : List ((Nat × Nat) × Int)) :
    weight (term :: terms) = |term.2| + weight terms := by
  rw [weight, List.map_cons, List.sum_cons, weight]

section Sums

variable {count : Nat}

theorem form_add (count : Nat) (entry other : Nat → Nat → Int) (bits : List Nat) :
    form count (fun row column => entry row column + other row column) bits =
      form count entry bits + form count other bits := by
  unfold form
  simp only [add_mul, Finset.sum_add_distrib]

theorem mass_add_le (count : Nat) (entry other : Nat → Nat → Int) :
    mass count (fun row column => entry row column + other row column) ≤ mass count entry + mass count other := by
  unfold mass
  rw [← Finset.sum_add_distrib]
  apply Finset.sum_le_sum
  intro row _
  rw [← Finset.sum_add_distrib]
  apply Finset.sum_le_sum
  intro column _
  exact abs_add_le _ _

theorem sum_single {place : Nat × Nat} (inside : place.1 < count ∧ place.2 < count) (value : Nat → Nat → Int) :
    ∑ row ∈ Finset.range count, ∑ column ∈ Finset.range count, (if place = (row, column) then value row column else 0) =
      value place.1 place.2 := by
  rw [Finset.sum_eq_single place.1, Finset.sum_eq_single place.2]
  · rw [if_pos rfl]
  · intro column _ differ
    exact if_neg fun same => differ (congrArg Prod.snd same).symm
  · intro absent
    exact absurd (Finset.mem_range.2 inside.2) absent
  · intro row _ differ
    apply Finset.sum_eq_zero
    intro column _
    exact if_neg fun same => differ (congrArg Prod.fst same).symm
  · intro absent
    exact absurd (Finset.mem_range.2 inside.1) absent

theorem form_single {place : Nat × Nat} (inside : place.1 < count ∧ place.2 < count) (value : Int) (bits : List Nat) :
    form count (single place value) bits = value * bit bits place.1 * bit bits place.2 := by
  rw [← sum_single inside fun row column => value * bit bits row * bit bits column]
  unfold form single
  simp only [ite_mul, zero_mul]

theorem mass_single {place : Nat × Nat} (inside : place.1 < count ∧ place.2 < count) (value : Int) :
    mass count (single place value) = |value| := by
  rw [← sum_single inside fun _ _ => |value|]
  unfold mass single
  simp only [apply_ite, abs_zero]

theorem tally_append (front back : List ((Nat × Nat) × Int)) :
    tally (front ++ back) = fun row column => tally front row column + tally back row column := by
  funext row column
  rw [tally, List.map_append, List.sum_append, tally, tally]

theorem tally_singleton (term : (Nat × Nat) × Int) : tally [term] = single term.1 term.2 := by
  funext row column
  rw [tally, List.map_singleton, List.sum_singleton]

theorem form_tally {terms : List ((Nat × Nat) × Int)}
    (inside : ∀ term ∈ terms, term.1.1 < count ∧ term.1.2 < count) (bits : List Nat) :
    form count (tally terms) bits = (terms.map fun term => term.2 * bit bits term.1.1 * bit bits term.1.2).sum := by
  induction terms with
  | nil => simp [form, tally]
  | cons term terms ih =>
    obtain ⟨first, rest⟩ := List.forall_mem_cons.1 inside
    rw [← List.singleton_append, tally_append, form_add, tally_singleton, form_single first, ih rest, List.map_append,
      List.sum_append, List.map_singleton, List.sum_singleton]

theorem mass_tally_le {terms : List ((Nat × Nat) × Int)}
    (inside : ∀ term ∈ terms, term.1.1 < count ∧ term.1.2 < count) : mass count (tally terms) ≤ weight terms := by
  induction terms with
  | nil => simp [mass, tally, weight]
  | cons term terms ih =>
    obtain ⟨first, rest⟩ := List.forall_mem_cons.1 inside
    have grown := mass_add_le count (tally [term]) (tally terms)
    rw [← tally_append, tally_singleton, mass_single first] at grown
    rw [weight_cons]
    exact grown.trans (Int.add_le_add_left (ih rest) _)

end Sums

end Qubo

namespace Matrix

open Qubo

theorem cellIndex_inj {count row column otherRow otherColumn : Nat} (bound : column < count)
    (otherBound : otherColumn < count) (same : row * count + column = otherRow * count + otherColumn) :
    row = otherRow ∧ column = otherColumn := by
  have remainders := congrArg (· % count) same
  have quotients := congrArg (· / count) same
  simp only [Nat.mul_comm _ count, Nat.mul_add_mod, Nat.mod_eq_of_lt bound,
    Nat.mod_eq_of_lt otherBound] at remainders
  simp only [Nat.mul_comm _ count, Nat.mul_add_div (by omega : count > 0), Nat.div_eq_of_lt bound,
    Nat.div_eq_of_lt otherBound, Nat.add_zero] at quotients
  exact ⟨quotients, remainders⟩

theorem cellIndex_lt {count row column : Nat} (rowBound : row < count) (columnBound : column < count) :
    row * count + column < count * count := by
  have step : (row + 1) * count ≤ count * count := Nat.mul_le_mul_right count rowBound
  rw [Nat.succ_mul] at step
  omega

theorem cell_zero (size row column : Nat) : (zero size).cell row column = .zero .double := by
  unfold cell zero
  dsimp only
  by_cases inside : row * size + column < (List.replicate (size * size) (Binary.zero .double)).length
  · rw [List.getD_eq_getElem _ _ inside, List.getElem_replicate]
  · rw [List.getD_eq_default _ _ (by omega)]

theorem cell_setCell {matrix : Matrix} {row column otherRow otherColumn : Nat} (rowBound : row < matrix.size)
    (columnBound : column < matrix.size) (otherBound : otherColumn < matrix.size) (value : Binary .double) :
    (matrix.setCell row column value).cell otherRow otherColumn =
      if (row, column) = (otherRow, otherColumn) then value else matrix.cell otherRow otherColumn := by
  have inside : row * matrix.size + column < matrix.entries.length := by
    rw [matrix.square]
    exact cellIndex_lt rowBound columnBound
  unfold cell setCell
  dsimp only
  split
  next same =>
    cases same
    rw [List.getD_eq_getElem _ _ (by rwa [List.length_set]), List.getElem_set_self]
  next differ =>
    have apart : row * matrix.size + column ≠ otherRow * matrix.size + otherColumn := by
      intro together
      obtain ⟨sameRow, sameColumn⟩ := cellIndex_inj columnBound otherBound together
      exact differ (by rw [sameRow, sameColumn])
    rw [List.getD_eq_getElem?_getD, List.getElem?_set_ne apart, ← List.getD_eq_getElem?_getD]

theorem Holds.setCell {matrix : Matrix} {count : Nat} {entry : Nat → Nat → Int} (holds : matrix.Holds count entry)
    {row column : Nat} (rowBound : row < count) (columnBound : column < count) {real : Binary .double} {value : Int}
    (whole : real.IsWhole (entry row column + value)) :
    (matrix.setCell row column real).Holds count fun otherRow otherColumn =>
      entry otherRow otherColumn + single (row, column) value otherRow otherColumn := by
  obtain ⟨rfl, cells⟩ := holds
  refine ⟨rfl, fun otherRow otherRowBound otherColumn otherColumnBound => ?_⟩
  rw [cell_setCell rowBound columnBound otherColumnBound, single]
  split
  next same =>
    cases same
    exact whole
  next =>
    rw [add_zero]
    exact cells otherRow otherRowBound otherColumn otherColumnBound

theorem holds_zero (count : Nat) : (zero count).Holds count fun _ _ => 0 := by
  refine ⟨rfl, fun row _ column _ => ?_⟩
  rw [cell_zero]
  exact Binary.isWhole_zero false

end Matrix

namespace Qubo

def IsCoefficient (given : Value) (value : Int) : Prop := ∃ number : Number, given = .number number ∧ number.IsWhole value

theorem place_eq_ok {size place : Nat} (bound : place < size) : Qubo.place size (.int (place + 1)) = .ok place := by
  have less : (Value.int (place + 1)).sub (.int 1) = .ok (.number (.int ((place : Int) + 1 - 1))) := rfl
  have index : (Value.number (.int (place : Int))).asIndex = .ok (place : Int) := rfl
  rw [Int.add_sub_cancel] at less
  simp only [Qubo.place, less, Outcome.ok_bind, index, itemAt?_natCast, List.getElem?_range bound, Outcome.pure_eq_ok]

theorem store_real (real : Binary .double) :
    (Matrix.real real).store (.real .double) = .ok (Matrix.real real) := rfl

theorem exists_addAt {matrix : Matrix} {count : Nat} {entry : Nat → Nat → Int} (holds : matrix.Holds count entry)
    {place : Nat × Nat} (inside : place.1 < count ∧ place.2 < count) {given : Value} {value : Int}
    (coefficient : IsCoefficient given value) (room : mass count entry + |value| ≤ 2 ^ 53) :
    ∃ next, addAt matrix (.int (place.1 + 1)) (.int (place.2 + 1)) given = .ok next ∧
      next.Holds count fun row column => entry row column + single place value row column := by
  obtain ⟨number, rfl, whole⟩ := coefficient
  have before := abs_le_mass entry inside.1 inside.2
  have after := abs_add_le (entry place.1 place.2) value
  have positive := abs_nonneg (entry place.1 place.2)
  obtain ⟨real, realWhole, _, adds⟩ := whole.exists_real (by omega)
  have sum := (holds.whole place.1 inside.1 place.2 inside.2).add realWhole (by omega)
  refine ⟨_, ?_, holds.setCell inside.1 inside.2 sum⟩
  have added : cellSum (matrix.cell place.1 place.2) (.number number) =
      .ok (Matrix.real ((matrix.cell place.1 place.2).add real)) := adds _
  have size := holds.size_eq
  rw [addAt, place_eq_ok (by rw [size]; exact inside.1), Outcome.ok_bind, place_eq_ok (by rw [size]; exact inside.2),
    Outcome.ok_bind, added, Outcome.ok_bind, store_real, Outcome.ok_bind, Matrix.real, Matrix.realEntry,
    Binary.convert_self]
  rfl

/-- Adding coefficients one after another adds up all that goes into each cell. -/
theorem exists_foldlM_addAt {ι : Type} {step : Matrix → ι → Outcome Matrix} {items : List ι}
    {before terms : List ((Nat × Nat) × Int)} {count : Nat}
    (steps : List.Forall₂ (fun item (term : (Nat × Nat) × Int) => ∃ given, IsCoefficient given term.2 ∧
      ∀ matrix : Matrix, matrix.size = count →
        step matrix item = addAt matrix (.int (term.1.1 + 1)) (.int (term.1.2 + 1)) given) items terms)
    (inside : ∀ term ∈ before ++ terms, term.1.1 < count ∧ term.1.2 < count) {matrix : Matrix}
    (holds : matrix.Holds count (tally before)) (room : weight (before ++ terms) ≤ 2 ^ 53) :
    ∃ next, items.foldlM step matrix = .ok next ∧ next.Holds count (tally (before ++ terms)) := by
  -- `before` lists what the cells hold already: the cells are exact because the whole list has room
  induction steps generalizing matrix before with
  | nil => exact ⟨matrix, rfl, by rwa [List.append_nil]⟩
  | @cons item term items terms first _ ih =>
    obtain ⟨given, coefficient, same⟩ := first
    have beforeInside : ∀ term ∈ before, term.1.1 < count ∧ term.1.2 < count :=
      fun term member => inside term (List.mem_append_left _ member)
    have termInside := inside term (List.mem_append_right _ (List.mem_cons_self ..))
    have split := weight_append before (term :: terms)
    rw [weight_cons] at split
    have rest := weight_nonneg terms
    have grown := mass_tally_le beforeInside
    obtain ⟨next, added, nextHolds⟩ := exists_addAt holds termInside coefficient (by omega)
    rw [← tally_singleton, ← tally_append] at nextHolds
    have assoc : before ++ term :: terms = before ++ [term] ++ terms := by rw [List.append_assoc, List.singleton_append]
    rw [assoc] at inside room
    obtain ⟨last, sums, lastHolds⟩ := ih inside nextHolds room
    refine ⟨last, ?_, ?_⟩
    · rw [List.foldlM_cons, same matrix holds.size_eq, added, Outcome.ok_bind, sums]
    · rwa [assoc]

theorem mergeKeys_eq_ok {pairs : List (Value × Value)} (keys : ∀ pair ∈ pairs, pair.1.isKey = true)
    (differ : pairs.Pairwise fun left right => left.1.sameKey right.1 = false) : mergeKeys pairs = .ok pairs := by
  induction pairs using List.reverseRecOn with
  | nil => rfl
  | append_singleton pairs pair ih =>
    obtain ⟨before, _, apart⟩ := List.pairwise_append.1 differ
    have merged := ih (fun other member => keys other (List.mem_append_left _ member)) before
    have isKey := keys pair (by simp)
    have new : pairs.any (·.1.sameKey pair.1) = false := by
      rw [List.any_eq_false]
      intro known member
      rw [apart known member pair (List.mem_singleton_self _)]
      exact Bool.false_ne_true
    rw [mergeKeys] at merged
    rw [mergeKeys, List.foldlM_append, merged, Outcome.ok_bind, List.foldlM_cons]
    dsimp only
    rw [isKey, new]
    rfl

def Dictionary {κ : Type} (key : κ → Value) (given : List (Value × Value)) (terms : List (κ × Int)) : Prop :=
  List.Forall₂ (fun pair term => pair.1 = key term.1 ∧ IsCoefficient pair.2 term.2) given terms ∧
    (terms.map Prod.fst).Nodup

theorem Dictionary.mergeKeys_eq {κ : Type} {key : κ → Value} (isKey : ∀ index, (key index).isKey = true)
    (apart : ∀ left right, left ≠ right → (key left).sameKey (key right) = false) {given : List (Value × Value)}
    {terms : List (κ × Int)} (dictionary : Dictionary key given terms) : mergeKeys given = .ok given := by
  obtain ⟨pairs, nodup⟩ := dictionary
  have keys : given.map Prod.fst = (terms.map Prod.fst).map key := by
    rw [List.map_map, ← List.forall₂_eq_eq_eq, List.forall₂_map_left_iff, List.forall₂_map_right_iff]
    exact pairs.imp fun _ _ both => both.1
  apply mergeKeys_eq_ok
  · intro pair member
    have listed : pair.1 ∈ (terms.map Prod.fst).map key := by
      rw [← keys]
      exact List.mem_map_of_mem member
    obtain ⟨index, _, same⟩ := List.mem_map.1 listed
    rw [← same, isKey]
  · have distinct : ((terms.map Prod.fst).map key).Pairwise fun left right => left.sameKey right = false :=
      List.pairwise_map.2 (nodup.imp fun differ => apart _ _ differ)
    rw [← keys] at distinct
    exact List.pairwise_map.1 distinct

def pairKey (pair : Int × Int) : Value := .tuple [.int pair.1, .int pair.2]

theorem sameKey_pairKey {left right : Int × Int} (differ : left ≠ right) :
    (pairKey left).sameKey (pairKey right) = false := by
  have items : (pairKey left).sameKey (pairKey right) =
      ((Value.int left.1).sameKey (.int right.1) && ((Value.int left.2).sameKey (.int right.2) && true)) := by
    simp only [pairKey, Value.sameKey, Value.sameKeys]
  rw [items, Value.sameKey_int, Value.sameKey_int, Bool.and_true, Bool.and_eq_false_iff, decide_eq_false_iff_not,
    decide_eq_false_iff_not, ← not_and_or]
  exact fun same => differ (Prod.ext same.1 same.2)

/-- Small integers as the coefficients of variables and of pairs, each variable one of the problem. -/
structure Coefficients (count : Nat) (linear quadratic : List (Value × Value)) (ofVariable : List (Int × Int))
    (ofPair : List ((Int × Int) × Int)) : Prop where
  linear_eq : Dictionary Value.int linear ofVariable
  quadratic_eq : Dictionary pairKey quadratic ofPair
  linear_inside : ∀ term ∈ ofVariable, 1 ≤ term.1 ∧ term.1 ≤ count
  quadratic_inside : ∀ term ∈ ofPair, (1 ≤ term.1.1 ∧ term.1.1 ≤ count) ∧ (1 ≤ term.1.2 ∧ term.1.2 ≤ count)
  room : (ofVariable.map fun term => |term.2|).sum + (ofPair.map fun term => |term.2|).sum ≤ 2 ^ 53

def polynomial (ofVariable : List (Int × Int)) (ofPair : List ((Int × Int) × Int)) (bits : List Nat) : Int :=
  (ofVariable.map fun term => term.2 * (bitAt bits term.1 : Int)).sum +
    (ofPair.map fun term => term.2 * (bitAt bits term.1.1 : Int) * (bitAt bits term.1.2 : Int)).sum

def onDiagonal (term : Int × Int) : (Nat × Nat) × Int := ((term.1.toNat - 1, term.1.toNat - 1), term.2)

/-- The cell of a pair of variables, above the diagonal or on it. -/
def folded (term : (Int × Int) × Int) : (Nat × Nat) × Int :=
  (((min term.1.1 term.1.2).toNat - 1, (max term.1.1 term.1.2).toNat - 1), term.2)

theorem int_succ_place {index : Int} (positive : 1 ≤ index) : Value.int ((index.toNat - 1 : Nat) + 1) = .int index := by
  have same : ((index.toNat - 1 : Nat) : Int) + 1 = index := by omega
  rw [same]

namespace Coefficients

variable {count : Nat} {linear quadratic : List (Value × Value)} {ofVariable : List (Int × Int)}
  {ofPair : List ((Int × Int) × Int)}

theorem inside (coefficients : Coefficients count linear quadratic ofVariable ofPair) :
    ∀ term ∈ ofVariable.map onDiagonal ++ ofPair.map folded, term.1.1 < count ∧ term.1.2 < count := by
  intro term member
  rcases List.mem_append.1 member with member | member
  · obtain ⟨given, givenMember, rfl⟩ := List.mem_map.1 member
    have bounds := coefficients.linear_inside given givenMember
    dsimp only [onDiagonal]
    omega
  · obtain ⟨given, givenMember, rfl⟩ := List.mem_map.1 member
    have bounds := coefficients.quadratic_inside given givenMember
    dsimp only [folded]
    omega

theorem weight_le (coefficients : Coefficients count linear quadratic ofVariable ofPair) :
    weight (ofVariable.map onDiagonal ++ ofPair.map folded) ≤ 2 ^ 53 := by
  rw [weight, List.map_append, List.sum_append, List.map_map, List.map_map]
  exact coefficients.room

theorem linear_steps (coefficients : Coefficients count linear quadratic ofVariable ofPair) :
    List.Forall₂ (fun (pair : Value × Value) (term : (Nat × Nat) × Int) => ∃ given, IsCoefficient given term.2 ∧
      ∀ matrix : Matrix, matrix.size = count → addAt matrix pair.1 pair.1 pair.2 =
        addAt matrix (.int (term.1.1 + 1)) (.int (term.1.2 + 1)) given) linear (ofVariable.map onDiagonal) := by
  rw [List.forall₂_map_right_iff]
  apply List.Forall₂.flip
  apply Outcome.forall₂_imp_of_mem coefficients.linear_eq.1.flip
  rintro term member pair ⟨key, coefficient⟩
  refine ⟨pair.2, coefficient, fun matrix _ => ?_⟩
  dsimp only [onDiagonal]
  rw [key, int_succ_place (coefficients.linear_inside term member).1]

end Coefficients

def addPair (matrix : Matrix) (pair : Value × Value) : Outcome Matrix := do
  match ← pair.1.items with
  | [left, right] =>
    let (row, column) := if ← right.less left then (right, left) else (left, right)
    addAt matrix row column pair.2
  | _ => throw .invalid

theorem ofTerms_eq_foldlM (size : Value) (linear quadratic : List (Value × Value)) :
    ofTerms size linear quadratic = (do
      let linear ← mergeKeys linear
      let quadratic ← mergeKeys quadratic
      let size ← Qubo.sizeOf size
      let diagonal ← linear.foldlM (fun matrix pair => addAt matrix pair.1 pair.1 pair.2) (Matrix.zero size)
      return ⟨← quadratic.foldlM addPair diagonal⟩) := rfl

theorem addPair_int (matrix : Matrix) (pair : Int × Int) (coefficient : Value) :
    addPair matrix (pairKey pair, coefficient) =
      addAt matrix (.int (min pair.1 pair.2)) (.int (max pair.1 pair.2)) coefficient := by
  have items : (pairKey pair).items = .ok [.int pair.1, .int pair.2] := rfl
  rw [addPair, items, Outcome.ok_bind]
  dsimp only
  rw [Value.less_int, Outcome.ok_bind]
  by_cases swapped : pair.2 < pair.1
  · rw [decide_eq_true swapped, if_pos rfl, min_eq_right swapped.le, max_eq_left swapped.le]
  · rw [decide_eq_false swapped, if_neg Bool.false_ne_true, min_eq_left (not_lt.1 swapped),
      max_eq_right (not_lt.1 swapped)]

theorem addPair_eq {matrix : Matrix} {term : (Int × Int) × Int} (positive : 1 ≤ term.1.1 ∧ 1 ≤ term.1.2)
    (coefficient : Value) : addPair matrix (pairKey term.1, coefficient) =
      addAt matrix (.int ((folded term).1.1 + 1)) (.int ((folded term).1.2 + 1)) coefficient := by
  dsimp only [folded]
  rw [addPair_int, int_succ_place (by omega), int_succ_place (by omega)]

theorem sizeOf_eq (size : Int) : Qubo.sizeOf (.int size) =
    if 0 ≤ size ∧ 8 * (size * size) < Value.sizeLimit then .ok size.toNat else .error .invalid := by
  have index : (Value.int size).asIndex = .ok size := rfl
  have read : Qubo.sizeOf (.int size) = (do
      let index ← (Value.int size).asIndex
      if index < 0 ∨ Value.sizeLimit ≤ 8 * (index * index) then throw .invalid else return index.toNat) := rfl
  rw [read, index, Outcome.ok_bind]
  by_cases fits : 0 ≤ size ∧ 8 * (size * size) < Value.sizeLimit
  · rw [if_pos fits, if_neg (by omega)]
    rfl
  · rw [if_neg fits, if_pos (by omega)]
    rfl

theorem sizeOf_int (count : Nat) : Qubo.sizeOf (.int count) =
    if 8 * ((count : Int) * count) < Value.sizeLimit then .ok count else .error .invalid := by
  simp only [sizeOf_eq, Int.natCast_nonneg, true_and, Int.toNat_natCast]

namespace Coefficients

variable {count : Nat} {linear quadratic : List (Value × Value)} {ofVariable : List (Int × Int)}
  {ofPair : List ((Int × Int) × Int)}

theorem quadratic_steps (coefficients : Coefficients count linear quadratic ofVariable ofPair) :
    List.Forall₂ (fun (pair : Value × Value) (term : (Nat × Nat) × Int) => ∃ given, IsCoefficient given term.2 ∧
      ∀ matrix : Matrix, matrix.size = count →
        addPair matrix pair = addAt matrix (.int (term.1.1 + 1)) (.int (term.1.2 + 1)) given)
      quadratic (ofPair.map folded) := by
  rw [List.forall₂_map_right_iff]
  apply List.Forall₂.flip
  apply Outcome.forall₂_imp_of_mem coefficients.quadratic_eq.1.flip
  rintro term member ⟨_, given⟩ ⟨rfl, coefficient⟩
  have bounds := coefficients.quadratic_inside term member
  exact ⟨given, coefficient, fun matrix _ => addPair_eq ⟨bounds.1.1, bounds.2.1⟩ given⟩

/-- The problem of coefficients is made where a matrix of its size can be, and holds what goes into each cell. -/
theorem ofTerms_eq (coefficients : Coefficients count linear quadratic ofVariable ofPair) :
    ∃ qubo : Qubo, qubo.matrix.Holds count (tally (ofVariable.map onDiagonal ++ ofPair.map folded)) ∧
      ofTerms (.int count) linear quadratic =
        if 8 * ((count : Int) * count) < Value.sizeLimit then .ok qubo else .error .invalid := by
  have room := coefficients.weight_le
  have inside := coefficients.inside
  have zero : (Matrix.zero count).Holds count (tally []) := Matrix.holds_zero count
  have linearInside : ∀ term ∈ [] ++ ofVariable.map onDiagonal, term.1.1 < count ∧ term.1.2 < count :=
    fun term member => inside term (List.mem_append_left _ member)
  have linearRoom : weight ([] ++ ofVariable.map onDiagonal) ≤ 2 ^ 53 := by
    have rest := weight_nonneg (ofPair.map folded)
    rw [weight_append] at room
    rw [List.nil_append]
    omega
  obtain ⟨diagonal, linearSums, diagonalHolds⟩ :=
    exists_foldlM_addAt coefficients.linear_steps linearInside zero linearRoom
  obtain ⟨matrix, quadraticSums, matrixHolds⟩ :=
    exists_foldlM_addAt coefficients.quadratic_steps inside diagonalHolds room
  refine ⟨⟨matrix⟩, matrixHolds, ?_⟩
  have linearKeys := coefficients.linear_eq.mergeKeys_eq (fun _ => rfl) fun left right differ => by
    rw [Value.sameKey_int, decide_eq_false differ]
  have quadraticKeys := coefficients.quadratic_eq.mergeKeys_eq (fun _ => rfl) fun left right => sameKey_pairKey
  rw [ofTerms_eq_foldlM, linearKeys, Outcome.ok_bind, quadraticKeys, Outcome.ok_bind, sizeOf_int]
  split
  · rw [Outcome.ok_bind]
    exact Outcome.bind_eq_ok_iff.2 ⟨diagonal, linearSums, Outcome.bind_eq_ok_iff.2 ⟨matrix, quadraticSums, rfl⟩⟩
  · rfl

theorem form_eq (coefficients : Coefficients count linear quadratic ofVariable ofPair) {bits : List Nat}
    (within : bits ∈ Vectors count) :
    form count (tally (ofVariable.map onDiagonal ++ ofPair.map folded)) bits = polynomial ofVariable ofPair bits := by
  have diagonal : ∀ term ∈ ofVariable, (onDiagonal term).2 * bit bits (onDiagonal term).1.1 *
      bit bits (onDiagonal term).1.2 = term.2 * (bitAt bits term.1 : Int) := by
    intro term member
    have bounds := coefficients.linear_inside term member
    dsimp only [onDiagonal]
    -- a bit is its own square
    rw [mul_assoc, bit_mul_self within (by omega)]
    rfl
  have pairs : ∀ term ∈ ofPair, (folded term).2 * bit bits (folded term).1.1 * bit bits (folded term).1.2 =
      term.2 * (bitAt bits term.1.1 : Int) * (bitAt bits term.1.2 : Int) := by
    intro term _
    dsimp only [folded]
    rcases le_total term.1.1 term.1.2 with ordered | ordered
    · rw [min_eq_left ordered, max_eq_right ordered]
      rfl
    · rw [min_eq_right ordered, max_eq_left ordered, mul_right_comm]
      rfl
  rw [form_tally coefficients.inside, List.map_append, List.sum_append, List.map_map, List.map_map, polynomial,
    ← List.map_congr_left diagonal, ← List.map_congr_left pairs]
  rfl

end Coefficients

/-- The energy of a vector of zeros and ones is a quadratic form. A matrix of integers, in whatever form it is given,
    makes the problem of its form; coefficients of variables and of pairs make, as long as their matrix can be, the
    problem of their sum over the variables and the pairs that are one. The entries together stay below two to the
    precision of a real, so that no sum is rounded. -/
theorem energy_eq_form {count : Nat} {bits : List Nat} (within : bits ∈ Vectors count) {configuration : Value}
    (lists : configuration.Lists (bits.map fun (bit : Nat) => .int bit)) :
    (∀ (entry : Nat → Nat → Int) (given : Value), Given count entry given → mass count entry ≤ 2 ^ 53 →
      ∃ qubo, make given = .ok qubo ∧ qubo.HasEnergy configuration (form count entry bits)) ∧
    (∀ linear quadratic ofVariable ofPair, Coefficients count linear quadratic ofVariable ofPair →
      ((∃ qubo, ofTerms (.int count) linear quadratic = .ok qubo) ↔ 8 * ((count : Int) * count) < Value.sizeLimit) ∧
      ∀ qubo, ofTerms (.int count) linear quadratic = .ok qubo →
        qubo.HasEnergy configuration (polynomial ofVariable ofPair bits)) := by
  constructor
  · intro entry given isGiven room
    obtain ⟨qubo, made, holds⟩ := isGiven.exists_qubo room
    exact ⟨qubo, made, hasEnergy_form holds room within lists⟩
  · intro linear quadratic ofVariable ofPair coefficients
    obtain ⟨qubo, holds, made⟩ := coefficients.ofTerms_eq
    have room := (mass_tally_le coefficients.inside).trans coefficients.weight_le
    have energy := hasEnergy_form holds room within lists
    rw [coefficients.form_eq within] at energy
    rw [made]
    by_cases fits : 8 * ((count : Int) * count) < Value.sizeLimit
    · rw [if_pos fits]
      refine ⟨⟨fun _ => fits, fun _ => ⟨qubo, rfl⟩⟩, fun other same => ?_⟩
      cases same
      exact energy
    · rw [if_neg fits]
      refine ⟨⟨?_, fun small => absurd small fits⟩, ?_⟩
      · rintro ⟨other, same⟩
        cases same
      · intro other same
        cases same

theorem energy_eq_form_pair :
    (∃ qubo, make (.list [.list [.int 1, .int (-3)], .tuple [.int 5, .int 2]]) = .ok qubo ∧
      qubo.HasEnergy (.list [.int 1, .int 1]) 5) ∧
    ∃ qubo, ofTerms (.int 2) [(.int 1, .int 4)]
      [(pairKey (2, 1), .int 3), (pairKey (1, 2), .int (-1)), (pairKey (2, 2), .int 2)] = .ok qubo ∧
      qubo.HasEnergy (.list [.int 1, .int 1]) 8 := by
  have within : [1, 1] ∈ Vectors 2 := ⟨rfl, by decide⟩
  have lists : (Value.list [.int 1, .int 1]).Lists ([1, 1].map fun (bit : Nat) => .int bit) := .list _
  obtain ⟨ofMatrix, ofCoefficients⟩ := energy_eq_form within lists
  have whole : ∀ value : Int, Number.IsWhole (.int value) value := fun value => .integer rfl
  constructor
  · have given : Given 2 (fun row column => ([1, -3, 5, 2].getD (2 * row + column) 0 : Int))
        (.list [.list [.int 1, .int (-3)], .tuple [.int 5, .int 2]]) :=
      .rows (by decide) (.list _) (.cons ⟨[.int 1, .int (-3)], .list _, .cons (whole _) (.cons (whole _) .nil)⟩
        (.cons ⟨[.int 5, .int 2], .tuple _, .cons (whole _) (.cons (whole _) .nil)⟩ .nil))
    exact ofMatrix _ _ given (by decide)
  · have coefficients : Coefficients 2 [(.int 1, .int 4)]
        [(pairKey (2, 1), .int 3), (pairKey (1, 2), .int (-1)), (pairKey (2, 2), .int 2)] [(1, 4)]
        [((2, 1), 3), ((1, 2), -1), ((2, 2), 2)] := by
      refine ⟨⟨.cons ⟨rfl, _, rfl, whole _⟩ .nil, by decide⟩, ⟨.cons ⟨rfl, _, rfl, whole _⟩ (.cons ⟨rfl, _, rfl, whole _⟩
        (.cons ⟨rfl, _, rfl, whole _⟩ .nil)), by decide⟩, by decide, by decide, by decide⟩
    obtain ⟨made_iff, energies⟩ := ofCoefficients _ _ _ _ coefficients
    obtain ⟨qubo, made⟩ := made_iff.2 (by decide)
    exact ⟨qubo, made, energies qubo made⟩

end Qubo

end EnergyTables
