import EnergyTables.Family.Selection
import EnergyTables.Proofs.Evaluation.Configurations
import EnergyTables.Proofs.Selection.Weights

namespace EnergyTables

open Flavor

namespace Selection

def Vectors (count : Nat) : Set (List Nat) := {bits | bits.length = count ∧ ∀ bit ∈ bits, bit ≤ 1}

theorem exists_cons_of_mem_vectors {bits : List Nat} {count : Nat} (within : bits ∈ Vectors (count + 1)) :
    ∃ bit rest, bits = bit :: rest ∧ bit ≤ 1 ∧ rest ∈ Vectors count := by
  cases bits with
  | nil => cases within.1
  | cons bit rest =>
    obtain ⟨first, others⟩ := List.forall_mem_cons.1 within.2
    exact ⟨bit, rest, rfl, first, Nat.succ.inj within.1, others⟩

theorem replicate_mem_vectors (count : Nat) {bit : Nat} (small : bit ≤ 1) :
    List.replicate count bit ∈ Vectors count := by
  refine ⟨List.length_replicate, fun other member => ?_⟩
  rwa [List.eq_of_mem_replicate member]

theorem mem_choices {bits : List Nat} {count : Nat} (within : bits ∈ Vectors count) : bits ∈ Choices 2 count :=
  ⟨within.1, fun bit member => Nat.lt_succ_of_le (within.2 bit member)⟩

theorem ofPosition_flavors {position : Nat} (among : 1 ≤ position ∧ position ≤ 2) :
    ofPosition flavors position = .int ((position : Int) - 1) := ofPosition_flavorsOf among

theorem isZero_ofPosition {position : Nat} (among : 1 ≤ position ∧ position ≤ 2) :
    isZero (ofPosition flavors position) = .ok (decide (position = 0 + 1)) := by
  rw [ofPosition_flavors among, isZero, Value.equal_int]
  exact congrArg Except.ok (decide_eq_decide.2 (by omega))

theorem isOne_ofPosition {position : Nat} (among : 1 ≤ position ∧ position ≤ 2) :
    isOne (ofPosition flavors position) = .ok (decide (position = 1 + 1)) := by
  rw [ofPosition_flavors among, isOne, Value.equal_int]
  exact congrArg Except.ok (decide_eq_decide.2 (by omega))

theorem all_eq_ok {test : Value → Outcome Bool} {bit : Nat}
    (tests : ∀ {position}, 1 ≤ position ∧ position ≤ 2 →
      test (ofPosition flavors position) = .ok (decide (position = bit + 1)))
    {positions : List Nat} (within : ∀ position ∈ positions, 1 ≤ position ∧ position ≤ 2) :
    all test (positions.map (ofPosition flavors)) = .ok (positions.all (· = bit + 1)) := by
  induction positions with
  | nil => rfl
  | cons position positions ih =>
    obtain ⟨first, rest⟩ := List.forall_mem_cons.1 within
    rw [List.map_cons, all, tests first, Outcome.ok_bind, ih rest, List.all_cons]
    by_cases same : position = bit + 1
    · rw [decide_eq_true same, if_pos rfl, Bool.true_and]
    · rw [decide_eq_false same, if_neg Bool.false_ne_true, Bool.false_and]
      rfl

theorem checkArity_list {scope : List Int} {items : List Value} (lengths : items.length = scope.length) :
    Constraint.checkArity scope (.list items) = .ok () := by
  rw [Constraint.checkArity, (Value.Lists.list items).length_eq, Outcome.ok_bind, if_neg (not_not_intro lengths)]
  rfl

def Forbids (bit : Nat) (rule : List Int → Value → Outcome Bool) : Prop :=
  ∀ scope, ∀ positions ∈ Positions 2 scope.length,
    rule scope (.list (positions.map (ofPosition flavors))) = .ok (!positions.all (· = bit + 1))

theorem forbids_someSelected : Forbids 0 someSelected := by
  intro scope positions within
  rw [someSelected, checkArity_list (by rw [List.length_map, within.1]), Outcome.ok_bind,
    (Value.Lists.list _).items_eq, Outcome.ok_bind, all_eq_ok isZero_ofPosition within.2]
  rfl

theorem forbids_someUnselected : Forbids 1 someUnselected := by
  intro scope positions within
  rw [someUnselected, checkArity_list (by rw [List.length_map, within.1]), Outcome.ok_bind,
    (Value.Lists.list _).items_eq, Outcome.ok_bind, all_eq_ok isOne_ofPosition within.2]
  rfl

section Prices

open Weights

variable {format : IntFormat} {weight : Value} {number : Int}

theorem holds_bit (format : IntFormat) {bit : Nat} (small : bit ≤ 1) : format.Holds bit := by
  obtain rfl | rfl : bit = 0 ∨ bit = 1 := by omega
  · cases format <;> decide
  · cases format <;> decide

theorem holds_mul_bit (held : format.Holds number) {bit : Nat} (small : bit ≤ 1) : format.Holds (number * bit) := by
  obtain rfl | rfl : bit = 0 ∨ bit = 1 := by omega
  · rw [Nat.cast_zero, mul_zero]
    exact holds_bit format small
  · rw [Nat.cast_one, mul_one]
    exact held

theorem convert_word (word : Word format) : (Kind.stored (.word format)).convert (.number (.word format word)) =
    .ok (.number (.ofWord format word.val)) := rfl

theorem mul_word_bit (word : Word format) {bit : Nat} (small : bit ≤ 1) :
    (Value.number (.word format word)).mul (.int bit) = .ok (.number (.ofWord format (word.val * bit))) := by
  have bitHeld : (Number.int bit).inWord format = .ok bit := if_pos (holds_bit format small)
  have product : (Number.word format word).combine .mul (.int bit) = .ok (.ofWord format (word.val * bit)) := by
    show (do return Number.ofWord format (Operation.mul.onInts word.val (← Number.inWord format (.int bit)))) = _
    rw [bitHeld]
    rfl
  show (do return Value.number (← (Number.word format word).combine .mul (.int bit))) = _
  rw [product]
  rfl

theorem exists_mul_bit (weighs : Weighs format weight number) (held : format.Holds number) {bit : Nat}
    (small : bit ≤ 1) : ∃ value, weight.mul (.int bit) = .ok value ∧
      (Kind.stored (.word format)).convert value = .ok (.number (.ofWord format (number * bit))) := by
  have fits := holds_mul_bit held small
  cases weighs with
  | int => exact ⟨.int (number * bit), rfl, Kind.convert_int fits⟩
  | word word =>
    refine ⟨.number (.ofWord format (word.val * bit)), mul_word_bit word small, ?_⟩
    rw [Number.ofWord, convert_word, Word.val_wrap_of_holds fits]
    rfl

theorem exists_neg (weighs : Weighs format weight number) (held : format.Holds (-number)) :
    ∃ negated, weight.neg = .ok negated ∧ Weighs format negated (-number) := by
  cases weighs with
  | int => exact ⟨_, rfl, .int _⟩
  | word word =>
    refine ⟨.number (.ofWord format (-word.val)), rfl, ?_⟩
    have same : (Word.wrap format (-word.val)).val = -word.val := Word.val_wrap_of_holds held
    have weighs := Weighs.word (Word.wrap format (-word.val))
    rwa [same] at weighs

end Prices

/-- A soft rule whose energy is the weight, with a sign, as often as the item is selected. -/
structure Prices (format : IntFormat) (sign : Int) (energy : List Int → Value → Value → Outcome Value) : Prop where
  stored : ∀ {scope : List Int} {weight : Value} {number : Int} {position : Nat}, scope.length = 1 →
    Weights.Weighs format weight number → format.Holds number → format.Holds (-number) →
    1 ≤ position ∧ position ≤ 2 → ∃ value, energy scope weight (.list [ofPosition flavors position]) = .ok value ∧
      (Kind.stored (.word format)).convert value =
        .ok (.number (.ofWord format (sign * number * ((position : Int) - 1))))
  exact : ∀ {scope : List Int} {position : Nat}, scope.length = 1 → ∀ number : Int, 1 ≤ position ∧ position ≤ 2 →
    energy scope (.int number) (.list [ofPosition flavors position]) =
      .ok (.int (sign * number * ((position : Int) - 1)))

theorem ofPosition_bit {position : Nat} (among : 1 ≤ position ∧ position ≤ 2) :
    ofPosition flavors position = .int (position - 1 : Nat) := by
  rw [ofPosition_flavors among, Nat.cast_sub among.1, Nat.cast_one]

theorem cost_eq {scope : List Int} (single : scope.length = 1) (weight : Value) {position : Nat}
    (among : 1 ≤ position ∧ position ≤ 2) :
    cost scope weight (.list [ofPosition flavors position]) = weight.mul (.int (position - 1 : Nat)) := by
  have first : (Value.list [ofPosition flavors position]).itemAt 0 = .ok (ofPosition flavors position) := rfl
  rw [cost, checkArity_list (by rw [single]; rfl), Outcome.ok_bind, first, Outcome.ok_bind, ofPosition_bit among]

theorem gain_eq {scope : List Int} (single : scope.length = 1) {weight negated : Value}
    (negates : weight.neg = .ok negated) {position : Nat} (among : 1 ≤ position ∧ position ≤ 2) :
    gain scope weight (.list [ofPosition flavors position]) = negated.mul (.int (position - 1 : Nat)) := by
  have first : (Value.list [ofPosition flavors position]).itemAt 0 = .ok (ofPosition flavors position) := rfl
  rw [gain, checkArity_list (by rw [single]; rfl), Outcome.ok_bind, negates, Outcome.ok_bind, first, Outcome.ok_bind,
    ofPosition_bit among]

theorem mul_int (left right : Int) : (Value.int left).mul (.int right) = .ok (.int (left * right)) := rfl

theorem prices_cost (format : IntFormat) : Prices format 1 cost where
  stored := by
    intro scope weight number position single weighs held _ among
    rcases exists_mul_bit weighs held (by omega : position - 1 ≤ 1) with ⟨value, product, converts⟩
    refine ⟨value, (cost_eq single weight among).trans product, ?_⟩
    rw [converts, Nat.cast_sub among.1, one_mul, Nat.cast_one]
  exact := by
    intro scope position single number among
    rw [cost_eq single _ among, mul_int, Nat.cast_sub among.1, one_mul, Nat.cast_one]

theorem prices_gain (format : IntFormat) : Prices format (-1) gain where
  stored := by
    intro scope weight number position single weighs _ heldNeg among
    rcases exists_neg weighs heldNeg with ⟨negated, negates, weighs⟩
    rcases exists_mul_bit weighs heldNeg (by omega : position - 1 ≤ 1) with ⟨value, product, converts⟩
    refine ⟨value, (gain_eq single negates among).trans product, ?_⟩
    rw [converts, Nat.cast_sub among.1, neg_one_mul, Nat.cast_one]
  exact := by
    intro scope position single number among
    have negates : (Value.int number).neg = .ok (.int (-number)) := rfl
    rw [gain_eq single negates among, mul_int, Nat.cast_sub among.1, neg_one_mul, Nat.cast_one]

end Selection

end EnergyTables
