import EnergyTables.Proofs.Value.Comparison
import EnergyTables.Value.Sequence
import Mathlib.Data.Rat.Floor

namespace EnergyTables

theorem IntFormat.reduce_neg {format : IntFormat} (unsigned : format.signed = false) {value : Int} (positive : 0 < value)
    (held : format.Holds value) : format.reduce (-value) = format.modulus - value := by
  have least : format.least = 0 := by cases format <;> first | decide | cases unsigned
  simp only [Holds, greatest, least] at held
  have period : (-value) % format.modulus = format.modulus - value := by
    rw [← Int.add_emod_right, Int.emod_eq_of_lt (by omega) (by omega)]
    omega
  rw [reduce, least, Int.sub_zero, period, Int.add_zero]

namespace Number

variable {left right : Number} {first second : Int}

theorem relatePlain_left (relation : Relation) (isFirst : left.integer? = some first) (plain : left.storage? = none) :
    relatePlain relation left right = relatePlain relation (.int first) right := by
  cases left with
  | bool | int => cases isFirst; rfl
  | flag | word => cases plain
  | _ => cases isFirst

theorem relatePlain_right (relation : Relation) (isSecond : right.integer? = some second)
    (plain : right.storage? = none) : relatePlain relation left right = relatePlain relation left (.int second) := by
  cases right with
  | bool | int => cases isSecond; rfl
  | flag | word => cases plain
  | _ => cases isSecond

/-- Integers compare exactly, whatever their types. -/
theorem relate_integers (relation : Relation) (isFirst : left.integer? = some first)
    (isSecond : right.integer? = some second) : left.relate relation right = .ok (relation.between first second) := by
  have whole : relation.onInts first second = relation.between first second := by cases relation <;> rfl
  by_cases stored : left.storage?.isSome ∨ right.storage?.isSome
  · simp only [relate, stored, if_true, relateStored, isFirst, isSecond, whole]
  · have plain : left.storage? = none ∧ right.storage? = none := by simpa using stored
    rw [relate, if_neg stored, relatePlain_left relation isFirst plain.1, relatePlain_right relation isSecond plain.2]
    exact comparable_int relation first second

def hasSign : Number → Bool
  | .word format _ => format.signed
  | _ => true

theorem exactRe_of_integer (isFirst : left.integer? = some first) : left.exactRe = .ofInt first := by
  cases left with
  | bool | flag | int | word => cases isFirst; rfl
  | _ => cases isFirst

end Number

namespace Value

def IsInteger (value : Value) (whole : Int) : Prop := ∃ number, value = .number number ∧ number.integer? = some whole

variable {value : Value} {whole : Int}

theorem isInteger_int (whole : Int) : (int whole).IsInteger whole := ⟨_, rfl, rfl⟩

theorem IsInteger.equal_eq_ok {other : Value} {bound : Int} (integer : value.IsInteger whole)
    (integerToo : other.IsInteger bound) : value.equal other = .ok (decide (whole = bound)) := by
  obtain ⟨number, rfl, isWhole⟩ := integer
  obtain ⟨second, rfl, isBound⟩ := integerToo
  exact Number.relate_integers .equal isWhole isBound

theorem IsInteger.lessEqual_eq_ok {other : Value} {bound : Int} (integer : value.IsInteger whole)
    (integerToo : other.IsInteger bound) : value.lessEqual other = .ok (decide (whole ≤ bound)) := by
  obtain ⟨number, rfl, isWhole⟩ := integer
  obtain ⟨second, rfl, isBound⟩ := integerToo
  exact Number.relate_integers .lessEqual isWhole isBound

theorem IsInteger.less_eq_ok {other : Value} {bound : Int} (integer : value.IsInteger whole)
    (integerToo : other.IsInteger bound) : value.less other = .ok (decide (whole < bound)) := by
  obtain ⟨number, rfl, isWhole⟩ := integer
  obtain ⟨second, rfl, isBound⟩ := integerToo
  exact Number.relate_integers .less isWhole isBound

theorem IsInteger.between_eq_ok (integer : value.IsInteger whole) (low high : Int) :
    between low value high = .ok (decide (low ≤ whole ∧ whole ≤ high)) := by
  have above := (isInteger_int low).lessEqual_eq_ok integer
  have below := integer.lessEqual_eq_ok (isInteger_int high)
  by_cases reached : low ≤ whole
  · simp [between, above, below, reached]
  · simp [between, above, reached]

theorem exists_sub_one_word {format : IntFormat} (word : Word format) (positive : 1 ≤ word.val) :
    ∃ less, (number (.word format word)).sub (.int 1) = .ok less ∧ less.asIndex = .ok (word.val - 1) := by
  have one : (Number.int 1).inWord format = .ok 1 := if_pos (by cases format <;> decide)
  have held : format.Holds (word.val - 1) := by
    have bounds := word.held
    have least : format.least ≤ 0 := by cases format <;> decide
    simp only [IntFormat.Holds] at bounds ⊢
    omega
  have difference : (Number.word format word).combine .sub (.int 1) = .ok (.ofWord format (word.val - 1)) := by
    show (do return Number.ofWord format (Operation.sub.onInts word.val (← Number.inWord format (.int 1)))) = _
    rw [one]
    rfl
  refine ⟨.number (.ofWord format (word.val - 1)), ?_, congrArg Except.ok (Word.val_wrap_of_holds held)⟩
  show (do return Value.number (← (Number.word format word).combine .sub (.int 1))) = _
  rw [difference]
  rfl

theorem IsInteger.exists_sub_one (integer : value.IsInteger whole) (positive : 1 ≤ whole) :
    ∃ less, value.sub (.int 1) = .ok less ∧ less.asIndex = .ok (whole - 1) := by
  obtain ⟨number, rfl, isWhole⟩ := integer
  cases number with
  | bool truth => cases isWhole; exact ⟨_, rfl, rfl⟩
  | int whole => cases isWhole; exact ⟨_, rfl, rfl⟩
  | flag truth =>
    cases isWhole
    cases truth with
    | true => exact ⟨_, rfl, rfl⟩
    | false => cases positive
  | word format word => cases isWhole; exact exists_sub_one_word word positive
  | _ => cases isWhole

theorem exists_whole_of_unitLength {length : Number} {count : Nat} (counted : unitLength length = .ok count) :
    ∃ whole, length.integer? = some whole ∧ (∀ truth, length ≠ .flag truth) ∧ whole < sizeLimit ∧
      whole.toNat = count := by
  unfold unitLength at counted
  split at counted
  · cases counted
  · rename_i noFlag
    split at counted
    · rename_i whole isWhole
      split at counted
      · exact ⟨whole, isWhole, noFlag, ‹_›, Except.ok.inj counted⟩
      · cases counted
    · cases counted

theorem neg_word_nonpos_iff {format : IntFormat} (word : Word format) (positive : 0 < word.val) :
    format.reduce (-word.val) ≤ 0 ↔ format.signed = true := by
  have bounds := word.held
  cases signed : format.signed with
  | true =>
    have range : format.least + format.greatest = -1 := by cases format <;> first | decide | cases signed
    have held : format.Holds (-word.val) := by
      simp only [IntFormat.Holds] at bounds ⊢
      omega
    rw [format.reduce_of_holds _ held]
    exact ⟨fun _ => rfl, fun _ => by omega⟩
  | false =>
    have least : format.least = 0 := by cases format <;> first | decide | cases signed
    rw [format.reduce_neg signed positive word.held]
    simp only [IntFormat.Holds, IntFormat.greatest, least] at bounds
    simp only [Bool.false_eq_true, iff_false]
    omega

/-- The opposite of a length is an integer, and for a positive length no more than zero where the type has a sign. -/
theorem exists_neg_of_integer {length : Number} {whole : Int} (isWhole : length.integer? = some whole)
    (noFlag : ∀ truth, length ≠ .flag truth) : ∃ opposite low, neg (number length) = .ok opposite ∧
      opposite.IsInteger low ∧ (0 < whole → (low ≤ 0 ↔ length.hasSign = true)) := by
  cases length with
  | bool truth =>
    cases isWhole
    exact ⟨_, _, rfl, isInteger_int _, fun positive => iff_of_true (by omega) rfl⟩
  | int first =>
    cases isWhole
    exact ⟨_, _, rfl, isInteger_int _, fun positive => iff_of_true (by omega) rfl⟩
  | flag truth => exact absurd rfl (noFlag truth)
  | word format word =>
    cases isWhole
    exact ⟨_, _, rfl, ⟨_, rfl, rfl⟩, neg_word_nonpos_iff word⟩
  | _ => cases isWhole

theorem items_unitWeight_of_length {length : Number} {count : Nat} (counted : (unitWeight length).length = .ok count) :
    (unitWeight length).items = .ok (List.replicate (if length.hasSign then count else 0) (int 1)) := by
  obtain ⟨whole, isWhole, noFlag, small, rfl⟩ := exists_whole_of_unitLength counted
  obtain ⟨opposite, low, negated, isLow, sign⟩ := exists_neg_of_integer isWhole noFlag
  have places : unitCount length = .ok (if low ≤ 0 then whole.toNat else 0) := by
    obtain ⟨negative, number, ⟨⟩⟩ := Outcome.bind_eq_ok_iff.1 negated
    have compared : negative.relate .lessEqual (.int 0) = .ok (decide (low ≤ 0)) := isLow.lessEqual_eq_ok (isInteger_int 0)
    rw [unitCount, number, Outcome.ok_bind, compared, Outcome.ok_bind, Number.exactRe_of_integer isWhole]
    by_cases below : low ≤ 0
    · rw [decide_eq_true below, if_pos rfl, if_pos below]
      show Except.ok ((whole : Rat).ceil.toNat) = Except.ok whole.toNat
      rw [Rat.ceil_intCast]
    · rw [decide_eq_false below, if_neg Bool.false_ne_true, if_neg below]
      rfl
  have same : (if low ≤ 0 then whole.toNat else 0) = if length.hasSign then whole.toNat else 0 := by
    rcases Int.lt_or_le 0 whole with positive | none
    · simp only [sign positive]
    · simp [Int.toNat_of_nonpos none]
  have positive : (0 : Int) < sizeLimit := by decide
  have few : ((if length.hasSign then whole.toNat else 0 : Nat) : Int) < sizeLimit := by split <;> omega
  rw [items, places, Outcome.ok_bind, same, if_pos few]
  rfl

theorem exists_items_of_length {value : Value} {count : Nat} (counted : value.length = .ok count) :
    ∃ items, value.items = .ok items := by
  cases value with
  | text characters => exact ⟨_, rfl⟩
  | list items => exact ⟨items, rfl⟩
  | tuple items => exact ⟨items, rfl⟩
  | array storage shape writeable entries =>
    cases shape with
    | nil => cases counted
    | cons size shape => exact ⟨_, rfl⟩
  | unitWeight length => exact ⟨_, items_unitWeight_of_length counted⟩
  | none => cases counted
  | number scalar => cases counted

theorem itemAt_unitWeight_of_length {length : Number} {count : Nat} (counted : (unitWeight length).length = .ok count)
    (sign : length.hasSign = true) {index : Nat} (bound : index < count) :
    (unitWeight length).itemAt index = .ok (int 1) := by
  obtain ⟨whole, isWhole, noFlag, _, rfl⟩ := exists_whole_of_unitLength counted
  obtain ⟨opposite, low, negated, isLow, low_iff⟩ := exists_neg_of_integer isWhole noFlag
  have reached : low ≤ index := by
    have below := (low_iff (by omega)).2 sign
    omega
  have within := (isInteger_int index).less_eq_ok ⟨length, rfl, isWhole⟩
  rw [decide_eq_true (by omega)] at within
  show unitAt length (int index) = .ok (int 1)
  rw [unitAt, negated, Outcome.ok_bind, isLow.lessEqual_eq_ok (isInteger_int index), decide_eq_true reached,
    Outcome.ok_bind, if_pos rfl, within]
  rfl

end Value

end EnergyTables
