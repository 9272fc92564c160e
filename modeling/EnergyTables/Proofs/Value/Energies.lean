import EnergyTables.Proofs.Value.Comparison
import EnergyTables.Sentinel
import EnergyTables.Term
import Mathlib.Algebra.Order.Ring.Abs

namespace EnergyTables

namespace IntFormat

theorem holds_of_abs_le {format : IntFormat} (signed : format.signed = true) {value : Int}
    (bound : |value| ≤ format.greatest) : format.Holds value := by
  have least : format.least = -format.greatest - 1 := by
    cases format with
    | int8 | int16 | int32 | int64 => decide
    | uint8 | uint16 | uint32 | uint64 => cases signed
  have bounds := abs_le.1 bound
  exact ⟨by omega, bounds.2⟩

theorem holds_zero (format : IntFormat) : format.Holds 0 := by cases format <;> decide

theorem holds_sentinel (format : IntFormat) : format.Holds format.sentinel := by
  have square := format.sentinel_mul_self_le
  have least : format.least ≤ 0 := format.holds_zero.1
  have nonneg := format.sentinel_nonneg
  have below : format.sentinel ≤ format.sentinel * format.sentinel := by
    rcases nonneg.eq_or_lt with none | positive
    · rw [← none, mul_zero]
    · exact le_mul_of_one_le_left nonneg positive
  exact ⟨by omega, by omega⟩

end IntFormat

namespace Number

inductive IsReal : Number → Prop
  | int (value : Int) : IsReal (.int value)
  | fraction (value : Rat) : IsReal (.fraction value)
  | quotient {format : IntFormat} (value : WordRatio format) : IsReal (.quotient format value)
  | float (value : Binary .double) : IsReal (.float value)

theorem IsReal.storage?_eq {number : Number} (real : number.IsReal) : number.storage? = none := by
  cases real <;> rfl

theorem IsReal.kind_ne {number : Number} (real : number.IsReal) : number.kind ≠ .complex := by
  cases real <;> simp [kind]

theorem combine_eq_combinePlain (operation : Operation) {left right : Number} (leftPlain : left.storage? = none)
    (rightPlain : right.storage? = none) : combine operation left right = combinePlain operation left right := by
  unfold combine
  split
  case h_5 => simp only [leftPlain, rightPlain, Option.isSome_none, Bool.false_eq_true, or_self, if_false]
  all_goals cases rightPlain

theorem combine_float_left (operation : Operation) (value : Binary .double) {other : Number} (real : other.IsReal) :
    combine operation (.float value) other =
      (do return .float (operation.onReals value (← other.floatPart))) := by
  have notComplex : ¬ (kind (.float value) = .complex ∨ other.kind = .complex) := by simpa [kind] using real.kind_ne
  have whole : wholePart? (.float value) = none := rfl
  have rational : rationalPart? (.float value) = none := rfl
  have ratio : ratio? (.float value) = none := rfl
  have decimal : decimalPart? (.float value) = none := rfl
  rw [combine_eq_combinePlain operation rfl real.storage?_eq]
  simp only [combinePlain, whole, rational, ratio, decimal, if_neg notComplex]
  rw [floatPart.eq_5, Outcome.ok_bind]

theorem combine_float_right (operation : Operation) (value : Binary .double) {other : Number} (real : other.IsReal) :
    combine operation other (.float value) =
      (do return .float (operation.onReals (← other.floatPart) value)) := by
  have notComplex : ¬ (other.kind = .complex ∨ kind (.float value) = .complex) := by simpa [kind] using real.kind_ne
  have whole : wholePart? (.float value) = none := rfl
  have rational : rationalPart? (.float value) = none := rfl
  have ratio : ratio? (.float value) = none := rfl
  have decimal : decimalPart? (.float value) = none := rfl
  rw [combine_eq_combinePlain operation real.storage?_eq rfl]
  simp only [combinePlain, whole, rational, ratio, decimal, if_neg notComplex]
  rw [floatPart.eq_5]
  cases other.wholePart? <;> cases other.rationalPart? <;> cases other.ratio? <;> cases other.decimalPart? <;> rfl

/-- Fractions: rationals, and ratios over a word. -/
inductive IsFractional : Number → Prop
  | fraction (value : Rat) : IsFractional (.fraction value)
  | quotient {format : IntFormat} (value : WordRatio format) : IsFractional (.quotient format value)

theorem IsFractional.isReal {number : Number} (fractional : number.IsFractional) : number.IsReal := by
  cases fractional with
  | fraction value => exact .fraction value
  | quotient value => exact .quotient value

theorem isFractional_toNumber {ratio : Ratio} {number : Number} (found : ratio.toNumber = .ok number) :
    number.IsFractional := by
  unfold Ratio.toNumber at found
  repeat' split at found
  all_goals cases found
  · exact .quotient _
  · exact .fraction _

theorem isFractional_combine {operation : Operation} {left right result : Number} (leftFractional : left.IsFractional)
    (rightFractional : right.IsFractional) (found : combine operation left right = .ok result) :
    result.IsFractional := by
  rw [combine_eq_combinePlain operation leftFractional.isReal.storage?_eq rightFractional.isReal.storage?_eq] at found
  cases leftFractional with
  | fraction => cases rightFractional with
    | fraction =>
      cases found
      exact .fraction _
    | quotient =>
      obtain ⟨ratio, _, found⟩ := Outcome.bind_eq_ok_iff.1 found
      exact isFractional_toNumber found
  | quotient => cases rightFractional with
    | fraction =>
      obtain ⟨ratio, _, found⟩ := Outcome.bind_eq_ok_iff.1 found
      exact isFractional_toNumber found
    | quotient =>
      obtain ⟨ratio, _, found⟩ := Outcome.bind_eq_ok_iff.1 found
      exact isFractional_toNumber found

theorem ofWord_val {format : IntFormat} (word : Word format) : ofWord format word.val = .word format word := by
  rw [ofWord, Word.wrap_val]

theorem isFinite_of_finiteReal {value part : Binary .double} (found : finiteReal value = .ok part) :
    part.isFinite = true := by
  rw [finiteReal] at found
  split at found
  · cases found; assumption
  · cases found

theorem floatPart_zero : floatPart (.int 0) = .ok (.zero .double) ∧ floatPart (.fraction 0) = .ok (.zero .double) := by
  have int : Binary.ofInt .double 0 = .zero .double := by decide +kernel
  have rational : Binary.ofRat .double 0 = .zero .double := by decide +kernel
  constructor
  · rw [floatPart, finiteReal, int, if_pos (by decide +kernel)]
  · rw [floatPart, finiteReal, rational, if_pos (by decide +kernel)]

end Number

namespace Binary

theorem infinite_add {format : BinaryFormat} (negative : Bool) {value : Binary format}
    (finite : value.isFinite = true) :
    add (.infinite negative) value = .infinite negative := by
  cases value with
  | nan => cases finite
  | infinite => cases finite
  | finite => rfl

theorem add_infinite {format : BinaryFormat} (negative : Bool) {value : Binary format}
    (finite : value.isFinite = true) :
    add value (.infinite negative) = .infinite negative := by
  cases value with
  | nan => cases finite
  | infinite => cases finite
  | finite => rfl

end Binary

namespace Value

open Number

theorem add_number (left right : Number) :
    (number left).add (.number right) = (do return .number (← left.combine .add right)) := rfl

theorem add_word {format : IntFormat} (left right : Word format) :
    (number (.word format left)).add (.number (.word format right)) =
      .ok (.number (.ofWord format (left.val + right.val))) := by
  rw [add_number, combine_word]
  rfl

theorem add_ofWord (format : IntFormat) (left right : Int) :
    (number (.ofWord format left)).add (.number (.ofWord format right)) =
      .ok (.number (.ofWord format (left + right))) := by
  refine (add_word _ _).trans ?_
  rw [ofWord, Word.wrap_add_wrap, ofWord]

theorem add_word_zero {format : IntFormat} (word : Word format) :
    (number (.word format word)).add (.number (.ofWord format 0)) = .ok (.number (.word format word)) := by
  have same := add_ofWord format word.val 0
  rw [add_zero, Number.ofWord_val] at same
  exact same

theorem int_zero_add_word {format : IntFormat} (word : Word format) :
    (int 0).add (.number (.word format word)) = .ok (.number (.ofWord format (0 + word.val))) := by
  have zero : (Number.int 0).inWord format = .ok 0 := if_pos format.holds_zero
  have sum : (Number.int 0).combine .add (.word format word) = .ok (.ofWord format (0 + word.val)) := by
    show (do return Number.ofWord format (Operation.add.onInts (← Number.inWord format (.int 0)) word.val)) = _
    rw [zero]
    rfl
  rw [int, add_number, sum]
  rfl

theorem add_fraction (left right : Rat) : (fraction left).add (fraction right) = .ok (fraction (left + right)) := rfl

theorem isFinite_of_floatPart {number : Number} (fractional : number.IsFractional) {part : Binary .double}
    (found : number.floatPart = .ok part) : part.isFinite = true := by
  cases fractional with
  | fraction => exact isFinite_of_finiteReal found
  | quotient => exact isFinite_of_finiteReal found

theorem top_add {number : Number} (fractional : number.IsFractional) :
    (Value.number (.ofExtended ⊤)).add (.number number) =
      (do let _ ← number.floatPart; return .number (.ofExtended ⊤)) := by
  rw [ofExtended_top, add_number, combine_float_left .add _ fractional.isReal]
  cases found : number.floatPart with
  | error fault => rfl
  | ok part =>
    simp only [Outcome.ok_bind, Outcome.pure_eq_ok, Operation.onReals,
      Binary.infinite_add false (isFinite_of_floatPart fractional found)]

theorem add_top {number : Number} (fractional : number.IsFractional) :
    (Value.number number).add (.number (.ofExtended ⊤)) =
      (do let _ ← number.floatPart; return .number (.ofExtended ⊤)) := by
  rw [ofExtended_top, add_number, combine_float_right .add _ fractional.isReal]
  cases found : number.floatPart with
  | error fault => rfl
  | ok part =>
    simp only [Outcome.ok_bind, Outcome.pure_eq_ok, Operation.onReals,
      Binary.add_infinite false (isFinite_of_floatPart fractional found)]

theorem top_add_fraction (rational : Rat) :
    (number (.ofExtended ⊤)).add (fraction rational) =
      (do let _ ← floatPart (.fraction rational); return .number (.ofExtended ⊤)) := top_add (.fraction rational)

theorem fraction_add_top (rational : Rat) :
    (fraction rational).add (.number (.ofExtended ⊤)) =
      (do let _ ← floatPart (.fraction rational); return .number (.ofExtended ⊤)) := add_top (.fraction rational)

theorem top_add_top : (number (.ofExtended ⊤)).add (.number (.ofExtended ⊤)) = .ok (.number (.ofExtended ⊤)) := rfl

theorem add_extended {left right : WithTop Rat} {sum : Value}
    (found : (number (.ofExtended left)).add (.number (.ofExtended right)) = .ok sum) :
    sum = .number (.ofExtended (left + right)) := by
  cases left with
  | top => cases right with
    | top => cases found; rfl
    | coe right =>
      obtain ⟨_, _, rest⟩ := Outcome.bind_eq_ok_iff.1 ((top_add_fraction right).symm.trans found)
      cases rest
      rfl
  | coe left => cases right with
    | top =>
      obtain ⟨_, _, rest⟩ := Outcome.bind_eq_ok_iff.1 ((fraction_add_top left).symm.trans found)
      cases rest
      rfl
    | coe right => cases found; rfl

theorem extended_add_zero (energy : WithTop Rat) :
    (number (.ofExtended energy)).add (fraction 0) = .ok (.number (.ofExtended energy)) := by
  cases energy with
  | top => rw [top_add_fraction, floatPart_zero.2]; rfl
  | coe rational =>
    refine (add_fraction rational 0).trans ?_
    rw [add_zero]
    rfl

theorem int_zero_add (energy : WithTop Rat) :
    (int 0).add (.number (.ofExtended energy)) = (fraction 0).add (.number (.ofExtended energy)) := by
  cases energy with
  | top =>
    rw [fraction_add_top, floatPart_zero.2, ofExtended_top, int, add_number, combine_float_right .add _ (.int 0),
      floatPart_zero.1]
    rfl
  | coe rational => rfl

end Value

namespace Kind

/-- The kinds of energies that lose no digit: words, modulo two to their width, and fractions. -/
inductive IsExact : Kind → Prop
  | word (format : IntFormat) : IsExact (.stored (.word format))
  | fraction : IsExact .fraction

inductive Holds : Kind → Value → Prop
  | word {format : IntFormat} (word : Word format) : Holds (.stored (.word format)) (.number (.word format word))
  | fractional {number : Number} (fractional : number.IsFractional) : Holds .fraction (.number number)
  | infinite : Holds .fraction (.number (.ofExtended ⊤))

theorem holds_extended (energy : WithTop Rat) : Holds .fraction (.number (.ofExtended energy)) := by
  cases energy with
  | top => exact .infinite
  | coe rational => exact .fractional (.fraction rational)

theorem zero_eq_convert (kind : Kind) : kind.zero = kind.convert (.int 0) := by
  unfold zero
  split
  · rfl
  · rfl

theorem zero_word (format : IntFormat) : (stored (.word format)).zero = .ok (.number (.ofWord format 0)) := by
  cases format <;> rfl

theorem zero_fraction : fraction.zero = .ok (.number (.ofExtended 0)) := rfl

theorem sentinel_word (format : IntFormat) :
    (stored (.word format)).sentinel = .ok (.number (.ofWord format format.sentinel)) := rfl

theorem sentinel_fraction : fraction.sentinel = .ok (.number (.ofExtended ⊤)) := rfl

theorem IsExact.holds_sentinel {kind : Kind} (exact : kind.IsExact) {sentinel : Value}
    (isSentinel : kind.sentinel = .ok sentinel) : kind.Holds sentinel := by
  cases exact with
  | word format =>
    cases (sentinel_word format).symm.trans isSentinel
    exact .word _
  | fraction =>
    cases sentinel_fraction.symm.trans isSentinel
    exact .infinite

theorem Holds.add {kind : Kind} {left right sum : Value} (leftHeld : kind.Holds left) (rightHeld : kind.Holds right)
    (found : left.add right = .ok sum) : kind.Holds sum := by
  cases leftHeld with
  | word left =>
    cases rightHeld with
    | word right =>
      cases (Value.add_word left right).symm.trans found
      exact .word _
  | fractional left => cases rightHeld with
    | fractional right =>
      obtain ⟨result, combined, rfl⟩ := Outcome.map_eq_ok_iff.1 found
      exact .fractional (Number.isFractional_combine left right combined)
    | infinite =>
      obtain ⟨_, _, ⟨⟩⟩ := Outcome.bind_eq_ok_iff.1 ((Value.add_top left).symm.trans found)
      exact .infinite
  | infinite => cases rightHeld with
    | fractional right =>
      obtain ⟨_, _, ⟨⟩⟩ := Outcome.bind_eq_ok_iff.1 ((Value.top_add right).symm.trans found)
      exact .infinite
    | infinite =>
      cases found
      exact .infinite

/-- Beside an energy of fractions the integer zero acts as the fraction zero does. -/
theorem Holds.int_zero_add {energy : Value} (held : fraction.Holds energy) :
    (Value.int 0).add energy = (Value.fraction 0).add energy := by
  cases held with
  | fractional fractional => cases fractional <;> rfl
  | infinite => exact Value.int_zero_add ⊤

theorem Holds.exists_add {format : IntFormat} {left right : Value} (leftHeld : (stored (.word format)).Holds left)
    (rightHeld : (stored (.word format)).Holds right) : ∃ sum, left.add right = .ok sum := by
  cases leftHeld with
  | word left =>
    cases rightHeld with
    | word right => exact ⟨_, Value.add_word left right⟩

theorem holds_cast (format : IntFormat) (number : Number) :
    (stored (.word format)).Holds (.number (number.cast (.word format))) := by
  rw [Number.cast]
  split
  · exact .word _
  · exact .word _

theorem holds_store_plain {format : IntFormat} {value energy : Value}
    (found : Value.store.plain (.word format) value = .ok energy) : (stored (.word format)).Holds energy := by
  obtain ⟨whole, _, rest⟩ := Outcome.bind_eq_ok_iff.1 found
  split at rest
  · cases rest; exact .word _
  · cases rest

theorem holds_convert_word {format : IntFormat} {value energy : Value} (single : value.isSequence = false)
    (found : (stored (.word format)).convert value = .ok energy) : (stored (.word format)).Holds energy := by
  simp only [convert, single, Bool.false_eq_true, if_false] at found
  cases value with
  | number number =>
    simp only [Value.store] at found
    split at found
    · cases found; exact holds_cast format number
    · exact holds_store_plain found
  | none => exact holds_store_plain found
  | text => exact holds_store_plain found
  | list => cases single
  | tuple => cases single
  | unitWeight => cases single
  | array => cases single

theorem exists_fraction_of_rational {exact : Exact} {number : Number}
    (found : Value.toFraction.rational exact = .ok number) : ∃ rational, number = .fraction rational := by
  unfold Value.toFraction.rational at found
  repeat' split at found
  all_goals cases found
  exact ⟨_, rfl⟩

theorem isFractional_toFraction {value : Value} {number : Number} (found : value.toFraction = .ok number) :
    number.IsFractional := by
  have rational {exact : Exact} (found : Value.toFraction.rational exact = .ok number) : number.IsFractional := by
    obtain ⟨_, rfl⟩ := exists_fraction_of_rational found
    exact .fraction _
  unfold Value.toFraction at found
  repeat' split at found
  all_goals first
    | exact rational found
    | cases found
  · exact .quotient _
  · exact .quotient _
  · exact .fraction _

theorem exists_fraction_of_holdsWord {value : Value} {number : Number} (found : value.toFraction = .ok number)
    (plain : ∀ given, value = .number given → given.holdsWord = false) : ∃ rational, number = .fraction rational := by
  unfold Value.toFraction at found
  repeat' split at found
  all_goals first
    | exact exists_fraction_of_rational found
    | cases found
  · cases plain _ rfl
  · cases plain _ rfl
  · exact ⟨_, rfl⟩

theorem IsExact.holds_cell {kind : Kind} (exact : kind.IsExact) {value converted energy : Value}
    (found : kind.convert value = .ok converted) (kept : Term.cell (Term.storageOf kind) converted = .ok energy) :
    kind.Holds energy := by
  cases exact with
  | fraction =>
    obtain ⟨number, converted, rfl⟩ := Outcome.map_eq_ok_iff.1 found
    cases kept
    exact .fractional (isFractional_toFraction converted)
  | word format =>
    cases single : value.isSequence with
    | false =>
      have held := holds_convert_word single found
      cases held
      cases kept
      exact .word _
    | true =>
      simp only [convert, single, if_true] at found
      obtain ⟨⟨shape, entries⟩, _, rest⟩ := Outcome.bind_eq_ok_iff.1 found
      cases rest
      cases kept

end Kind

end EnergyTables
