import EnergyTables.Proofs.Value.Integers
import EnergyTables.Proofs.Value.WholeReals

namespace EnergyTables

namespace IntFormat

variable {left right format : IntFormat} {formats : List IntFormat} {value : Int}

def Below (left right : IntFormat) : Prop := right.least ≤ left.least ∧ left.greatest ≤ right.greatest

instance (left right : IntFormat) : Decidable (left.Below right) := inferInstanceAs (Decidable (_ ∧ _))

theorem Below.refl (format : IntFormat) : format.Below format := ⟨le_rfl, le_rfl⟩

theorem Below.trans {middle : IntFormat} (below : left.Below middle) (belowToo : middle.Below right) :
    left.Below right :=
  ⟨belowToo.1.trans below.1, below.2.trans belowToo.2⟩

theorem Below.holds (below : left.Below right) (held : left.Holds value) : right.Holds value :=
  ⟨below.1.trans held.1, held.2.trans below.2⟩

theorem join_cases (left right : IntFormat) :
    (∃ format, left.join right = .word format ∧ left.Below format ∧
      (format.signed = true → left.signed = true ∨ right.signed = true) ∧
      (format = .uint64 → left = .uint64 ∨ right = .uint64)) ∨
    left.join right = .real .double ∧
      (left = .uint64 ∧ right.signed = true ∨ left.signed = true ∧ right = .uint64) := by
  cases left <;> cases right <;>
    first
    | exact .inl ⟨_, rfl, by decide, by decide, by decide⟩
    | exact .inr ⟨rfl, by decide⟩

def Mixes (formats : List IntFormat) : Prop := .uint64 ∈ formats ∧ ∃ format ∈ formats, format.signed = true

/-- Each of the formats holds the integer, and so do the reals where their words can meet in those. -/
structure Room (formats : List IntFormat) (value : Int) : Prop where
  held : ∀ format ∈ formats, format.Holds value
  exact : Mixes formats → |value| ≤ 2 ^ 53

theorem room_nil (value : Int) : Room [] value where
  held := fun _ absurd => nomatch absurd
  exact := fun mixes => nomatch mixes.1

theorem room_zero (formats : List IntFormat) : Room formats 0 where
  held := fun format _ => format.holds_zero
  exact := fun _ => by decide

theorem Room.mul_bit (room : Room formats value) {bit : Nat} (small : bit ≤ 1) : Room formats (value * bit) := by
  obtain rfl | rfl : bit = 0 ∨ bit = 1 := by omega
  · rw [Nat.cast_zero, mul_zero]
    exact room_zero formats
  · rwa [Nat.cast_one, mul_one]

structure Spans (formats : List IntFormat) (format : IntFormat) : Prop where
  above : ∃ lower ∈ formats, lower.Below format
  signed : format.signed = true → ∃ other ∈ formats, other.signed = true
  longest : format = .uint64 → .uint64 ∈ formats

theorem spans_of_mem (member : format ∈ formats) : Spans formats format where
  above := ⟨format, member, .refl format⟩
  signed := fun signed => ⟨format, member, signed⟩
  longest := fun same => same ▸ member

theorem Spans.holds (spans : Spans formats format) (room : Room formats value) : format.Holds value := by
  obtain ⟨lower, member, below⟩ := spans.above
  exact below.holds (room.held lower member)

theorem Spans.join (spans : Spans formats left) (spansToo : Spans formats right) :
    (∃ format, left.join right = .word format ∧ Spans formats format) ∨
      left.join right = .real .double ∧ Mixes formats := by
  rcases join_cases left right with ⟨format, meets, below, signed, longest⟩ | ⟨meets, ⟨rfl, signed⟩ | ⟨signed, rfl⟩⟩
  · obtain ⟨lower, member, lowerBelow⟩ := spans.above
    exact .inl ⟨format, meets, ⟨lower, member, lowerBelow.trans below⟩,
      fun isSigned => (signed isSigned).elim spans.signed spansToo.signed,
      fun isLongest => (longest isLongest).elim spans.longest spansToo.longest⟩
  · exact .inr ⟨meets, spans.longest rfl, spansToo.signed signed⟩
  · exact .inr ⟨meets, spansToo.longest rfl, spans.signed signed⟩

theorem reduce_eq_iff : format.reduce value = value ↔ format.Holds value := by
  constructor
  · intro same
    rw [← same]
    exact format.holds_reduce value
  · exact format.reduce_of_holds value

end IntFormat

open IntFormat

namespace Binary

theorem IsWhole.neg {format : BinaryFormat} {value : Binary format} {number : Int} (whole : value.IsWhole number) :
    value.neg.IsWhole (-number) := by
  obtain ⟨negative, units, representable, rfl, signed, _⟩ := whole.exists_finite
  refine isWhole_finite_iff.2 ?_
  rw [Int.neg_mul, ← signed]
  cases negative <;> simp [signedUnits]

theorem IsWhole.equal_eq_true {format : BinaryFormat} {left right : Binary format} {number : Int}
    (leftWhole : left.IsWhole number) (rightWhole : right.IsWhole number) : left.equal right = true := by
  obtain ⟨_, _, _, rfl, leftSigned, _⟩ := leftWhole.exists_finite
  obtain ⟨_, _, _, rfl, rightSigned, _⟩ := rightWhole.exists_finite
  rw [Binary.equal, Binary.compare?, leftSigned, rightSigned, beq_iff_eq, Option.some_inj, compare_eq_iff_eq]

end Binary

namespace Number

variable {left right number : Number} {format : IntFormat} {formats : List IntFormat} {factor whole first second : Int}

def wordFormat? : Number → Option IntFormat
  | word format _ => some format
  | flag _ => some .int64
  | _ => none

theorem combineStored_word {operation : Operation} (meets : left.meeting right = .word format)
    (isFirst : left.inWord format = .ok first) (isSecond : right.inWord format = .ok second) :
    combineStored operation left right = .ok (.ofWord format (operation.onInts first second)) := by
  rw [combineStored, meets]
  dsimp only
  rw [isFirst, Outcome.ok_bind, isSecond]
  rfl

theorem inWord_integer (integer : number.integer? = some whole) (held : format.Holds whole) :
    number.inWord format = .ok whole := by
  cases number with
  | int => cases integer; exact if_pos held
  | bool | flag | word => cases integer; rfl
  | _ => cases integer

theorem mul_integer (factor : Int) (integer : number.integer? = some whole) :
    (Value.int factor).mul (.number number) =
      match number.wordFormat? with
      | none => .ok (.int (factor * whole))
      | some format => if format.Holds factor then .ok (.number (.ofWord format (factor * whole))) else .error .tooLarge := by
  have multiplied : (Value.int factor).mul (.number number) =
      do return .number (← (int factor).combine .mul number) := rfl
  have product {format : IntFormat} (stored : (int factor).combine .mul number = combineStored .mul (.int factor) number)
      (meets : (int factor).meeting number = .word format) (isWhole : number.inWord format = .ok whole) :
      (Value.int factor).mul (.number number) =
        if format.Holds factor then .ok (.number (.ofWord format (factor * whole))) else .error .tooLarge := by
    rw [multiplied, stored]
    split
    next held =>
      rw [combineStored_word meets (if_pos held) isWhole]
      rfl
    next outside =>
      have fails : (int factor).inWord format = .error .tooLarge := if_neg outside
      rw [combineStored, meets]
      dsimp only
      rw [fails]
      rfl
  cases number with
  | bool | int => cases integer; rfl
  | flag | word => cases integer; exact product rfl rfl rfl
  | _ => cases integer

/-- What stands for an integer among others whose words have the formats. -/
inductive Stands (formats : List IntFormat) : Number → Int → Prop
  | int (value : Int) : Stands formats (.int value) value
  | word {format : IntFormat} (spans : Spans formats format) (word : Word format) :
      Stands formats (.word format word) word.val
  | real {real : Binary .double} {value : Int} (mixes : Mixes formats) (whole : real.IsWhole value) :
      Stands formats (.real .double real) value

theorem Stands.eq_int (stands : number.Stands [] whole) : number = .int whole := by
  cases stands with
  | int => rfl
  | word spans =>
    obtain ⟨_, absurd, _⟩ := spans.above
    cases absurd
  | real mixes => cases mixes.1

theorem stands_ofWord (spans : Spans formats format) (room : Room formats whole) :
    (Number.ofWord format whole).Stands formats whole := by
  have stands := Stands.word spans (.wrap format whole)
  rwa [Word.val_wrap_of_holds (spans.holds room)] at stands

theorem combine_add_word (stored : combine .add left right = combineStored .add left right)
    (meets : left.meeting right = .word format) (isFirst : left.integer? = some first) (isSecond : right.integer? = some second)
    (held : format.Holds first) (heldToo : format.Holds second) :
    combine .add left right = .ok (.ofWord format (first + second)) :=
  stored.trans (combineStored_word meets (inWord_integer isFirst held) (inWord_integer isSecond heldToo))

theorem exists_add_real {real : Binary .double} (isFirst : real.IsWhole first) (isSecond : right.integer? = some second)
    (small : |second| ≤ 2 ^ 53) (sum : |first + second| ≤ 2 ^ 53) : ∃ total : Binary .double,
      (Value.number (.real .double real)).add (.number right) = .ok (.number (.real .double total)) ∧
        total.IsWhole (first + second) := by
  obtain ⟨other, whole, _, adds⟩ := (IsWhole.integer isSecond).exists_real small
  exact ⟨_, adds real, isFirst.add whole sum⟩

theorem exists_add_words {other : IntFormat} {first : Word format} {second : Word other}
    (meets : format.join other = .real .double) (small : |first.val| ≤ 2 ^ 53) (smallToo : |second.val| ≤ 2 ^ 53)
    (sum : |first.val + second.val| ≤ 2 ^ 53) : ∃ total : Binary .double,
      (Value.number (.word format first)).add (.number (.word other second)) = .ok (.number (.real .double total)) ∧
        total.IsWhole (first.val + second.val) := by
  refine ⟨_, ?_, (Binary.isWhole_ofInt small).add (Binary.isWhole_ofInt smallToo) sum⟩
  have stored : combine .add (.word format first) (.word other second) =
      combineStored .add (.word format first) (.word other second) := rfl
  have meetsToo : meeting (.word format first) (.word other second) = .real .double := meets
  rw [Value.add_number, stored, combineStored, meetsToo]
  rfl

/-- A sum stands for the exact one where there is room for it and for what is added. -/
theorem Stands.exists_add (stands : left.Stands formats first) (standsToo : right.Stands formats second)
    (integer : right.integer? = some second) (room : Room formats first) (roomToo : Room formats second)
    (sum : Room formats (first + second)) : ∃ total : Number,
      (Value.number left).add (.number right) = .ok (.number total) ∧ total.Stands formats (first + second) := by
  have adds {format : IntFormat} (spans : Spans formats format)
      (stored : combine .add left right = combineStored .add left right)
      (meets : left.meeting right = .word format) (isFirst : left.integer? = some first) : ∃ total : Number,
      (Value.number left).add (.number right) = .ok (.number total) ∧ total.Stands formats (first + second) := by
    refine ⟨_, ?_, stands_ofWord spans sum⟩
    rw [Value.add_number, combine_add_word stored meets isFirst integer (spans.holds room) (spans.holds roomToo)]
    rfl
  cases stands with
  | int =>
    cases standsToo with
    | int => exact ⟨_, rfl, .int _⟩
    | word spans => exact adds spans rfl rfl rfl
    | real => cases integer
  | @word format spans word =>
    cases standsToo with
    | int => exact adds spans rfl rfl rfl
    | @word other spansToo otherWord =>
      rcases spans.join spansToo with ⟨both, meets, spansBoth⟩ | ⟨meets, mixes⟩
      · exact adds spansBoth rfl meets rfl
      · obtain ⟨total, added, isSum⟩ := exists_add_words meets (room.exact mixes) (roomToo.exact mixes) (sum.exact mixes)
        exact ⟨_, added, .real mixes isSum⟩
    | real => cases integer
  | real mixes whole =>
    obtain ⟨total, added, isSum⟩ := exists_add_real whole integer (roomToo.exact mixes) (sum.exact mixes)
    exact ⟨_, added, .real mixes isSum⟩

theorem Stands.exists_neg (stands : number.Stands formats whole) (room : Room formats (-whole)) : ∃ opposite : Number,
    (Value.number number).neg = .ok (.number opposite) ∧ opposite.Stands formats (-whole) := by
  cases stands with
  | int => exact ⟨_, rfl, .int _⟩
  | word spans word => exact ⟨_, rfl, stands_ofWord spans room⟩
  | real mixes isWhole => exact ⟨_, rfl, .real mixes isWhole.neg⟩

theorem relateStored_real {relation : Relation} {format : BinaryFormat} {first second : Binary format}
    (real : left.integer? = none) (meets : left.meeting right = .real format) (isFirst : left.inReal format = .ok first)
    (isSecond : right.inReal format = .ok second) :
    relateStored relation left right = .ok (relation.onReals first second) := by
  unfold relateStored
  rw [real, meets]
  dsimp only
  rw [isFirst, isSecond]

theorem relate_equal_real {real : Binary .double} (isWhole : real.IsWhole whole) (small : |whole| ≤ 2 ^ 53) :
    relate .equal (.real .double real) (.int whole) = .ok true := by
  have stored : relate .equal (.real .double real) (.int whole) =
      relateStored .equal (.real .double real) (.int whole) := by
    simp only [relate, storage?, kind, Option.isSome_some, true_or, if_true]
  have own : inReal .double (.real .double real) = .ok real := by simp only [inReal, Binary.convert_self]
  have other : inReal .double (.int whole) = .ok (.ofInt .double whole) := by
    simp only [inReal, finiteReal_ofInt small, Outcome.ok_bind, Outcome.pure_eq_ok, Binary.convert_self]
  rw [stored, relateStored_real rfl rfl own other, Relation.onReals, isWhole.equal_eq_true (Binary.isWhole_ofInt small)]

theorem Stands.equal_int (stands : number.Stands formats whole) (room : Room formats whole) :
    (Value.number number).equal (.int whole) = .ok true := by
  have compared : (Value.number number).equal (.int whole) = number.relate .equal (.int whole) := rfl
  rw [compared]
  cases stands with
  | int => exact (relate_integers .equal rfl rfl).trans (congrArg Except.ok (decide_eq_true rfl))
  | word => exact (relate_integers .equal rfl rfl).trans (congrArg Except.ok (decide_eq_true rfl))
  | real mixes isWhole => exact relate_equal_real isWhole (room.exact mixes)

end Number

end EnergyTables
