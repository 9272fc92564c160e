

namespace EnergyTables

inductive IntFormat
  | int8 | int16 | int32 | int64 | uint8 | uint16 | uint32 | uint64
deriving DecidableEq, Repr, Inhabited

namespace IntFormat

def bits : IntFormat → Nat
  | int8 | uint8 => 8
  | int16 | uint16 => 16
  | int32 | uint32 => 32
  | int64 | uint64 => 64

def signed : IntFormat → Bool
  | int8 | int16 | int32 | int64 => true
  | uint8 | uint16 | uint32 | uint64 => false

def modulus (format : IntFormat) : Int := (1 <<< format.bits : Nat)

def least (format : IntFormat) : Int := if format.signed then -((1 <<< (format.bits - 1) : Nat) : Int) else 0

def greatest (format : IntFormat) : Int := format.least + format.modulus - 1

def Holds (format : IntFormat) (value : Int) : Prop := format.least ≤ value ∧ value ≤ format.greatest

instance (format : IntFormat) (value : Int) : Decidable (format.Holds value) :=
  inferInstanceAs (Decidable (_ ∧ _))

theorem modulus_pos (format : IntFormat) : 0 < format.modulus := by cases format <;> decide

def reduce (format : IntFormat) (value : Int) : Int :=
  (value - format.least) % format.modulus + format.least

theorem holds_reduce (format : IntFormat) (value : Int) : format.Holds (format.reduce value) := by
  have positive := format.modulus_pos
  have lower := Int.emod_nonneg (value - format.least) (by omega : format.modulus ≠ 0)
  have upper := Int.emod_lt_of_pos (value - format.least) positive
  simp only [Holds, reduce, greatest]
  omega

theorem reduce_of_holds (format : IntFormat) (value : Int) (held : format.Holds value) :
    format.reduce value = value := by
  simp only [Holds, greatest] at held
  rw [reduce, Int.emod_eq_of_lt (by omega) (by omega)]
  omega

theorem reduce_emod (format : IntFormat) (value : Int) :
    format.reduce value % format.modulus = value % format.modulus := by
  rw [reduce, Int.emod_add_emod]
  congr 1
  omega

theorem reduce_eq_reduce_iff (format : IntFormat) (left right : Int) :
    format.reduce left = format.reduce right ↔ left % format.modulus = right % format.modulus := by
  constructor
  · intro same
    rw [← format.reduce_emod left, same, format.reduce_emod]
  · intro same
    simp only [reduce, Int.sub_emod left, Int.sub_emod right, same]

end IntFormat

structure Word (format : IntFormat) where
  val : Int
  held : format.Holds val
deriving DecidableEq

namespace Word

variable {format : IntFormat}

@[ext] theorem ext {left right : Word format} (same : left.val = right.val) : left = right := by
  cases left; cases right; cases same; rfl

def wrap (format : IntFormat) (value : Int) : Word format :=
  ⟨format.reduce value, format.holds_reduce value⟩

def ofInt? (format : IntFormat) (value : Int) : Option (Word format) :=
  if held : format.Holds value then some ⟨value, held⟩ else none

@[simp] theorem wrap_val (word : Word format) : wrap format word.val = word :=
  ext (format.reduce_of_holds _ word.held)

@[simp] theorem val_wrap (value : Int) : (wrap format value).val = format.reduce value := rfl

theorem val_wrap_of_holds {value : Int} (held : format.Holds value) : (wrap format value).val = value :=
  format.reduce_of_holds value held

theorem wrap_add_wrap (left right : Int) :
    wrap format ((wrap format left).val + (wrap format right).val) = wrap format (left + right) := by
  apply ext
  simp only [val_wrap, IntFormat.reduce_eq_reduce_iff]
  rw [Int.add_emod, format.reduce_emod, format.reduce_emod, ← Int.add_emod]

instance : Inhabited (Word format) := ⟨wrap format 0⟩

end Word

/-- A fraction that keeps a word as its numerator. Its arithmetic reduces like that of the word, so it may end up
    other than in lowest terms. -/
structure WordRatio (format : IntFormat) where
  numerator : Word format
  denominator : Nat
  positive : 0 < denominator
deriving DecidableEq

end EnergyTables
