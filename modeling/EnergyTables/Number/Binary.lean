import EnergyTables.Number.HalfEven

namespace EnergyTables

inductive BinaryFormat
  | half | single | double
deriving DecidableEq, Repr, Inhabited

namespace BinaryFormat

def precision : BinaryFormat → Nat
  | half => 11
  | single => 24
  | double => 53

def scale : BinaryFormat → Nat
  | half => 24
  | single => 149
  | double => 1074

def greatest : BinaryFormat → Nat
  | half => (1 <<< 11 - 1) <<< 29
  | single => (1 <<< 24 - 1) <<< 253
  | double => (1 <<< 53 - 1) <<< 2045

def unity (format : BinaryFormat) : Nat := 1 <<< format.scale

/-- The unit in the last place of a number of `units`. -/
def lastPlace (format : BinaryFormat) (units : Nat) : Nat := 1 <<< (units.log2 + 1 - format.precision)

theorem lastPlace_pos (format : BinaryFormat) (units : Nat) : 0 < format.lastPlace units := by
  rw [lastPlace, Nat.one_shiftLeft]
  exact Nat.two_pow_pos _

def Representable (format : BinaryFormat) (units : Nat) : Prop :=
  units % format.lastPlace units = 0 ∧ units ≤ format.greatest

instance (format : BinaryFormat) (units : Nat) : Decidable (format.Representable units) :=
  inferInstanceAs (Decidable (_ ∧ _))

def join : BinaryFormat → BinaryFormat → BinaryFormat
  | double, _ | _, double => double
  | single, _ | _, single => single
  | half, half => half

end BinaryFormat

/-- A finite number is a sign and a count of the least positive number of its format. Every operation is its exact
    result rounded once to nearest, a half going to the even neighbour. -/
inductive Binary (format : BinaryFormat) where
  | nan
  | infinite (negative : Bool)
  | finite (negative : Bool) (units : Nat) (representable : format.Representable units)
deriving DecidableEq

namespace Binary

variable {format : BinaryFormat}

def ofUnits (format : BinaryFormat) (negative : Bool) (units : Nat) : Binary format :=
  if representable : format.Representable units then .finite negative units representable
  else .infinite negative

/-- The nearest multiple of the last place to `numerator / denominator` units. -/
def roundUnits (format : BinaryFormat) (numerator denominator : Nat) : Nat :=
  let place := format.lastPlace (numerator / denominator)
  roundHalfEven numerator (denominator * place) * place

def ofRatio (format : BinaryFormat) (negative : Bool) (numerator denominator : Nat) : Binary format :=
  ofUnits format negative (roundUnits format (numerator * format.unity) denominator)

def ofRat (format : BinaryFormat) (value : Rat) : Binary format :=
  ofRatio format (value < 0) value.num.natAbs value.den

def ofInt (format : BinaryFormat) (value : Int) : Binary format :=
  ofRatio format (value < 0) value.natAbs 1

def zero (format : BinaryFormat) : Binary format := ofUnits format false 0

def one (format : BinaryFormat) : Binary format := ofUnits format false format.unity

def largest (format : BinaryFormat) : Binary format := ofUnits format false format.greatest

instance : Inhabited (Binary format) := ⟨zero format⟩

def isNaN : Binary format → Bool
  | nan => true
  | _ => false

def isFinite : Binary format → Bool
  | finite .. => true
  | _ => false

def signedUnits (negative : Bool) (units : Nat) : Int := if negative then -units else units

def toRat? : Binary format → Option Rat
  | finite negative units _ => some (mkRat (signedUnits negative units) format.unity)
  | _ => none

def convert (target : BinaryFormat) (value : Binary format) : Binary target :=
  if same : format = target then same ▸ value
  else match value with
    | nan => .nan
    | infinite negative => .infinite negative
    | finite negative units _ => ofRatio target negative units format.unity

@[simp] theorem convert_self (value : Binary format) : convert format value = value := by
  simp [convert]

def neg : Binary format → Binary format
  | nan => nan
  | infinite negative => infinite !negative
  | finite negative units representable => finite (!negative) units representable

def ofSignedUnits (format : BinaryFormat) (zeroNegative : Bool) (count : Int) : Binary format :=
  if count = 0 then ofUnits format zeroNegative 0
  else ofUnits format (count < 0) (roundUnits format count.natAbs 1)

/-- A sum that cancels is `-0` only when both operands are negative. -/
def add : Binary format → Binary format → Binary format
  | nan, _ | _, nan => nan
  | infinite left, infinite right => if left = right then infinite left else nan
  | infinite negative, finite .. | finite .., infinite negative => infinite negative
  | finite left leftUnits _, finite right rightUnits _ =>
    ofSignedUnits format (left && right) (signedUnits left leftUnits + signedUnits right rightUnits)

def sub (left right : Binary format) : Binary format := add left right.neg

def mul : Binary format → Binary format → Binary format
  | nan, _ | _, nan => nan
  | infinite left, infinite right => infinite (left ^^ right)
  | infinite left, finite right units _ | finite right units _, infinite left =>
    if units = 0 then nan else infinite (left ^^ right)
  | finite left leftUnits _, finite right rightUnits _ =>
    ofUnits format (left ^^ right) (roundUnits format (leftUnits * rightUnits) format.unity)

def compare? : Binary format → Binary format → Option Ordering
  | nan, _ | _, nan => none
  | infinite left, infinite right => some (compare right.toNat left.toNat)
  | infinite negative, finite .. => some (if negative then .lt else .gt)
  | finite .., infinite negative => some (if negative then .gt else .lt)
  | finite left leftUnits _, finite right rightUnits _ =>
    some (compare (signedUnits left leftUnits) (signedUnits right rightUnits))

def equal (left right : Binary format) : Bool := compare? left right == some .eq

def less (left right : Binary format) : Bool := compare? left right == some .lt

def lessEqual (left right : Binary format) : Bool :=
  compare? left right == some .lt || compare? left right == some .eq

def truncate? : Binary format → Option Int
  | finite negative units _ => some (signedUnits negative (units / format.unity))
  | _ => none

theorem roundUnits_of_representable {units : Nat} (representable : format.Representable units) :
    roundUnits format units 1 = units := by
  have whole : units / format.lastPlace units * format.lastPlace units = units :=
    Nat.div_mul_cancel (Nat.dvd_of_mod_eq_zero representable.1)
  have rounded := roundHalfEven_mul_self (units / format.lastPlace units) _ (format.lastPlace_pos units)
  rw [whole] at rounded
  simp only [roundUnits, Nat.div_one, Nat.one_mul, rounded, whole]

theorem ofUnits_of_representable {units : Nat} (negative : Bool) (representable : format.Representable units) :
    ofUnits format negative units = .finite negative units representable := by
  simp [ofUnits, representable]

end Binary

end EnergyTables
