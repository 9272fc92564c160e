import EnergyTables.Value.Basic

namespace EnergyTables

inductive Exact
  | nan
  | infinite (negative : Bool)
  | rational (value : Rat)
  /-- A fraction that is not in lowest terms equals none but itself. -/
  | unreduced (numerator : Int) (denominator : Nat)
deriving DecidableEq

namespace Exact

def ofInt (value : Int) : Exact := .rational value

def ofBinary {format : BinaryFormat} : Binary format → Exact
  | .nan => nan
  | .infinite negative => infinite negative
  | .finite negative units _ => rational (mkRat (Binary.signedUnits negative units) format.unity)

def ofDecimal (value : Decimal) : Exact :=
  match value with
  | .nan .. => nan
  | .infinite negative => infinite negative
  | .finite .. => (value.toRat?.map rational).getD nan

def ofRatio (numerator : Int) (denominator : Nat) : Exact :=
  if Nat.Coprime numerator.natAbs denominator then rational (mkRat numerator denominator)
  else unreduced numerator denominator

def toRat? : Exact → Option Rat
  | rational value => some value
  | unreduced numerator denominator => some (mkRat numerator denominator)
  | nan | infinite _ => none

def ratLess (left right : Rat) : Bool := left.num * right.den < right.num * left.den

def equal : Exact → Exact → Bool
  | nan, _ | _, nan => false
  | left, right => left = right

def less : Exact → Exact → Bool
  | nan, _ | _, nan => false
  | infinite left, infinite right => left && !right
  | infinite negative, _ => negative
  | _, infinite negative => !negative
  | rational left, rational right => ratLess left right
  | left, right => ratLess (left.toRat?.getD 0) (right.toRat?.getD 0)

end Exact

namespace Number

def exactRe : Number → Exact
  | bool value | flag value => .ofInt value.toInt
  | int value => .ofInt value
  | float value => .ofBinary value
  | complex value => .ofBinary value.re
  | fraction value => .rational value
  | quotient _ value => .ofRatio value.numerator.val value.denominator
  | decimal value => .ofDecimal value
  | word _ value => .ofInt value.val
  | real _ value => .ofBinary value
  | pair _ value => .ofBinary value.re

def exactIm : Number → Exact
  | complex value => .ofBinary value.im
  | pair _ value => .ofBinary value.im
  | _ => .ofInt 0

def isComplex : Number → Bool
  | complex _ | pair .. => true
  | _ => false

def sameValue (left right : Number) : Bool :=
  left.exactRe.equal right.exactRe && left.exactIm.equal right.exactIm

end Number

namespace Value

mutual

def isKey : Value → Bool
  | list _ | array .. => false
  | number (.decimal (.nan _ true _)) => false
  | unitWeight (.decimal (.nan _ true _)) => false
  | tuple items => areKeys items
  | _ => true

def areKeys : List Value → Bool
  | [] => true
  | item :: items => isKey item && areKeys items

end

mutual

/-- Whether two values are the same key of a set: numbers by their exact value, tuples item by item. -/
def sameKey : Value → Value → Bool
  | .none, .none => true
  | text left, text right => left == right
  | number left, number right => left.sameValue right
  | tuple left, tuple right => sameKeys left right
  | unitWeight left, unitWeight right => left.sameValue right
  | _, _ => false

def sameKeys : List Value → List Value → Bool
  | [], [] => true
  | left :: lefts, right :: rights => sameKey left right && sameKeys lefts rights
  | _, _ => false

end

def distinctKeys (values : List Value) : List Value :=
  values.foldl (fun kept value => if kept.any (sameKey · value) then kept else kept ++ [value]) []

end Value

end EnergyTables
