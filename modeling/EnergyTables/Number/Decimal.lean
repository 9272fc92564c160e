import EnergyTables.Number.Numeral
import EnergyTables.Number.ShortestDigits

namespace EnergyTables

/-- A decimal number with an exponent of its own. Arithmetic keeps twenty-eight digits within exponents of six
    digits; an invalid operation and an overflow are signals. -/
inductive Decimal where
  | finite (negative : Bool) (coefficient : Nat) (exponent : Int)
  | infinite (negative : Bool)
  | nan (negative : Bool) (signaling : Bool) (payload : Nat)
deriving DecidableEq, Repr

inductive DecimalSignal
  | invalidOperation
  | overflow
deriving DecidableEq, Repr

namespace Decimal

def precision : Nat := 28

def greatestExponent : Int := 999999

def leastPlace : Int := -greatestExponent - precision + 1

def ofInt (value : Int) : Decimal := .finite (value < 0) value.natAbs 0

instance : Inhabited Decimal := ⟨ofInt 0⟩

def ofNumeral (numeral : Numeral) : Decimal :=
  .finite numeral.negative numeral.coefficient numeral.exponent

def ofBinary {format : BinaryFormat} : Binary format → Decimal
  | Binary.nan => .nan false false 0
  | .infinite negative => .infinite negative
  | .finite negative units _ =>
    let common := Nat.gcd units format.unity
    let places := (format.unity / common).log2
    .finite negative (units / common * Nat.pow 5 places) (-places)

/-- A result within the precision and the exponents. A number too small for its last place loses digits,
    as one with too many digits does. -/
def rounded : Decimal → Except DecimalSignal Decimal
  | .finite negative coefficient exponent =>
    if coefficient = 0 then
      .ok (.finite negative 0 (max leastPlace (min greatestExponent exponent)))
    else
      let place := max exponent (max leastPlace (exponent + digitCount coefficient - precision))
      let kept := roundHalfEven coefficient (Nat.pow 10 (place - exponent).toNat)
      let (kept, place) := if precision < digitCount kept then (kept / 10, place + 1) else (kept, place)
      if greatestExponent < place + digitCount kept - 1 then .error .overflow
      else .ok (.finite negative kept place)
  | special => .ok special

def nanOf (left right : Decimal) : Except DecimalSignal (Option Decimal) :=
  match left, right with
  | .nan _ true _, _ | _, .nan _ true _ => .error .invalidOperation
  | .nan .., _ => .ok (some left)
  | _, .nan .. => .ok (some right)
  | _, _ => .ok none

def aligned (negative : Bool) (coefficient : Nat) (exponent place : Int) : Int :=
  let shifted : Int := coefficient * Nat.pow 10 (exponent - place).toNat
  if negative then -shifted else shifted

/-- A finite number for a sum with a greater one. Below the digits that the sum keeps every positive amount has the
    same effect, so one unit there stands for it; a zero needs no more places than the greater number shows. -/
def besideGreater (greaterCoefficient : Nat) (greaterExponent : Int) (coefficient : Nat) (exponent : Int) :
    Nat × Int :=
  let lowest := greaterExponent + min (-1) ((digitCount greaterCoefficient : Int) - precision - 2)
  if coefficient = 0 then (0, max exponent (greaterExponent - precision - 1))
  else if greaterCoefficient ≠ 0 ∧ digitCount coefficient + exponent - 1 < lowest then (1, lowest)
  else (coefficient, exponent)

def addFinite (leftNegative : Bool) (leftCoefficient : Nat) (leftExponent : Int) (rightNegative : Bool)
    (rightCoefficient : Nat) (rightExponent : Int) : Except DecimalSignal Decimal :=
  let place := min leftExponent rightExponent
  let total := aligned leftNegative leftCoefficient leftExponent place +
    aligned rightNegative rightCoefficient rightExponent place
  let negative := if total = 0 then leftNegative && rightNegative else total < 0
  rounded (.finite negative total.natAbs place)

def add (left right : Decimal) : Except DecimalSignal Decimal := do
  match ← nanOf left right with
  | some propagated => return propagated
  | none =>
    match left, right with
    | .infinite leftNegative, .infinite rightNegative =>
      if leftNegative = rightNegative then return left else throw .invalidOperation
    | .infinite _, _ => return left
    | _, .infinite _ => return right
    | .finite leftNegative leftCoefficient leftExponent, .finite rightNegative rightCoefficient rightExponent =>
      if leftCoefficient = 0 && rightCoefficient = 0 then
        rounded (.finite (leftNegative && rightNegative) 0 (min leftExponent rightExponent))
      else if rightCoefficient = 0 || (leftCoefficient ≠ 0 && rightExponent ≤ leftExponent) then
        let (coefficient, exponent) := besideGreater leftCoefficient leftExponent rightCoefficient rightExponent
        addFinite leftNegative leftCoefficient leftExponent rightNegative coefficient exponent
      else
        let (coefficient, exponent) := besideGreater rightCoefficient rightExponent leftCoefficient leftExponent
        addFinite leftNegative coefficient exponent rightNegative rightCoefficient rightExponent
    | _, _ => return left

def mul (left right : Decimal) : Except DecimalSignal Decimal := do
  match ← nanOf left right with
  | some propagated => return propagated
  | none =>
    match left, right with
    | .finite leftNegative leftCoefficient leftExponent, .finite rightNegative rightCoefficient rightExponent =>
      rounded (.finite (leftNegative ^^ rightNegative) (leftCoefficient * rightCoefficient)
        (leftExponent + rightExponent))
    | .infinite leftNegative, .infinite rightNegative => return .infinite (leftNegative ^^ rightNegative)
    | .infinite infiniteNegative, .finite negative coefficient _
    | .finite negative coefficient _, .infinite infiniteNegative =>
      if coefficient = 0 then throw .invalidOperation else return .infinite (infiniteNegative ^^ negative)
    | _, _ => return left

def neg : Decimal → Except DecimalSignal Decimal
  | .nan _ true _ => .error .invalidOperation
  | .nan negative false payload => .ok (.nan negative false payload)
  | .infinite negative => .ok (.infinite !negative)
  | .finite negative coefficient exponent =>
    rounded (.finite (if coefficient = 0 then false else !negative) coefficient exponent)

def sub (left right : Decimal) : Except DecimalSignal Decimal :=
  match right with
  | .finite negative coefficient exponent => add left (.finite (!negative) coefficient exponent)
  | .infinite negative => add left (.infinite !negative)
  | special => add left special

def toRat? : Decimal → Option Rat
  | .finite negative coefficient exponent =>
    let ratio := scaleByTen coefficient exponent
    some (mkRat (if negative then -ratio.1 else ratio.1) ratio.2)
  | _ => none

def nearestBinary (format : BinaryFormat) (negative : Bool) (coefficient : Nat) (exponent : Int) :
    Binary format :=
  let leading := exponent + digitCount coefficient
  if coefficient = 0 ∨ leading < -400 then .ofUnits format negative 0
  else if 400 < leading then .infinite negative
  else
    let ratio := scaleByTen coefficient exponent
    .ofRatio format negative ratio.1 ratio.2

def isSpecialText (names : List String) (characters : List Char) : Bool :=
  names.contains (String.ofList (characters.map Char.toLower))

def read? (text : String) : Option Decimal :=
  let kept := (Text.asciiDigits (Text.trimmed Text.isBlank text.toList)).filter (· ≠ '_')
  match Numeral.ofCharacters? kept with
  | some numeral => some (ofNumeral numeral)
  | none =>
    let (negative, rest) := Numeral.splitSign kept
    let letters := rest.takeWhile (!Char.isDigit ·)
    let payload := rest.dropWhile (!Char.isDigit ·)
    if payload.isEmpty && isSpecialText ["inf", "infinity"] letters then some (.infinite negative)
    else if isSpecialText ["nan", "snan"] letters then
      (Numeral.natural? payload).map (.nan negative (isSpecialText ["snan"] letters))
    else none

/-- Positional when no digit stands left of the units by an exponent and at most five zeros follow the point. -/
def finiteText (coefficient : Nat) (exponent : Int) : String :=
  let digits := toString coefficient
  let whole : Int := exponent + digits.length
  if exponent ≤ 0 ∧ -6 < whole then
    Binary.pointedText digits whole false
  else
    let power := whole - 1
    Binary.pointedText digits 1 false ++ (if power < 0 then "E-" else "E+") ++ toString power.natAbs

def text : Decimal → String
  | .finite negative coefficient exponent => (if negative then "-" else "") ++ finiteText coefficient exponent
  | .infinite negative => if negative then "-Infinity" else "Infinity"
  | .nan negative signaling payload =>
    (if negative then "-" else "") ++ (if signaling then "sNaN" else "NaN") ++
      (if payload = 0 then "" else toString payload)

end Decimal

def readFloat? (format : BinaryFormat) (text : String) : Option (Binary format) := do
  let characters ← Numeral.withoutSeparators? ' ' (Numeral.characters text)
  match Numeral.ofCharacters? characters with
  | some numeral => some (Decimal.nearestBinary format numeral.negative numeral.coefficient numeral.exponent)
  | none =>
    let (negative, rest) := Numeral.splitSign characters
    if Decimal.isSpecialText ["inf", "infinity"] rest then some (.infinite negative)
    else if Decimal.isSpecialText ["nan"] rest then some .nan
    else none

def readFraction? (text : String) : Option (Int × Nat) := do
  let kept := Text.asciiDigits (Text.trimmed Text.isBlank text.toList)
  let (negative, rest) := Numeral.splitSign kept
  let (top, bottom) := Numeral.splitAtFirst (· = '/') rest
  match bottom with
  | some bottom =>
    let numerator ← Numeral.withoutSeparators? ' ' top >>= Numeral.digits?
    let denominator ← Numeral.withoutSeparators? ' ' bottom >>= Numeral.digits?
    some (if negative then -(numerator : Int) else numerator, denominator)
  | none =>
    let numeral ← Numeral.withoutSeparators? ' ' rest >>= Numeral.unsigned? negative
    let ratio := scaleByTen numeral.coefficient numeral.exponent
    some (if negative then -(ratio.1 : Int) else ratio.1, ratio.2)

end EnergyTables
