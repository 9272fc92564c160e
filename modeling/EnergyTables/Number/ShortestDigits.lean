import EnergyTables.Number.Binary

namespace EnergyTables

structure DecimalDigits where
  digits : Nat
  exponent : Int
deriving DecidableEq, Repr

def digitCount (value : Nat) : Nat := (Nat.toDigits 10 value).length

def scaleByTen (value : Nat) (exponent : Int) : Nat × Nat :=
  (value * Nat.pow 10 exponent.toNat, Nat.pow 10 (-exponent).toNat)

namespace Binary

/-- The least exponent whose power of ten exceeds `numerator / denominator`. -/
def magnitude (numerator denominator : Nat) : Int :=
  let guess : Int := digitCount numerator - digitCount denominator
  let power := scaleByTen 1 guess
  if numerator * power.2 < denominator * power.1 then guess else guess + 1

/-- The decimals of `count` digits just below and just above a positive value, nearest first. -/
def neighbours (numerator denominator count : Nat) : List DecimalDigits :=
  let exponent := magnitude numerator denominator - count
  let power := scaleByTen denominator exponent
  let scaled := numerator * (scaleByTen 1 exponent).2
  let unit := power.1
  let below := scaled / unit
  let twice := 2 * (scaled % unit)
  let lower : DecimalDigits := ⟨below, exponent⟩
  let upper : DecimalDigits := ⟨below + 1, exponent⟩
  if twice < unit ∨ (twice = unit ∧ below % 2 = 0) then [lower, upper] else [upper, lower]

def readsBack (format : BinaryFormat) (units : Nat) (decimal : DecimalDigits) : Bool :=
  let power := scaleByTen decimal.digits decimal.exponent
  roundUnits format (power.1 * format.unity) power.2 == units

def searchDigits (format : BinaryFormat) (units : Nat) : (attempts count : Nat) → DecimalDigits
  | 0, _ => ⟨units, 0⟩
  | attempts + 1, count =>
    match (neighbours units format.unity count).find? (readsBack format units) with
    | some decimal => decimal
    | none => searchDigits format units attempts (count + 1)

def shortestDigits (format : BinaryFormat) (units : Nat) : DecimalDigits :=
  searchDigits format units 17 1

end Binary

/-- The magnitudes written without an exponent are those from `10 ^ -4` to below `10 ^ positionalBelow`. -/
structure FloatStyle where
  positionalBelow : Nat
  wholePoint : Bool
deriving DecidableEq, Repr

namespace FloatStyle

def plain : FloatStyle := ⟨16, true⟩

def part (style : FloatStyle) : FloatStyle := { style with wholePoint := false }

def ofFormat : BinaryFormat → FloatStyle
  | .half => ⟨3, true⟩
  | .single => ⟨6, true⟩
  | .double => plain

end FloatStyle

namespace Binary

variable {format : BinaryFormat}

def exponentText (exponent : Int) : String :=
  let size := toString exponent.natAbs
  (if exponent < 0 then "e-" else "e+") ++ (if size.length < 2 then "0" ++ size else size)

def pointedText (digits : String) (whole : Int) (wholePoint : Bool) : String :=
  if whole ≤ 0 then "0." ++ "".pushn '0' (-whole).toNat ++ digits
  else if digits.length ≤ whole.toNat then
    "".append digits |>.pushn '0' (whole.toNat - digits.length) |>.append (if wholePoint then ".0" else "")
  else (digits.take whole.toNat).toString ++ "." ++ (digits.drop whole.toNat).toString

def positiveText (style : FloatStyle) (format : BinaryFormat) (units : Nat) : String :=
  let decimal := shortestDigits format units
  let stripped := (toString decimal.digits).toList.reverse.dropWhile (· == '0')
  let digits := String.ofList stripped.reverse
  let whole : Int := (toString decimal.digits).length + decimal.exponent
  if format.unity ≤ units * 10000 ∧ units < format.unity * Nat.pow 10 style.positionalBelow then
    pointedText digits whole style.wholePoint
  else (if digits.length = 1 then digits else pointedText digits 1 false) ++ exponentText (whole - 1)

def text (style : FloatStyle) : Binary format → String
  | nan => "nan"
  | infinite negative => if negative then "-inf" else "inf"
  | finite negative units _ =>
    let sign := if negative then "-" else ""
    if units = 0 then sign ++ (if style.wholePoint then "0.0" else "0")
    else sign ++ positiveText style format units

end Binary

end EnergyTables
