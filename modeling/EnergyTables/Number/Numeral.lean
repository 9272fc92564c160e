import EnergyTables.Text.Characters

namespace EnergyTables

/-- The numeral `± coefficient * 10 ^ exponent`. -/
structure Numeral where
  negative : Bool
  coefficient : Nat
  exponent : Int
deriving DecidableEq, Repr

namespace Numeral

def natural? (digits : List Char) : Option Nat :=
  digits.foldlM (fun total digit => if digit.isDigit then some (10 * total + (digit.toNat - 0x30)) else none) 0

def digits? (digits : List Char) : Option Nat := if digits.isEmpty then none else natural? digits

def withoutSeparators? : (previous : Char) → List Char → Option (List Char)
  | _, [] => some []
  | previous, '_' :: next :: rest =>
    if previous.isDigit && next.isDigit then (withoutSeparators? next rest).map (next :: ·) else none
  | _, ['_'] => none
  | _, character :: rest => (withoutSeparators? character rest).map (character :: ·)

def splitSign : List Char → Bool × List Char
  | '-' :: rest => (true, rest)
  | '+' :: rest => (false, rest)
  | rest => (false, rest)

def splitAtFirst (stop : Char → Bool) (characters : List Char) : List Char × Option (List Char) :=
  (characters.takeWhile (!stop ·), (characters.dropWhile (!stop ·)).tail?)

def exponent? (characters : List Char) : Option Int :=
  let (negative, digits) := splitSign characters
  (digits? digits).map fun size => if negative then -(size : Int) else size

def unsigned? (negative : Bool) (characters : List Char) : Option Numeral := do
  let (mantissa, power) := splitAtFirst (fun c => c = 'e' || c = 'E') characters
  let exponent ← match power with
    | some power => exponent? power
    | none => some 0
  let (whole, fraction) := splitAtFirst (· = '.') mantissa
  let fraction := fraction.getD []
  let coefficient ← digits? (whole ++ fraction)
  some ⟨negative, coefficient, exponent - fraction.length⟩

def ofCharacters? (characters : List Char) : Option Numeral :=
  let (negative, rest) := splitSign characters
  unsigned? negative rest

def characters (text : String) : List Char :=
  let all := text.toList
  Text.asciiDigits (Text.trimmed (if all.all (·.toNat < 128) then Text.isAsciiBlank else Text.isBlank) all)

/-- An integer is read and written in at most so many digits. -/
def digitLimit : Nat := 4300

@[irreducible] def writes (value : Int) : Bool := value.natAbs < Nat.pow 10 digitLimit

theorem writes_of_lt {value : Int} (small : value.natAbs < 1 <<< 64) : writes value = true := by
  have below : 1 <<< 64 ≤ Nat.pow 10 digitLimit := by decide +kernel
  unfold writes
  exact decide_eq_true (Nat.lt_of_lt_of_le small below)

end Numeral

def readInt? (text : String) : Option Int := do
  let (negative, digits) := Numeral.splitSign (Numeral.characters text)
  let digits ← Numeral.withoutSeparators? ' ' digits
  if Numeral.digitLimit < digits.length then none
  let size ← Numeral.digits? digits
  some (if negative then -(size : Int) else size)

end EnergyTables
