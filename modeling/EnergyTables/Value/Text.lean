import EnergyTables.Value.Basic

namespace EnergyTables

namespace Number

def truthText (value : Bool) : String := if value then "True" else "False"

def ratioText (numerator : Int) (denominator : Nat) : String :=
  if denominator = 1 then toString numerator else s!"{numerator}/{denominator}"

def text : Number → String
  | bool value => truthText value
  | int value => toString value
  | float value => value.text .plain
  | complex value => value.text .plain
  | fraction value => ratioText value.num value.den
  | quotient _ value => ratioText value.numerator.val value.denominator
  | decimal value => value.text
  | flag value => truthText value
  | word _ value => toString value.val
  | real format value => value.text (.ofFormat format)
  | pair format value => value.text (.ofFormat format)

def quoted (number : Number) : String :=
  match number with
  | fraction value => s!"Fraction({value.num}, {value.den})"
  | quotient _ value => s!"Fraction({value.numerator.val}, {value.denominator})"
  | decimal value => s!"Decimal('{value.text}')"
  | flag value => "np." ++ truthText value ++ "_"
  | word format value => s!"np.{format.name}({value.val})"
  | real format _ => s!"np.{format.realName}({number.text})"
  | pair format _ => s!"np.{format.pairName}({number.text})"
  | plain => plain.text

def isWritable : Number → Bool
  | int value => Numeral.writes value
  | fraction value => Numeral.writes value.num && Numeral.writes value.den
  | quotient _ value => Numeral.writes value.denominator
  | _ => true

end Number

namespace Text

def hexDigits (width value : Nat) : String :=
  let digits := Nat.toDigits 16 value
  "".pushn '0' (width - digits.length) ++ String.ofList digits

/-- Characters that no printer shows: controls, separators other than the space, and unassigned or private ones
    of the ranges in common use. -/
def isHidden (code : Nat) : Bool :=
  code < 0x20 || (0x7f ≤ code && code ≤ 0xa0) || code = 0xad || code = 0x1680 ||
    (0x2000 ≤ code && code ≤ 0x200f) || (0x2028 ≤ code && code ≤ 0x202f) || (0x205f ≤ code && code ≤ 0x206f) ||
    code = 0x3000 || (0xe000 ≤ code && code ≤ 0xf8ff) || code = 0xfeff || (0xfff0 ≤ code && code ≤ 0xfffb) ||
    0xe0000 ≤ code

def quotedCharacter (quote character : Char) : String :=
  if character = quote || character = '\\' then String.ofList ['\\', character]
  else if character = '\n' then "\\n"
  else if character = '\r' then "\\r"
  else if character = '\t' then "\\t"
  else
    let code := character.toNat
    if !isHidden code then character.toString
    else if code < 0x100 then "\\x" ++ hexDigits 2 code
    else if code < 0x10000 then "\\u" ++ hexDigits 4 code
    else "\\U" ++ hexDigits 8 code

def quoted (text : String) : String :=
  let characters := text.toList
  let single := Char.ofNat 0x27
  let quote := if characters.contains single && !characters.contains '"' then '"' else single
  quote.toString ++ String.join (characters.map (quotedCharacter quote)) ++ quote.toString

def bracketed (items : List String) : String := "[" ++ String.intercalate ", " items ++ "]"

def parenthesised : List String → String
  | [item] => "(" ++ item ++ ",)"
  | items => "(" ++ String.intercalate ", " items ++ ")"

end Text

namespace Storage

def isDefault : Storage → Bool
  | flag | word .int64 | real .double | pair .double => true
  | _ => false

end Storage

namespace Value

def nested (separator : String) : (shape : List Nat) → List String → String
  | [], entries => entries.headD ""
  | count :: shape, entries =>
    let width := shape.foldl (· * ·) 1
    let rows := (List.range count).map fun row => nested separator shape ((entries.drop (row * width)).take width)
    "[" ++ String.intercalate separator rows ++ "]"

def bare : Value → String
  | number value => value.text
  | _ => ""

/-- Entries of equal width: whole parts to the right, the zeros of whole numbers left out. -/
def aligned (texts : List String) : List String :=
  let split := texts.map fun text =>
    let characters := text.toList
    let fraction := characters.dropWhile (· ≠ '.')
    (characters.takeWhile (· ≠ '.'), if fraction = ['.', '0'] then ['.'] else fraction)
  let width (sizes : List Nat) := sizes.foldl max 0
  let left := width (split.map (·.1.length))
  let right := width (split.map (·.2.length))
  split.map fun (whole, fraction) =>
    "".pushn ' ' (left - whole.length) ++ String.ofList (whole ++ fraction) ++
      "".pushn ' ' (right - fraction.length)

mutual

def quoted : Value → String
  | .none => "None"
  | text characters => Text.quoted characters
  | number value => value.quoted
  | list items => Text.bracketed (quotedItems items)
  | tuple items => Text.parenthesised (quotedItems items)
  | unitWeight length => s!"UnitWeight(n={length.quoted})"
  | array storage shape _ entries =>
    let texts := if storage = .object then quotedItems entries else aligned (entries.map bare)
    let suffix := if storage.isDefault then "" else ", dtype=" ++ (storage.name.dropEndWhile '_').toString
    "array(" ++ nested ", " shape texts ++ suffix ++ ")"

def quotedItems : List Value → List String
  | [] => []
  | item :: items => quoted item :: quotedItems items

end

mutual

def isWritable : Value → Bool
  | number value => value.isWritable
  | unitWeight length => length.isWritable
  | list items | tuple items => areWritable items
  | array _ _ _ entries => areWritable entries
  | _ => true

def areWritable : List Value → Bool
  | [] => true
  | item :: items => isWritable item && areWritable items

end

def display : Value → String
  | text characters => characters
  | number value => value.text
  | array storage shape _ entries =>
    nested " " shape (if storage = .object then quotedItems entries else aligned (entries.map bare))
  | other => other.quoted

def typeName (value : Value) : String :=
  match value.kind with
  | .stored .flag => "bool"
  | kind => kind.name

end Value

end EnergyTables
