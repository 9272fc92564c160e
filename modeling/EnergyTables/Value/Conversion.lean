import EnergyTables.Value.Sequence

namespace EnergyTables

namespace Exact

def truncate : Exact → Outcome Int
  | rational value => .ok (value.num.tdiv value.den)
  | unreduced numerator denominator => .ok (numerator.tdiv denominator)
  | nan => .error .invalid
  | infinite _ => .error .tooLarge

end Exact

namespace Number

/-- The opposite of a word below zero is taken before the division and undone after it, each within the format. -/
def truncateRatio {format : IntFormat} (ratio : WordRatio format) : Outcome Int := do
  let denominator ← inWord format (.int ratio.denominator)
  if ratio.numerator.val < 0 then
    return format.reduce (-(format.reduce (-ratio.numerator.val) / denominator))
  else return ratio.numerator.val / denominator

def truncate : Number → Outcome Int
  | complex _ => .error .unsupported
  | quotient _ value => truncateRatio value
  | other => other.exactRe.truncate

def toFloat : Number → Outcome (Binary .double)
  | decimal (.finite negative coefficient exponent) => .ok (Decimal.nearestBinary .double negative coefficient exponent)
  | decimal (.infinite negative) => .ok (.infinite negative)
  | decimal (.nan _ signaling _) => if signaling then .error .invalid else .ok .nan
  | word _ value => .ok (.ofInt .double value.val)
  | flag value => .ok (.ofInt .double value.toInt)
  | real _ value => .ok (value.convert .double)
  | pair _ value => .ok (value.re.convert .double)
  | plain => plain.floatPart

def isZero (number : Number) : Bool :=
  number.exactRe.toRat? = some 0 && number.exactIm = .ofInt 0

/-- A real number cut to an integer in a register of 32 or 64 bits; what does not fit becomes the register's least
    value, and the word keeps its low bits. -/
def cutToWord (format : IntFormat) (exact : Exact) : Word format :=
  let register : IntFormat := if format.bits < 32 ∨ format = .int32 then .int32 else .int64
  match exact with
  | .rational value =>
    let whole := value.num.tdiv value.den
    if register.Holds whole then .wrap format whole
    else if format = .uint64 ∧ 0 ≤ whole then .wrap format (if whole < format.modulus then whole else 0)
    else .wrap format register.least
  | .infinite false => .wrap format (if format = .uint64 then 0 else register.least)
  | _ => .wrap format register.least

def cast (storage : Storage) (number : Number) : Number :=
  match storage with
  | .flag => .flag !number.isZero
  | .word format =>
    match number.integer? with
    | some value => .ofWord format value
    | none => .word format (cutToWord format number.exactRe)
  | .real format =>
    match number with
    | real _ value => .real format (value.convert format)
    | pair _ value => .real format (value.re.convert format)
    | other => .real format (.ofInt format (other.integer?.getD 0))
  | .pair format =>
    match number with
    | real _ value => .pair format (.ofReal (value.convert format))
    | pair _ value => .pair format (value.convert format)
    | other => .pair format (.ofReal (.ofInt format (other.integer?.getD 0)))
  | .object => number.toPlain

end Number

namespace Value

def orInvalid {α : Type} (found : Option α) : Outcome α :=
  match found with
  | some value => .ok value
  | Option.none => .error .invalid

def toInt : Value → Outcome Int
  | number value => value.truncate
  | text characters => orInvalid (readInt? characters)
  | array _ [] _ [number value] => value.truncate
  | _ => .error .unsupported

def toFloat : Value → Outcome (Binary .double)
  | number (.complex _) => .error .unsupported
  | number value => value.toFloat
  | text characters => orInvalid (readFloat? .double characters)
  | _ => .error .unsupported

def toComplex : Value → Outcome (Complex .double)
  | number (.complex value) => .ok value
  | number (.pair _ value) => .ok (value.convert .double)
  | number value => do return .ofReal (← value.toFloat)
  | text characters => orInvalid (Complex.read? characters)
  | _ => .error .unsupported

/-- A word stays what it is, as the numerator over one. -/
def toFraction : Value → Outcome Number
  | number (.complex _) | number (.pair ..) | number (.flag _) => .error .unsupported
  | number (.word format value) => .ok (.quotient format ⟨value, 1, Nat.one_pos⟩)
  | number (.quotient format value) => .ok (.quotient format value)
  | number (.real .double value) => rational (.ofBinary value)
  | number (.real ..) => .error .unsupported
  | number value => rational value.exactRe
  | text characters =>
    match readFraction? characters with
    | some (_, 0) => .error .divisionByZero
    | some (numerator, denominator) => .ok (.fraction (mkRat numerator denominator))
    | Option.none => .error .invalid
  | _ => .error .unsupported
where
  rational (exact : Exact) : Outcome Number :=
    match exact with
    | .infinite _ => .error .tooLarge
    | finite => match finite.toRat? with
      | some value => .ok (.fraction value)
      | Option.none => .error .invalid

def toDecimal : Value → Outcome Decimal
  | number (.bool value) => .ok (.ofInt value.toInt)
  | number (.int value) => .ok (.ofInt value)
  | number (.float value) | number (.real .double value) => .ok (.ofBinary value)
  | number (.decimal value) => .ok value
  | text characters =>
    match Decimal.read? characters with
    | some value => .ok value
    | Option.none => .error .decimalInvalid
  | list _ | tuple _ => .error .invalid
  | _ => .error .unsupported

def truth : Value → Bool
  | .none => false
  | number value => !value.isZero
  | text characters => !characters.isEmpty
  | list items | tuple items => !items.isEmpty
  | unitWeight length => !length.isZero
  | array _ _ _ entries => !entries.isEmpty

def store (storage : Storage) (value : Value) : Outcome Value :=
  match storage, value with
  | .object, _ => .ok value
  | .flag, _ => .ok (number (.flag value.truth))
  | .real format, .none => .ok (number (.real format .nan))
  | .pair format, .none => .ok (number (.pair format ⟨.nan, .nan⟩))
  | _, number scalar =>
    if scalar.storage?.isSome then .ok (number (scalar.cast storage)) else plain storage value
  | _, _ => plain storage value
where
  plain (storage : Storage) (value : Value) : Outcome Value :=
    match storage with
    | .word format => do
      match Word.ofInt? format (← value.toInt) with
      | some word => return number (.word format word)
      | Option.none => throw .tooLarge
    | .real format => do return number (.real format ((← value.toFloat).convert format))
    | .pair format => do return number (.pair format ((← value.toComplex).convert format))
    | _ => .ok value

def toArray (storage : Storage) (value : Value) : Outcome (List Nat × List Value) := do
  let shape ← shapeOf value
  return (shape, ← (leaves value).mapM (store storage))

end Value

namespace Kind

def convert (kind : Kind) (value : Value) : Outcome Value :=
  match kind with
  | stored storage =>
    if value.isSequence then do
      let (shape, entries) ← value.toArray storage
      return .array storage shape true entries
    else value.store storage
  | fraction => do return .number (← value.toFraction)
  | decimal => do return .number (.decimal (← value.toDecimal))
  | int => do return .int (← value.toInt)
  | float => do return .float (← value.toFloat)
  | complex => do return .number (.complex (← value.toComplex))
  | bool => .ok (.bool value.truth)
  | text => .ok (.text value.display)
  | none | list | tuple | mapping | unitWeight | array => .error .unsupported

def zero (kind : Kind) : Outcome Value :=
  match kind with
  | stored .object => .ok (.int 0)
  | _ => kind.convert (.int 0)

def isMachine : Kind → Bool
  | stored _ | int | float | complex | bool => true
  | _ => false

def energyKind : Kind → Kind
  | int => stored (.word .int64)
  | float => stored (.real .double)
  | complex => stored (.pair .double)
  | bool => stored .flag
  | other => other

end Kind

end EnergyTables
