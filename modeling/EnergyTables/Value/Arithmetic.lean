import EnergyTables.Value.Promotion

namespace EnergyTables

inductive Operation
  | add
  | sub
  | mul
deriving DecidableEq, Repr

namespace Operation

def onInts : Operation → Int → Int → Int
  | add => (· + ·)
  | sub => (· - ·)
  | mul => (· * ·)

def onRats : Operation → Rat → Rat → Rat
  | add => (· + ·)
  | sub => (· - ·)
  | mul => (· * ·)

def onReals {format : BinaryFormat} : Operation → Binary format → Binary format → Binary format
  | add => .add
  | sub => .sub
  | mul => .mul

def onPairs {format : BinaryFormat} : Operation → Complex format → Complex format → Complex format
  | add => .add
  | sub => .sub
  | mul => .mul

def onDecimals : Operation → Decimal → Decimal → Outcome Decimal
  | add, left, right => (left.add right).mapError .ofDecimal
  | sub, left, right => (left.sub right).mapError .ofDecimal
  | mul, left, right => (left.mul right).mapError .ofDecimal

/-- Stored truth values add by disjunction, multiply by conjunction and have no difference. -/
def onFlags : Operation → Bool → Bool → Outcome Bool
  | add, left, right => .ok (left || right)
  | sub, _, _ => .error .unsupported
  | mul, left, right => .ok (left && right)

end Operation

namespace Number

def finiteReal (value : Binary .double) : Outcome (Binary .double) :=
  if value.isFinite then .ok value else .error .tooLarge

def wholePart? : Number → Option Int
  | bool value => some value.toInt
  | int value => some value
  | _ => none

def rationalPart? : Number → Option Rat
  | fraction value => some value
  | other => other.wholePart?.map fun value => (value : Rat)

def decimalPart? : Number → Option Decimal
  | decimal value => some value
  | other => other.wholePart?.map .ofInt

def floatPart : Number → Outcome (Binary .double)
  | bool value => .ok (.ofInt .double value.toInt)
  | int value => finiteReal (.ofInt .double value)
  | fraction value => finiteReal (.ofRat .double value)
  | quotient _ value => finiteReal (.ofRat .double (mkRat value.numerator.val value.denominator))
  | float value => .ok value
  | _ => .error .unsupported

def complexPart : Number → Outcome (Complex .double)
  | complex value => .ok value
  | other => do return .ofReal (← other.floatPart)

def integer? : Number → Option Int
  | bool value | flag value => some value.toInt
  | int value => some value
  | word _ value => some value.val
  | _ => none

def inWord (format : IntFormat) : Number → Outcome Int
  | int value => if format.Holds value then .ok value else .error .tooLarge
  | other => match other.integer? with
    | some value => .ok value
    | none => .error .unsupported

def combineWhole (operation : Operation) (left right : Number) : Outcome Number :=
  match left.wholePart?, right.wholePart? with
  | some left, some right => .ok (.int (operation.onInts left right))
  | _, _ =>
    match left.meeting right with
    | .word format => do return .ofWord format (operation.onInts (← left.inWord format) (← right.inWord format))
    | _ => .error .unsupported

def divideWhole (number : Number) (divisor : Nat) : Outcome Number :=
  match number with
  | word format value => do return .ofWord format (value.val / (← inWord format (.int divisor)))
  | other => match other.wholePart? with
    | some value => .ok (.int (value / divisor))
    | none => .error .unsupported

/-- A numerator, plain or a word, over a denominator. -/
structure Ratio where
  numerator : Number
  denominator : Nat

namespace Ratio

def numeratorGcd (ratio : Ratio) (divisor : Nat) : Nat := Nat.gcd (ratio.numerator.integer?.getD 0).natAbs divisor

def reduce (ratio : Ratio) (divisor : Nat) : Outcome Number :=
  if 1 < divisor then ratio.numerator.divideWhole divisor else .ok ratio.numerator

def addOrSub (operation : Operation) (left right : Ratio) : Outcome Ratio := do
  let common := Nat.gcd left.denominator right.denominator
  let scale := left.denominator / common
  let total ← (← combineWhole .mul left.numerator (.int (right.denominator / common : Nat))).combineWhole operation
    (← combineWhole .mul right.numerator (.int scale))
  let shared := numeratorGcd ⟨total, 1⟩ common
  return ⟨← reduce ⟨total, 1⟩ shared, scale * (right.denominator / shared)⟩

def mul (left right : Ratio) : Outcome Ratio := do
  let first := left.numeratorGcd right.denominator
  let second := right.numeratorGcd left.denominator
  let numerator ← combineWhole .mul (← left.reduce first) (← right.reduce second)
  return ⟨numerator, (right.denominator / first) * (left.denominator / second)⟩

def combine : Operation → Ratio → Ratio → Outcome Ratio
  | .mul => mul
  | operation => addOrSub operation

def toNumber (ratio : Ratio) : Outcome Number :=
  if positive : 0 < ratio.denominator then
    match ratio.numerator with
    | .word format value => .ok (.quotient format ⟨value, ratio.denominator, positive⟩)
    | other => match other.wholePart? with
      | some value => .ok (.fraction (mkRat value ratio.denominator))
      | none => .error .unsupported
  else .error .divisionByZero

end Ratio

def ratio? : Number → Option Ratio
  | fraction value => some ⟨.int value.num, value.den⟩
  | quotient format value => some ⟨.word format value.numerator, value.denominator⟩
  | other => other.wholePart?.map fun value => ⟨.int value, 1⟩

/-- Both numbers plain: whole, rational, a ratio over a word, decimal, real or complex, the first of these that
    holds both. -/
def combinePlain (operation : Operation) (left right : Number) : Outcome Number :=
  match left.wholePart?, right.wholePart? with
  | some left, some right => .ok (.int (operation.onInts left right))
  | _, _ =>
    match left.rationalPart?, right.rationalPart? with
    | some left, some right => .ok (.fraction (operation.onRats left right))
    | _, _ =>
      match left.ratio?, right.ratio? with
      | some left, some right => do (← left.combine operation right).toNumber
      | _, _ =>
        match left.decimalPart?, right.decimalPart? with
        | some left, some right => do return .decimal (← operation.onDecimals left right)
        | _, _ =>
          if left.kind = .complex ∨ right.kind = .complex then do
            return .complex (operation.onPairs (← left.complexPart) (← right.complexPart))
          else do
            return .float (operation.onReals (← left.floatPart) (← right.floatPart))

def inReal (format : BinaryFormat) : Number → Outcome (Binary format)
  | int value => do return (← finiteReal (.ofInt .double value)).convert format
  | float value => .ok (value.convert format)
  | real _ value => .ok (value.convert format)
  | other => match other.integer? with
    | some value => .ok (.ofInt format value)
    | none => .error .unsupported

def inPair (format : BinaryFormat) : Number → Outcome (Complex format)
  | complex value => .ok (value.convert format)
  | pair _ value => .ok (value.convert format)
  | other => do return .ofReal (← other.inReal format)

def inFlag : Number → Outcome Bool
  | bool value | flag value => .ok value
  | _ => .error .unsupported

def combineStored (operation : Operation) (left right : Number) : Outcome Number :=
  match left.meeting right with
  | .flag => do return .flag (← operation.onFlags (← left.inFlag) (← right.inFlag))
  | .word format => do return .ofWord format (operation.onInts (← left.inWord format) (← right.inWord format))
  | .real format => do return .real format (operation.onReals (← left.inReal format) (← right.inReal format))
  | .pair format => do return .pair format (operation.onPairs (← left.inPair format) (← right.inPair format))
  | .object => combinePlain operation left.toPlain right.toPlain

/-- A rational on the left of a stored number of the widest real format becomes a float first. -/
def combine (operation : Operation) (left right : Number) : Outcome Number :=
  match left, right with
  | .fraction _, .real .double _ | .fraction _, .pair .double _ | .quotient .., .real .double _
  | .quotient .., .pair .double _ => do combineStored operation (.float (← left.floatPart)) right
  | _, _ =>
    if left.storage?.isSome ∨ right.storage?.isSome then combineStored operation left right
    else combinePlain operation left right

def neg : Number → Outcome Number
  | bool value => .ok (.int (-value.toInt))
  | int value => .ok (.int (-value))
  | float value => .ok (.float value.neg)
  | complex value => .ok (.complex value.neg)
  | fraction value => .ok (.fraction (-value))
  | quotient format value => .ok (.quotient format { value with numerator := .wrap format (-value.numerator.val) })
  | decimal value => do return .decimal (← value.neg.mapError .ofDecimal)
  | flag _ => .error .unsupported
  | word format value => .ok (.ofWord format (-value.val))
  | real format value => .ok (.real format value.neg)
  | pair format value => .ok (.pair format value.neg)

@[simp] theorem combine_word (operation : Operation) (format : IntFormat) (left right : Word format) :
    combine operation (.word format left) (.word format right) =
      .ok (.ofWord format (operation.onInts left.val right.val)) := by
  have same : meeting (.word format left) (.word format right) = .word format :=
    Storage.join_self (.word format)
  simp only [combine, storage?, kind, Option.isSome_some, true_or, if_true, combineStored, same, inWord, integer?]
  rfl

@[simp] theorem combine_real (operation : Operation) (format : BinaryFormat) (left right : Binary format) :
    combine operation (.real format left) (.real format right) =
      .ok (.real format (operation.onReals left right)) := by
  have same : meeting (.real format left) (.real format right) = .real format :=
    Storage.join_self (.real format)
  simp only [combine, storage?, kind, Option.isSome_some, true_or, if_true, combineStored, same, inReal,
    Binary.convert_self]
  rfl

end Number

namespace Value

def repetitions (times : Number) : Outcome Nat :=
  match times with
  | .flag _ => .error .unsupported
  | _ =>
    match times.integer? with
    | some count => if IntFormat.int64.Holds count then .ok count.toNat else .error .tooLarge
    | Option.none => .error .unsupported

def repeatText (characters : String) (count : Nat) : String := String.join (List.replicate count characters)

def repeatItems (items : List Value) (count : Nat) : List Value := (List.replicate count items).flatten

def combineScalars (operation : Operation) : Value → Value → Outcome Value
  | number left, number right => do return .number (← left.combine operation right)
  | text left, text right => if operation = .add then .ok (.text (left ++ right)) else .error .unsupported
  | list left, list right => if operation = .add then .ok (.list (left ++ right)) else .error .unsupported
  | tuple left, tuple right => if operation = .add then .ok (.tuple (left ++ right)) else .error .unsupported
  | text characters, number times | number times, text characters =>
    if operation = .mul then do return .text (repeatText characters (← repetitions times))
    else .error .unsupported
  | list items, number times | number times, list items =>
    if operation = .mul then do return .list (repeatItems items (← repetitions times)) else .error .unsupported
  | tuple items, number times | number times, tuple items =>
    if operation = .mul then do return .tuple (repeatItems items (← repetitions times)) else .error .unsupported
  | _, _ => .error .unsupported

def resultStorage (left right : Value) : Storage :=
  match left, right with
  | array left .., array right .. => left.join right
  | array storage .., number other | number other, array storage .. =>
    match other.storage? with
    | some stored => storage.join stored
    | Option.none => storage.joinPlain other.kind
  | _, _ => .object

/-- The entries of two arrays side by side; a single entry stands beside every other. -/
def besides (leftShape rightShape : List Nat) (left right : List Value) :
    Outcome (List Nat × List (Value × Value)) :=
  if leftShape = rightShape then .ok (leftShape, left.zip right)
  else match left, right with
    | [single], _ => .ok (rightShape, right.map (single, ·))
    | _, [single] => .ok (leftShape, left.map (·, single))
    | _, _ => .error .invalid

def combine (operation : Operation) (left right : Value) : Outcome Value :=
  match left, right with
  | array _ leftShape _ leftEntries, array _ rightShape _ rightEntries => do
    let (shape, pairs) ← besides leftShape rightShape leftEntries rightEntries
    let entries ← pairs.mapM fun (left, right) => combineScalars operation left right
    return .array (resultStorage left right) shape true entries
  | array _ shape _ entries, number _ => do
    return .array (resultStorage left right) shape true (← entries.mapM (combineScalars operation · right))
  | number _, array _ shape _ entries => do
    return .array (resultStorage left right) shape true (← entries.mapM (combineScalars operation left ·))
  | _, _ => combineScalars operation left right

def add (left right : Value) : Outcome Value := combine .add left right

def sub (left right : Value) : Outcome Value := combine .sub left right

def mul (left right : Value) : Outcome Value := combine .mul left right

def neg : Value → Outcome Value
  | number value => do return .number (← value.neg)
  | array storage shape _ entries =>
    if storage = .flag then .error .unsupported
    else do
      let entries ← entries.mapM fun
        | number entry => do return Value.number (← entry.neg)
        | _ => .error .unsupported
      return .array storage shape true entries
  | _ => .error .unsupported

def sum (values : List Value) : Outcome Value := values.foldlM add (.int 0)

end Value

end EnergyTables
