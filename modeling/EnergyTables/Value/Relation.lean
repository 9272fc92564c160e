import EnergyTables.Value.Arithmetic
import EnergyTables.Value.Exact

namespace EnergyTables

inductive Relation
  | equal
  | less
  | lessEqual
deriving DecidableEq, Repr

namespace Relation

def onInts : Relation → Int → Int → Bool
  | equal, left, right => left = right
  | less, left, right => left < right
  | lessEqual, left, right => left ≤ right

def onReals {format : BinaryFormat} : Relation → Binary format → Binary format → Bool
  | equal => Binary.equal
  | less => Binary.less
  | lessEqual => Binary.lessEqual

def onPairs {format : BinaryFormat} : Relation → Complex format → Complex format → Bool
  | equal => Complex.equal
  | less => Complex.less
  | lessEqual => Complex.lessEqual

def onExact : Relation → Exact → Exact → Bool
  | equal, left, right => left.equal right
  | less, left, right => left.less right
  | lessEqual, left, right => left.less right || left.equal right

end Relation

namespace Number

def isSignaling : Number → Bool
  | decimal (.nan _ true _) => true
  | _ => false

def isDecimalNaN : Number → Bool
  | decimal (.nan ..) => true
  | _ => false

def isWord : Number → Bool
  | word .. => true
  | _ => false

/-- Whether a word takes part in the comparison of a fraction with this number. -/
def holdsWord : Number → Bool
  | word .. | quotient .. => true
  | _ => false

def finiteRatio? (number : Number) : Option Ratio :=
  match number with
  | word format value => some ⟨.word format value, 1⟩
  | quotient format value => some ⟨.word format value.numerator, value.denominator⟩
  | other => other.exactRe.toRat?.map fun value => ⟨.int value.num, value.den⟩

/-- Fractions compare by the products across, each in the format of its numerator. -/
def relateRatios (relation : Relation) (left right : Ratio) : Outcome Bool := do
  let lower ← combineWhole .mul left.numerator (.int right.denominator)
  let upper ← combineWhole .mul (.int left.denominator) right.numerator
  return relation.onInts (lower.integer?.getD 0) (upper.integer?.getD 0)

def relatePlain (relation : Relation) (left right : Number) : Outcome Bool :=
  if relation = .equal then
    if left.isSignaling || right.isSignaling then .error .decimalInvalid else .ok (left.sameValue right)
  else if left.isComplex || right.isComplex then .error .unsupported
  else if left.isDecimalNaN || right.isDecimalNaN then .error .decimalInvalid
  else if left.holdsWord || right.holdsWord then
    match left.finiteRatio?, right.finiteRatio? with
    | some left, some right => relateRatios relation left right
    | _, _ => .ok (relation.onExact left.exactRe right.exactRe)
  else .ok (relation.onExact left.exactRe right.exactRe)

/-- Two numbers without a format in common. A fraction meets a word on its right as it stands. -/
def relateApart (relation : Relation) (left right : Number) : Outcome Bool :=
  relatePlain relation left.toPlain (if left.kind = .fraction && right.isWord then right else right.toPlain)

def relateStored (relation : Relation) (left right : Number) : Outcome Bool :=
  match left.integer?, right.integer? with
  | some left, some right => .ok (relation.onInts left right)
  | _, _ =>
    match left.meeting right with
    | .real format =>
      match left.inReal format, right.inReal format with
      | .ok left, .ok right => .ok (relation.onReals left right)
      | _, _ => relatePlain relation left.toPlain right.toPlain
    | .pair format =>
      match left.inPair format, right.inPair format with
      | .ok left, .ok right => .ok (relation.onPairs left right)
      | _, _ => relatePlain relation left.toPlain right.toPlain
    | _ => relateApart relation left right

def relate (relation : Relation) (left right : Number) : Outcome Bool :=
  if left.storage?.isSome ∨ right.storage?.isSome then relateStored relation left right
  else relatePlain relation left right

@[simp] theorem relate_word (relation : Relation) (format : IntFormat) (left right : Word format) :
    relate relation (.word format left) (.word format right) = .ok (relation.onInts left.val right.val) := rfl

end Number

end EnergyTables
