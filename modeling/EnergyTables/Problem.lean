import EnergyTables.Constraint
import EnergyTables.Weights

namespace EnergyTables

inductive Sense
  | minimize
  | maximize
deriving DecidableEq, Repr

structure ProblemSize where
  name : String
  counts : List (String × Int)
deriving DecidableEq, Repr

/-- Variables numbered from one, each to be given one of the flavors, and constraints on them. Lower energy is better; a
    problem that maximizes a size has the negated sizes as energies. -/
structure Problem where
  className : String
  sense : Sense
  variableCount : Int
  flavors : List Value
  weights? : Option Value
  size : Outcome ProblemSize
  hardConstraints : Outcome (List HardConstraint)
  softConstraints : Outcome (List SoftConstraint)

namespace Sense

def name : Sense → String
  | minimize => "min"
  | maximize => "max"

end Sense

/-- So many binary digits of the logarithm of `mantissa / 2 ^ places`, which lies from one to below two, are put
    after the digits found before; each squaring of the mantissa gives one more. -/
def logarithmDigits (places : Nat) : (count : Nat) → (mantissa found : Nat) → Nat
  | 0, _, found => found
  | count + 1, mantissa, found =>
    let squared := (mantissa * mantissa) >>> places
    if 1 <<< (places + 1) ≤ squared then logarithmDigits places count (squared / 2) (2 * found + 1)
    else logarithmDigits places count squared (2 * found)

def binaryLogarithm (value : Nat) : Binary .double :=
  let whole := value.log2
  let mantissa := (value <<< 200) >>> whole
  .ofRatio .double false (logarithmDigits 200 80 mantissa whole) (1 <<< 80)

namespace Problem

def variableNumbers (problem : Problem) : List Int :=
  (List.range problem.variableCount.toNat).map fun (index : Nat) => (index : Int) + 1

def flavorCount (problem : Problem) : Nat := problem.flavors.length

def weights (problem : Problem) : Outcome Value :=
  match problem.weights? with
  | some weights => .ok weights
  | none => .error .absentPart

/-- Whether there are weights and they are not the unit weights; ones that are held do count. -/
def isWeighted (problem : Problem) : Bool :=
  match problem.weights? with
  | none | some (.unitWeight _) => false
  | some _ => true

def weightKind (problem : Problem) : Outcome Kind := do Weights.kind (← problem.weights)

def energyKind (problem : Problem) : Outcome Kind :=
  match problem.weights? with
  | none => .ok (.stored (.word .int64))
  | some weights => do return (← Weights.kind weights).energyKind

def spaceBits (problem : Problem) : Outcome (Binary .double) :=
  if problem.flavorCount = 0 then .error .invalid
  else do
    let count ← Number.finiteReal (.ofInt .double problem.variableCount)
    return (binaryLogarithm problem.flavorCount).mul count

end Problem

end EnergyTables
