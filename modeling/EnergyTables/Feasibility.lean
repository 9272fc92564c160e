import EnergyTables.Codec
import EnergyTables.Sentinel

namespace EnergyTables

structure SolutionSize where
  size : Value
  isValid : Bool

namespace Problem

def keepViolated (configuration : Value) : List HardConstraint → Outcome (List HardConstraint)
  | [] => .ok []
  | constraint :: rest => do
    let values ← Constraint.localValues configuration constraint.scope
    if ← constraint.satisfied (.list values) then keepViolated configuration rest
    else return constraint :: (← keepViolated configuration rest)

def violatedConstraints (problem : Problem) (configuration : Value) : Outcome (List HardConstraint) := do
  let _ ← problem.configurationId configuration
  keepViolated configuration (← problem.hardConstraints)

def isFeasible (problem : Problem) (configuration : Value) : Outcome Bool := do
  return (← problem.violatedConstraints configuration).isEmpty

def localEnergy (configuration : Value) (constraint : SoftConstraint) : Outcome Value := do
  constraint.energy (.list (← Constraint.localValues configuration constraint.scope))

def directEnergy (problem : Problem) (configuration : Value) : Outcome Value := do
  let kind ← problem.energyKind
  let zero ← kind.zero
  let sentinel ← kind.sentinel
  let violated ← problem.violatedConstraints configuration
  let total ← violated.foldlM (fun total _ => total.add sentinel) zero
  (← problem.softConstraints).foldlM (fun total constraint => do
    total.add (← kind.convert (← localEnergy configuration constraint))) total

/-- The sum of the soft energies in their own types, with the sign of a size. -/
def solutionSize (problem : Problem) (configuration : Value) : Outcome SolutionSize := do
  let isValid ← problem.isFeasible configuration
  let total ← (← problem.softConstraints).foldlM (fun total constraint => do
    total.add (← localEnergy configuration constraint)) (.int 0)
  let size ← match problem.sense with
    | .minimize => pure total
    | .maximize => total.neg
  return ⟨size, isValid⟩

end Problem

end EnergyTables
