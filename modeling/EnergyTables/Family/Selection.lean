import EnergyTables.Problem
import EnergyTables.Graph

namespace EnergyTables.Selection

def flavors : List Value := [.int 0, .int 1]

def isOne (value : Value) : Outcome Bool := value.equal (.int 1)

def isZero (value : Value) : Outcome Bool := value.equal (.int 0)

def all (test : Value → Outcome Bool) : List Value → Outcome Bool
  | [] => .ok true
  | value :: rest => do
    if ← test value then all test rest else return false

def someUnselected (scope : List Int) (configuration : Value) : Outcome Bool := do
  Constraint.checkArity scope configuration
  return !(← all isOne (← configuration.items))

def someSelected (scope : List Int) (configuration : Value) : Outcome Bool := do
  Constraint.checkArity scope configuration
  return !(← all isZero (← configuration.items))

def cost (scope : List Int) (weight configuration : Value) : Outcome Value := do
  Constraint.checkArity scope configuration
  weight.mul (← configuration.itemAt 0)

def gain (scope : List Int) (weight configuration : Value) : Outcome Value := do
  Constraint.checkArity scope configuration
  (← weight.neg).mul (← configuration.itemAt 0)

def onEdges (graph : Graph) (tag : String) (satisfied : List Int → Value → Outcome Bool) :
    Outcome (List HardConstraint) := do
  (← graph.sortedEdges).mapM fun (source, target) => do
    let scope ← Constraint.scopeOf (.tuple [source, target])
    return ⟨scope, tag, satisfied scope⟩

def onItems (count : Nat) (weights : Value) (tag : String) (energy : List Int → Value → Value → Outcome Value) :
    Outcome (List SoftConstraint) :=
  (List.range count).mapM fun (index : Nat) => do
    let scope := [(index : Int) + 1]
    let weight ← weights.itemAt index
    return ⟨scope, tag, weight, energy scope weight⟩

end EnergyTables.Selection
