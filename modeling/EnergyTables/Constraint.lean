import EnergyTables.Value.Conversion

namespace EnergyTables

structure HardConstraint where
  scope : List Int
  tag : String
  satisfied : Value → Outcome Bool

structure SoftConstraint where
  scope : List Int
  tag : String
  weight : Value
  energy : Value → Outcome Value

namespace Constraint

def scopeOf (given : Value) : Outcome (List Int) := do
  let numbers ← (← given.items).mapM Value.toInt
  if numbers.Nodup then return numbers else refuse (.repeatedVariables numbers)

def checkArity (scope : List Int) (configuration : Value) : Outcome Unit := do
  let given ← configuration.length
  if given ≠ scope.length then refuse (.arity given scope)

def checkVariables (variableCount : Int) (scope : List Int) : Outcome Unit :=
  scope.forM fun index =>
    if 1 ≤ index ∧ index ≤ variableCount then .ok () else refuse (.variableOutside index variableCount)

def localValues (configuration : Value) (scope : List Int) : Outcome (List Value) :=
  scope.mapM fun index => configuration.itemAt (index - 1)

end Constraint

end EnergyTables
