import EnergyTables.Problem

namespace EnergyTables

structure ForbiddenRule where
  scope : Value
  forbidden : List Value

/-- What an assignment costs before the weight: its entry or a default, or its digits in a base. -/
inductive CostRule where
  | listed (costs : List (Value × Value)) (default : Value)
  | positional (base : Value)

structure WeightedRule where
  scope : Value
  weight : Value
  cost : CostRule

structure Custom where
  variableCount : Int
  flavors : List Value
  soft : List WeightedRule
  hard? : Option (List ForbiddenRule)
  hasTest : Bool
  weights? : Option Value

namespace Custom

def isAbsent (value : Value) : List Value → Outcome Bool
  | [] => .ok true
  | other :: rest => do
    if ← other.equal value then return false else isAbsent value rest

def isAllowed (scope : List Int) (forbidden : List Value) (configuration : Value) : Outcome Bool := do
  Constraint.checkArity scope configuration
  isAbsent (.list (← configuration.items)) forbidden

def power (base : Value) : Nat → Outcome Value
  | 0 => (Value.int 1).mul (.int 1)
  | exponent + 1 => do (← power base exponent).mul base

def positionalCost (base : Value) (values : List Value) : Outcome Value :=
  values.zipIdx.foldlM (fun total (value, exponent) => do
    total.add (← value.mul (← power base exponent))) (.int 0)

def listedCost (costs : List (Value × Value)) (default key : Value) : Outcome Value :=
  match costs with
  | [] => .ok default
  | (listed, cost) :: rest => do
    if ← listed.equal key then return cost else listedCost rest default key

def CostRule.apply (rule : CostRule) (values : List Value) : Outcome Value :=
  match rule with
  | .positional base => positionalCost base values
  | .listed costs default => listedCost costs default (.list values)

def energy (scope : List Int) (weight : Value) (cost : CostRule) (configuration : Value) : Outcome Value := do
  Constraint.checkArity scope configuration
  weight.mul (← CostRule.apply cost (← configuration.items))

def className (custom : Custom) : String :=
  match custom.hard? with
  | none => "BareCustom"
  | some _ => if custom.hasTest then "Custom" else "HardCustom"

def satisfied (custom : Custom) (scope : List Int) (forbidden : List Value) (configuration : Value) :
    Outcome Bool :=
  match custom.hard? with
  | some _ =>
    if custom.hasTest then isAllowed scope forbidden configuration
    else refuse (.noHardConstraints custom.className)
  | none => refuse (.noHardConstraints custom.className)

def problem (custom : Custom) : Problem where
  className := custom.className
  sense := .minimize
  variableCount := custom.variableCount
  flavors := custom.flavors
  weights? := custom.weights?
  size := .ok ⟨"CustomSize", [("num_variables", custom.variableCount)]⟩
  hardConstraints := (custom.hard?.getD []).mapM fun rule => do
    let scope ← Constraint.scopeOf rule.scope
    return ⟨scope, "custom", custom.satisfied scope rule.forbidden⟩
  softConstraints := custom.soft.mapM fun rule => do
    let scope ← Constraint.scopeOf rule.scope
    return ⟨scope, "custom", rule.weight, energy scope rule.weight rule.cost⟩

end Custom

end EnergyTables
