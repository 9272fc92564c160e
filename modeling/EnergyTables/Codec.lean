import EnergyTables.Problem

namespace EnergyTables

namespace Flavor

def positionFrom (value : Value) : (position : Nat) → List Value → Outcome (Option Nat)
  | _, [] => .ok none
  | position, flavor :: flavors => do
    if ← flavor.equal value then return some position else positionFrom value (position + 1) flavors

def position (flavors : List Value) (value : Value) : Outcome Nat := do
  match ← positionFrom value 1 flavors with
  | some position => return position
  | none => refuse (.unknownFlavor value flavors)

def atPosition (flavors : List Value) (position : Value) : Outcome Value := do
  if !(← position.between 1 flavors.length) then refuse (.positionOutside position flavors.length)
  Value.orOutOfRange (itemAt? flavors (← (← position.sub (.int 1)).asIndex))

def logical (flavors : List Value) (flavor : Value) : Outcome Bool :=
  match flavors with
  | [no, yes] => do
    if ← flavor.equal no then return false
    if ← flavor.equal yes then return true
    refuse (.notALogicalFlavor flavors flavor)
  | _ => refuse (.flavorsNotTwo flavors.length)

end Flavor

namespace Problem

def configurationId (problem : Problem) (configuration : Value) : Outcome (List Nat) := do
  let given ← configuration.length
  if (given : Int) ≠ problem.variableCount then
    refuse (.configurationLength given "problem" problem.variableCount "variables")
  (← configuration.items).mapM (Flavor.position problem.flavors)

def configurationOf (problem : Problem) (id : Value) : Outcome (List Value) := do
  (← id.items).mapM (Flavor.atPosition problem.flavors)

end Problem

end EnergyTables
