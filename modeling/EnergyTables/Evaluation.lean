import EnergyTables.Codec
import EnergyTables.Term

namespace EnergyTables

namespace Term

def positionOf (term : Term) (id : Value) (variableIndex : Int) : Outcome Value := do
  let position ← id.itemAt (variableIndex - 1)
  if ← position.between 1 term.flavors.length then return position
  else refuse (.variablePositionOutside position variableIndex term.flavors.length)

def address (term : Term) (id : Value) : Outcome Value :=
  (term.strides.zip term.scope).foldlM (fun address (stride, variableIndex) => do
    let position ← term.positionOf id variableIndex
    address.add (← (Value.int stride).mul (← position.sub (.int 1)))) (.int 0)

/-- The entry at an address, counted from the end when negative. -/
def entry (term : Term) (address : Value) : Outcome Value :=
  match address.asIndex with
  | .ok index =>
    let place := if index < 0 then index + term.energies.size else index
    if place < 0 then .error .indexOutOfRange else Value.orOutOfRange term.energies[place.toNat]?
  | .error _ => .error .indexOutOfRange

def lookUp (term : Term) (id : Value) : Outcome Value := do term.entry (← term.address id)

end Term

/-- The sum of the entries of an id, beginning at the zero of the kind given or else at that of the first table. -/
def energyById (terms : List Term) (id : Value) (kind : Option Kind) : Outcome Value := do
  let zero ← match kind, terms with
    | some kind, _ => kind.zero
    | none, term :: _ => (Kind.stored term.storage).zero
    | none, [] => .ok (.int 0)
  terms.foldlM (fun total term => do total.add (← term.lookUp id)) zero

structure EnergyRun where
  energies : List Value
  fault : Option Fault

namespace EnergyRun

def ofIds (energy : Value → Outcome Value) : List Value → EnergyRun
  | [] => ⟨[], none⟩
  | id :: ids =>
    match energy id with
    | .ok value =>
      let rest := ofIds energy ids
      ⟨value :: rest.energies, rest.fault⟩
    | .error fault => ⟨[], some fault⟩

end EnergyRun

namespace Problem

def energiesById (problem : Problem) (ids : Value) : Outcome EnergyRun := do
  let terms ← problem.energyTerms
  let kind ← problem.energyKind
  return EnergyRun.ofIds (energyById terms · (some kind)) (← ids.items)

def energy (problem : Problem) (configuration : Value) : Outcome Value := do
  let id ← problem.configurationId configuration
  let terms ← problem.energyTerms
  energyById terms (.list (id.map fun (position : Nat) => .int position)) (some (← problem.energyKind))

end Problem

end EnergyTables
