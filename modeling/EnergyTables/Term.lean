import EnergyTables.Problem
import EnergyTables.Sentinel

namespace EnergyTables

/-- The table of a constraint: an energy for every assignment of flavors to its variables. The assignment with flavor
    positions `p` stands at the address `∑ strides[i] * (p[i] - 1)`, the strides being the powers of the number of
    flavors. -/
structure Term where
  scope : List Int
  flavors : List Value
  strides : List Int
  storage : Storage
  energies : Array Value

namespace Term

/-- The assignment at an address, the first variable changing fastest. -/
def assignment (flavors : List Value) : (arity : Nat) → (address : Nat) → List Value
  | 0, _ => []
  | arity + 1, address =>
    flavors.getD (address % flavors.length) .none :: assignment flavors arity (address / flavors.length)

def powers (flavorCount arity : Nat) : List Int := (List.range arity).map fun index => (flavorCount.pow index : Int)

def cell (storage : Storage) (value : Value) : Outcome Value :=
  match storage, value with
  | .object, _ => .ok value
  | .pair _, .array .. => .error .unsupported
  | _, .array .. => .error .invalid
  | _, _ => .ok value

def storageOf : Kind → Storage
  | .stored storage => storage
  | _ => .object

def compile (scope : List Int) (flavors : List Value) (storage : Storage)
    (energy : List Value → Outcome Value) : Outcome Term := do
  let arity := scope.length
  let energies ← (List.range (flavors.length.pow arity)).mapM fun address => do
    cell storage (← energy (assignment flavors arity address))
  return ⟨scope, flavors, powers flavors.length arity, storage, energies.toArray⟩

end Term

namespace Problem

def hardTerm (problem : Problem) (storage : Storage) (zero sentinel : Value) (constraint : HardConstraint) :
    Outcome Term := do
  Constraint.checkVariables problem.variableCount constraint.scope
  Term.compile constraint.scope problem.flavors storage fun values => do
    return if ← constraint.satisfied (.list values) then zero else sentinel

def softTerm (problem : Problem) (kind : Kind) (constraint : SoftConstraint) : Outcome Term := do
  Constraint.checkVariables problem.variableCount constraint.scope
  Term.compile constraint.scope problem.flavors (Term.storageOf kind) fun values => do
    kind.convert (← constraint.energy (.list values))

structure Tables where
  hard : List Term
  soft : List Term

def Tables.terms (tables : Tables) : List Term := tables.hard ++ tables.soft

def tables (problem : Problem) : Outcome Tables := do
  let kind ← problem.energyKind
  let zero ← kind.zero
  let sentinel ← kind.sentinel
  let hard ← (← problem.hardConstraints).mapM (problem.hardTerm (Term.storageOf kind) zero sentinel)
  let soft ← (← problem.softConstraints).mapM (problem.softTerm kind)
  return ⟨hard, soft⟩

def energyTerms (problem : Problem) : Outcome (List Term) := do return (← problem.tables).terms

end Problem

end EnergyTables
