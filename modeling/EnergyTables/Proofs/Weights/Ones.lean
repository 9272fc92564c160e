import EnergyTables.Proofs.Selection.Weights
import EnergyTables.Proofs.Value.Slices

namespace EnergyTables

namespace Value

end Value

namespace Items

def slice (items : List Value) (slice : Slice) : Outcome (List Value) := do
  let step := (← Slice.bound? slice.step).getD 1
  if step = 0 then throw .invalid
  let start ← Slice.bound? slice.start
  let stop ← Slice.bound? slice.stop
  return (Slice.places items.length start stop step).filterMap (items[·]?)

def contains (items : List Value) (value : Value) : Outcome Bool := items.anyM (·.equal value)

def count (items : List Value) (value : Value) : Outcome Nat :=
  items.foldlM (fun found item => do return if ← item.equal value then found + 1 else found) 0

def index (items : List Value) (value : Value) (start : Int) (stop : Option Int) : Outcome Int := do
  let places := Slice.places items.length (some start) stop 1
  match ← places.findM? fun place => (items.getD place .none).equal value with
  | some place => return place
  | none => throw .invalid

open Value

end Items

def Fault.ofList : Fault → Fault
  | unitWeightIndex _ _ => indexOutOfRange
  | other => other

namespace UnitWeight

open Value

/-- The items that reading gives, one index after another from the first on, up to a stop or to an index without item. -/
inductive Reads (length : Number) (stop : Option Int) : Int → List Value → Prop
  | stopped {index bound : Int} (isStop : stop = some bound) (reached : bound ≤ index) : Reads length stop index []
  | absent {index : Int} (before : ∀ bound ∈ stop, index < bound)
      (none : unitAt length (int index) = .error (.unitWeightIndex (int index) (number length))) :
      Reads length stop index []
  | read {index : Int} {item : Value} {rest : List Value} (before : ∀ bound ∈ stop, index < bound)
      (found : unitAt length (int index) = .ok item) (others : Reads length stop (index + 1) rest) :
      Reads length stop index (item :: rest)

section Ones

variable {length : Nat}

end Ones

end UnitWeight

end EnergyTables
