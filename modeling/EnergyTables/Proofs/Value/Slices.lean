import EnergyTables.UnitWeight
import EnergyTables.Proofs.Outcome
import Mathlib.Data.List.Sort

namespace EnergyTables

namespace Slice

def between (start stop step : Option Int) : Slice :=
  ⟨(start.map Value.int).getD .none, (stop.map Value.int).getD .none, (step.map Value.int).getD .none⟩

/-- A bound as a place of a sequence, counted from the end when negative. -/
def placed (count : Nat) (bound : Int) : Int := if bound < 0 then bound + count else bound

/-- Where a slice begins: not before the first place on the way up, and not after the last on the way down. -/
def origin (count : Nat) (start : Option Int) (step : Int) : Int :=
  if 0 < step then max 0 ((start.map (placed count)).getD 0)
  else min (count - 1) ((start.map (placed count)).getD (count - 1))

/-- The place before which a slice ends, if it does not run out of places. -/
def limit (count : Nat) (stop : Option Int) (step : Int) : Int :=
  (stop.map (placed count)).getD (if 0 < step then count else -1)

/-- The place lies whole steps on from where the slice begins, and before it ends. -/
def Takes (count : Nat) (start stop : Option Int) (step : Int) (place : Nat) : Prop :=
  step ∣ place - origin count start step ∧
    if 0 < step then origin count start step ≤ place ∧ place < limit count stop step
    else place ≤ origin count start step ∧ limit count stop step < place

instance (count : Nat) (start stop : Option Int) (step : Int) : DecidablePred (Takes count start stop step) := by
  intro place
  unfold Takes
  infer_instance

def places (count : Nat) (start stop : Option Int) (step : Int) : List Nat :=
  let taken := (List.range count).filter (Takes count start stop step)
  if 0 < step then taken else taken.reverse

end Slice

namespace SliceRange

def indices (range : SliceRange) : List Int :=
  (List.range range.size).map fun (steps : Nat) => range.start + steps * range.step

end SliceRange

namespace Slice

variable {count : Nat} {start stop : Option Int} {step : Int}

end Slice

end EnergyTables
