import EnergyTables.Value.Conversion

namespace EnergyTables

structure Slice where
  start : Value
  stop : Value
  step : Value

/-- The bounds of a slice within a sequence: the indices `start`, `start + step`, … short of `stop`. -/
structure SliceRange where
  start : Int
  stop : Int
  step : Int
deriving DecidableEq, Repr

namespace SliceRange

def size (range : SliceRange) : Nat :=
  if 0 < range.step then ((range.stop - range.start + range.step - 1) / range.step).toNat
  else ((range.start - range.stop - range.step - 1) / -range.step).toNat

def clamp (length low high bound : Int) : Int :=
  if bound < 0 then max low (bound + length) else min high bound

end SliceRange

namespace Slice

def bound? (value : Value) : Outcome (Option Int) :=
  match value with
  | .none => .ok none
  | other => do return some (← other.asIndex)

def within (slice : Slice) (length : Int) : Outcome SliceRange := do
  let step := (← bound? slice.step).getD 1
  if step = 0 then throw .invalid
  let start ← bound? slice.start
  let stop ← bound? slice.stop
  if 0 < step then
    let place := SliceRange.clamp length 0 length
    return ⟨(start.map place).getD 0, (stop.map place).getD length, step⟩
  else
    let place := SliceRange.clamp length (-1) (length - 1)
    return ⟨(start.map place).getD (length - 1), (stop.map place).getD (-1), step⟩

end Slice

namespace UnitWeight

def ofLength (length : Value) : Outcome Number := do
  if ← length.less (.int 0) then refuse (.negativeUnitWeight length)
  match length with
  | .number length => return length
  | _ => throw .unsupported

def slice (length : Number) (slice : Slice) : Outcome Nat := do
  let range ← slice.within (← (Value.number length).asIndex)
  if range.size < Value.sizeLimit then return range.size else throw .tooLarge

def items (length : Number) : Outcome (List Value) := do
  match Value.unitLength length with
  | .error .tooLarge => throw .tooLarge
  | _ => (Value.unitWeight length).items

def reversed (length : Number) : Outcome (List Value) := do
  (List.range (← Value.unitLength length)).reverse.mapM fun (index : Nat) => Value.unitAt length (.int index)

def contains (length : Number) (value : Value) : Outcome Bool := do
  match ← Value.unitCount length with
  | 0 => return false
  | _ => (Value.int 1).equal value

def count (length : Number) (value : Value) : Outcome Nat := do
  let size ← Value.unitCount length
  return if ← contains length value then size else 0

def searchStart (length : Number) (start : Int) : Outcome Int := do
  if start < 0 then return max ((← Value.unitLength length) + start) 0 else return start

def searchStop (length : Number) (stop : Int) : Outcome Int := do
  if stop < 0 then return stop + (← Value.unitLength length) else return stop

def index (length : Number) (value : Value) (start : Int) (stop : Option Int) : Outcome Int := do
  let start ← searchStart length start
  let reached ← match stop with
    | none => pure true
    | some stop => do pure (decide (start < (← searchStop length stop)))
  if !reached then throw .invalid
  match Value.unitAt length (.int start) with
  | .ok one => if ← one.equal value then return start else throw .invalid
  | .error (.unitWeightIndex _ _) => throw .invalid
  | .error fault => throw fault

end UnitWeight

end EnergyTables
