import EnergyTables.Value.Order

namespace EnergyTables

def itemAt? {α : Type} (items : List α) (index : Int) : Option α :=
  if 0 ≤ index then items[index.toNat]?
  else if 0 ≤ index + items.length then items[(index + items.length).toNat]?
  else none

theorem itemAt?_natCast {α : Type} (items : List α) (index : Nat) : itemAt? items index = items[index]? := by
  simp [itemAt?]

theorem itemAt?_eq_none_iff {α : Type} (items : List α) (index : Int) :
    itemAt? items index = none ↔ index < -items.length ∨ items.length ≤ index := by
  unfold itemAt?
  split
  · rw [List.getElem?_eq_none_iff]; omega
  · split
    · rw [List.getElem?_eq_none_iff]; omega
    · simp only [true_iff]; omega

namespace Value

def length : Value → Outcome Nat
  | text characters => .ok characters.length
  | list items | tuple items => .ok items.length
  | unitWeight length => unitLength length
  | array _ (count :: _) _ _ => .ok count
  | _ => .error .unsupported

def rows (storage : Storage) (count : Nat) (shape : List Nat) (writeable : Bool) (entries : List Value) :
    List Value :=
  match shape with
  | [] => entries
  | _ =>
    let width := shape.foldl (· * ·) 1
    (List.range count).map fun row => .array storage shape writeable ((entries.drop (row * width)).take width)

def items : Value → Outcome (List Value)
  | text characters => .ok (characters.toList.map fun character => .text character.toString)
  | list items | tuple items => .ok items
  | unitWeight length => do
    let count ← unitCount length
    if count < sizeLimit then return List.replicate count (int 1) else throw .tooLarge
  | array storage (count :: shape) writeable entries => .ok (rows storage count shape writeable entries)
  | _ => .error .unsupported

/-- A unit weight of length `n` has an item at every index from `-n` to below `n`. -/
def unitAt (length : Number) (index : Value) : Outcome Value := do
  if ← lessEqual (← neg (number length)) index then
    if ← less index (number length) then return int 1
  refuse (.unitWeightIndex index (number length))

def orOutOfRange (found : Option Value) : Outcome Value :=
  match found with
  | some value => .ok value
  | Option.none => .error .indexOutOfRange

def itemAt (value : Value) (index : Int) : Outcome Value :=
  match value with
  | unitWeight length => unitAt length (int index)
  | number scalar => if scalar.storage?.isSome then .error .indexOutOfRange else .error .unsupported
  | other => do orOutOfRange (itemAt? (← other.items) index)

def asIndex : Value → Outcome Int
  | number (.flag _) => .error .unsupported
  | number index => match index.integer? with
    | some index => .ok index
    | Option.none => .error .unsupported
  | _ => .error .unsupported

end Value

end EnergyTables
