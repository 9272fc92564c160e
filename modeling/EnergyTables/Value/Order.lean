import EnergyTables.Value.Leaves

namespace EnergyTables

namespace Value

/-- The truth of an array of truth values: that of its only entry. -/
def truthOf (entries : List Bool) : Outcome Bool :=
  match entries with
  | [single] => .ok single
  | _ => .error .invalid

def relateScalars (relation : Relation) : Value → Value → Outcome Bool
  | number left, number right => left.relate relation right
  | text left, text right =>
    .ok (match relation with
      | .equal => left == right
      | .less => left < right
      | .lessEqual => left < right || left == right)
  | .none, .none => if relation = .equal then .ok true else .error .unsupported
  | _, _ => if relation = .equal then .ok false else .error .unsupported

def relateArrays (relation : Relation) (left right : Value) : Outcome Bool := do
  let (leftShape, left) ← left.asArray
  let (rightShape, right) ← right.asArray
  let (_, pairs) ← besides leftShape rightShape left right
  truthOf (← pairs.mapM fun (left, right) => relateScalars relation left right)

/-- Whether two values compare as arrays: one of them stored, and one a sequence. -/
def meetAsArrays (left right : Value) : Bool :=
  (left.isSequence || right.isSequence) && (left.isStored || right.isStored)

def relateApart (relation : Relation) (left right : Value) : Outcome Bool :=
  if meetAsArrays left right then relateArrays relation left right else relateScalars relation left right

mutual

def equal : Value → Value → Outcome Bool
  | list left, list right => if left.length = right.length then equalItems left right else .ok false
  | tuple left, tuple right => if left.length = right.length then equalItems left right else .ok false
  | unitWeight left, unitWeight right => left.relate .equal right
  | left, right => relateApart .equal left right

def equalItems : List Value → List Value → Outcome Bool
  | left :: lefts, right :: rights => do
    if ← equal left right then equalItems lefts rights else return false
  | _, _ => .ok true

end

mutual

def precedes (relation : Relation) : Value → Value → Outcome Bool
  | list left, list right | tuple left, tuple right => precedesItems relation left right
  | left, right => relateApart relation left right

def precedesItems (relation : Relation) : List Value → List Value → Outcome Bool
  | [], [] => .ok (relation.onInts 0 0)
  | [], _ :: _ => .ok true
  | _ :: _, [] => .ok false
  | left :: lefts, right :: rights => do
    if ← equal left right then precedesItems relation lefts rights else precedes relation left right

end

def less (left right : Value) : Outcome Bool := precedes .less left right

def lessEqual (left right : Value) : Outcome Bool := precedes .lessEqual left right

def between (low : Int) (value : Value) (high : Int) : Outcome Bool := do
  if ← lessEqual (int low) value then lessEqual value (int high) else return false

def least (left right : Value) : Outcome Value := do return if ← less right left then right else left

def greatest (left right : Value) : Outcome Value := do return if ← less left right then right else left

end Value

end EnergyTables
