import EnergyTables.Value.Relation

namespace EnergyTables

namespace Number

/-- The entry of an array made of the number; one that no format holds stays as it is, and a large integer is
    compared by its exact value. -/
def asEntry : Number → Number
  | bool value => flag value
  | int value =>
    match Word.ofInt? .int64 value, Word.ofInt? .uint64 value with
    | some signed, _ => word .int64 signed
    | none, some unsigned => word .uint64 unsigned
    | none, none => fraction value
  | float value => real .double value
  | complex value => pair .double value
  | other => other

end Number

namespace Value

def sizeLimit : Int := IntFormat.int64.greatest + 1

def unitLength (length : Number) : Outcome Nat :=
  match length with
  | .flag _ => .error .unsupported
  | _ =>
    match length.integer? with
    | some count => if count < sizeLimit then .ok count.toNat else .error .tooLarge
    | Option.none => .error .unsupported

/-- How many indices from zero on lie below the length: none where its opposite is above zero, as that of a word
    without sign is. -/
def unitCount (length : Number) : Outcome Nat := do
  if ← (← length.neg).relate .lessEqual (.int 0) then
    match length.exactRe with
    | .infinite _ => throw .tooLarge
    | finite => return (finite.toRat?.getD 0).ceil.toNat
  else return 0

mutual

def shapeOf : Value → Outcome (List Nat)
  | list items | tuple items => do
    match ← shapesOf items with
    | Option.none => return [0]
    | some shape => return items.length :: shape
  | unitWeight length => do
    let _ ← unitLength length
    return [← unitCount length]
  | array _ shape _ _ => .ok shape
  | _ => .ok []

def shapesOf : List Value → Outcome (Option (List Nat))
  | [] => .ok Option.none
  | item :: items => do
    let shape ← shapeOf item
    match ← shapesOf items with
    | Option.none => return some shape
    | some other => if shape = other then return some shape else throw .invalid

end

mutual

def leaves : Value → List Value
  | list items | tuple items => leavesOf items
  | unitWeight length => List.replicate ((unitCount length).toOption.getD 0) (int 1)
  | array _ _ _ entries => entries
  | single => [single]

def leavesOf : List Value → List Value
  | [] => []
  | item :: items => leaves item ++ leavesOf items

end

def isSequence : Value → Bool
  | list _ | tuple _ | unitWeight _ | array .. => true
  | _ => false

def isStored : Value → Bool
  | number value => value.storage?.isSome
  | array .. => true
  | _ => false

def asEntry : Value → Value
  | number value => number value.asEntry
  | other => other

def asArray (value : Value) : Outcome (List Nat × List Value) :=
  match value with
  | array _ shape _ entries => .ok (shape, entries)
  | single => if single.isSequence then do return (← shapeOf single, (leaves single).map asEntry)
    else .ok ([], [single])

end Value

end EnergyTables
