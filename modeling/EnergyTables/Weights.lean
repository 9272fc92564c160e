import EnergyTables.UnitWeight

namespace EnergyTables.Weights

/-- No weights are unit weights; others must be as many as expected and are kept from change. -/
def normalize (weights : Value) (expected : Int) (unit : String) : Outcome Value := do
  match weights with
  | .none => return .unitWeight (← UnitWeight.ofLength (.int expected))
  | _ =>
    let given ← weights.length
    if (given : Int) ≠ expected then refuse (.weightCount unit expected given)
    match weights with
    | .unitWeight length => return .unitWeight length
    | .array storage shape _ entries => return .array storage shape false entries
    | _ => return .tuple (← weights.items)

/-- What a caller gives as weights: a value, or an object of another make, which tells its length, its items and the
    reals that it converts to each on its own. -/
inductive Argument where
  | given (weights : Value)
  | foreign (length : Outcome Nat) (items : Outcome (List Value))
      (reals : Outcome (List Nat × List (Binary .double)))

namespace Argument

def normalize (weights : Argument) (expected : Int) (unit : String) : Outcome Value :=
  match weights with
  | given weights => Weights.normalize weights expected unit
  | foreign length items _ => do
    let given ← length
    if (given : Int) ≠ expected then refuse (.weightCount unit expected given)
    return .tuple (← items)

@[simp] theorem normalize_given (weights : Value) (expected : Int) (unit : String) :
    (given weights).normalize expected unit = Weights.normalize weights expected unit := rfl

def kept (weights : Argument) : Outcome Value :=
  match weights with
  | given weights => .ok weights
  | foreign _ items _ => do return .tuple (← items)

end Argument

def allEqual : List (Value × Value) → Outcome Bool
  | [] => .ok true
  | (left, right) :: rest => do
    if ← left.equal right then allEqual rest else return false

def same (left right : Value) : Outcome Bool := do
  if (← left.length) ≠ (← right.length) then return false
  allEqual ((← left.items).zip (← right.items))

def numbers (weights : List Value) : Outcome (List Number) :=
  weights.mapM fun weight =>
    match weight with
    | .number (.flag _) => refuse (.weightNotANumber weight)
    | .number number => .ok number
    | _ => refuse (.weightNotANumber weight)

def isWhole : Number → Bool
  | .int _ => true
  | _ => false

/-- The kind of number that the weights are: that of their array where it has a fixed one, whole numbers where all
    are, the storage they would share in an array, or else the kind of their sum. -/
def kind (weights : Value) : Outcome Kind := do
  match weights with
  | .unitWeight _ => return .int
  | .array .object .. => listed
  | .array storage .. => return .stored storage
  | _ => listed
where
  listed : Outcome Kind := do
    let values ← weights.items
    let numbers ← numbers values
    if numbers.all isWhole then return .int
    match Storage.ofNumbers numbers with
    | .object => return (← Value.sum values).kind
    | storage => return .stored storage

end EnergyTables.Weights
