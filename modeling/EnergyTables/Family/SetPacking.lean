import EnergyTables.Family.Selection

namespace EnergyTables

structure SetPacking where
  sets : List (List Value)
  weights : Value

namespace SetPacking

def construct (sets : Value) (weights : Weights.Argument) : Outcome SetPacking := do
  let sets ← (← sets.items).mapM Value.items
  return ⟨sets, ← weights.normalize sets.length "sets"⟩

def make (sets weights : Value) : Outcome SetPacking := construct sets (.given weights)

def update (packing : SetPacking) (weights : Weights.Argument) : Outcome SetPacking := do
  return ⟨packing.sets, ← weights.normalize packing.sets.length "sets"⟩

def checkKeys (elements : List Value) : Outcome Unit :=
  if Value.areKeys elements then .ok () else .error .unsupported

def intersect (left right : List Value) : Bool := left.any fun element => right.any element.sameKey

def pairs : (first : Nat) → List (List Value) → List ((Nat × List Value) × (Nat × List Value))
  | _, [] => []
  | first, set :: rest =>
    (rest.zipIdx (first + 1)).map (fun (other, second) => ((first, set), (second, other))) ++
      pairs (first + 1) rest

def disjointness (packing : SetPacking) : Outcome (List HardConstraint) := do
  let constraints ← (pairs 0 packing.sets).mapM fun ((first, left), (second, right)) => do
    checkKeys left
    checkKeys right
    let scope := [(first : Int) + 1, (second : Int) + 1]
    return if intersect left right then
        [(⟨scope, "disjoint", Selection.someUnselected scope⟩ : HardConstraint)]
      else []
  return constraints.flatten

def elementCount (packing : SetPacking) : Outcome Nat := do
  checkKeys packing.sets.flatten
  return (Value.distinctKeys packing.sets.flatten).length

def problem (packing : SetPacking) : Problem where
  className := "SetPacking"
  sense := .maximize
  variableCount := packing.sets.length
  flavors := Selection.flavors
  weights? := some packing.weights
  size := do
    return ⟨"SetPackingSize", [("num_elements", (← packing.elementCount : Nat)), ("num_sets", packing.sets.length)]⟩
  hardConstraints := packing.disjointness
  softConstraints := Selection.onItems packing.sets.length packing.weights "set" Selection.gain

def same (left right : SetPacking) : Outcome Bool := do
  let sets (packing : SetPacking) := Value.tuple (packing.sets.map .tuple)
  if ← (sets left).equal (sets right) then Weights.same left.weights right.weights else return false

/-- Selected sets one after another, each disjoint from those selected before. -/
def packs : (seen : List Value) → List (Value × List Value) → Outcome Bool
  | _, [] => .ok true
  | seen, (selected, set) :: rest => do
    if ← Selection.isOne selected then
      checkKeys set
      if intersect seen set then return false
      packs (seen ++ set) rest
    else packs seen rest

def isPacking (packing : SetPacking) (configuration : Value) : Outcome Bool := do
  let given ← configuration.length
  if given ≠ packing.sets.length then
    refuse (.configurationLength given "problem" packing.sets.length "sets")
  packs [] ((← configuration.items).zip packing.sets)

end SetPacking

end EnergyTables
