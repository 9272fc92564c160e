import EnergyTables.Family.Selection

namespace EnergyTables

structure Matrix where
  size : Nat
  entries : List (Binary .double)
  square : entries.length = size * size

namespace Matrix

def zero (size : Nat) : Matrix := ⟨size, List.replicate (size * size) (.zero .double), by simp⟩

def cell (matrix : Matrix) (row column : Nat) : Binary .double :=
  matrix.entries.getD (row * matrix.size + column) (.zero .double)

def setCell (matrix : Matrix) (row column : Nat) (value : Binary .double) : Matrix :=
  ⟨matrix.size, matrix.entries.set (row * matrix.size + column) value, by simp [matrix.square]⟩

def real (value : Binary .double) : Value := .number (.real .double value)

def toValue (matrix : Matrix) : Value :=
  .array (.real .double) [matrix.size, matrix.size] false (matrix.entries.map real)

def realEntry : Value → Binary .double
  | .number (.real _ value) => value.convert .double
  | _ => .nan

def realsOf (given : Weights.Argument) : Outcome (List Nat × List (Binary .double)) :=
  match given with
  | .given value => do
    let (shape, values) ← value.toArray (.real .double)
    return (shape, values.map realEntry)
  | .foreign _ _ reals => reals

def shaped (given : Weights.Argument) : Outcome (List Nat × Option Matrix) := do
  let (shape, entries) ← realsOf given
  match shape with
  | [rows, columns] =>
    if square : rows = columns ∧ entries.length = rows * rows then return (shape, some ⟨rows, entries, square.2⟩)
    else return (shape, none)
  | _ => return (shape, none)

def isZero (value : Binary .double) : Bool := value.equal (.zero .double)

end Matrix

/-- The energy of `x` is the sum of `Q i j * x i * x j`. An entry of the diagonal is a linear term, and the two
    entries of a pair of variables together are its coupling; zeros make no term. -/
structure Qubo where
  matrix : Matrix

namespace Qubo

def construct (given : Weights.Argument) : Outcome Qubo := do
  match ← Matrix.shaped given with
  | (_, some matrix) => return ⟨matrix⟩
  | (shape, none) => refuse (.matrixNotSquare shape)

def make (given : Value) : Outcome Qubo := construct (.given given)

def update (qubo : Qubo) (weights : Weights.Argument) : Outcome Qubo := do
  let (shape, matrix?) ← Matrix.shaped weights
  let expected := [qubo.matrix.size, qubo.matrix.size]
  match matrix? with
  | some matrix => if shape = expected then return ⟨matrix⟩ else refuse (.matrixShape expected shape)
  | none => refuse (.matrixShape expected shape)

/-- The place of a variable in the matrix, counted from the end when its number is below one. -/
def place (size : Nat) (variableIndex : Value) : Outcome Nat := do
  match ← variableIndex.sub (.int 1) with
  | .number index =>
    match (Value.number index).asIndex with
    | .ok index =>
      match itemAt? (List.range size) index with
      | some place => return place
      | none => throw .indexOutOfRange
    | .error _ => throw .indexOutOfRange
  | _ => throw .unsupported

def cellSum (cell : Binary .double) (coefficient : Value) : Outcome Value :=
  match coefficient with
  | .list _ | .tuple _ | .unitWeight _ | .array .. => .error .invalid
  | scalar => (Matrix.real cell).add scalar

/-- A coefficient added to a cell; only its real part is kept. -/
def addAt (matrix : Matrix) (row column : Value) (coefficient : Value) : Outcome Matrix := do
  let row ← place matrix.size row
  let column ← place matrix.size column
  let total ← cellSum (matrix.cell row column) coefficient
  return matrix.setCell row column (Matrix.realEntry (← total.store (.real .double)))

/-- The pairs without repeated keys: a repeated key keeps its first place and takes the last value. -/
def mergeKeys (pairs : List (Value × Value)) : Outcome (List (Value × Value)) :=
  pairs.foldlM (fun merged (key, value) =>
    if !key.isKey then .error .unsupported
    else if merged.any (·.1.sameKey key) then
      .ok (merged.map fun entry => if entry.1.sameKey key then (entry.1, value) else entry)
    else .ok (merged ++ [(key, value)])) []

def sizeOf (size : Value) : Outcome Nat := do
  match size with
  | .number (.bool _) => throw .unsupported
  | _ =>
    let count ← size.asIndex
    if count < 0 ∨ Value.sizeLimit ≤ 8 * (count * count) then throw .invalid else return count.toNat

/-- The problem with the coefficients of single variables and of pairs, the variables numbered from one. -/
def ofTerms (size : Value) (linear quadratic : List (Value × Value)) : Outcome Qubo := do
  let linear ← mergeKeys linear
  let quadratic ← mergeKeys quadratic
  let size ← sizeOf size
  let diagonal ← linear.foldlM (fun matrix (index, coefficient) => addAt matrix index index coefficient)
    (Matrix.zero size)
  let matrix ← quadratic.foldlM (fun matrix (pair, coefficient) => do
    match ← pair.items with
    | [left, right] =>
      let (row, column) := if ← right.less left then (right, left) else (left, right)
      addAt matrix row column coefficient
    | _ => throw .invalid) diagonal
  return ⟨matrix⟩

def energy (scope : List Int) (weight configuration : Value) : Outcome Value := do
  Constraint.checkArity scope configuration
  let all ← Selection.all Selection.isOne (← configuration.items)
  weight.mul (.int all.toInt)

def term (scope : List Int) (tag : String) (coefficient : Binary .double) : List SoftConstraint :=
  if Matrix.isZero coefficient then []
  else [⟨scope, tag, .float coefficient, energy scope (.float coefficient)⟩]

def linearTerms (matrix : Matrix) : List SoftConstraint :=
  (List.range matrix.size).flatMap fun (row : Nat) => term [(row : Int) + 1] "linear" (matrix.cell row row)

def quadraticTerms (matrix : Matrix) : List SoftConstraint :=
  (List.range matrix.size).flatMap fun (row : Nat) =>
    (List.range' (row + 1) (matrix.size - row - 1)).flatMap fun (column : Nat) =>
      term [(row : Int) + 1, (column : Int) + 1] "quadratic" ((matrix.cell row column).add (matrix.cell column row))

def problem (qubo : Qubo) : Problem where
  className := "QUBO"
  sense := .minimize
  variableCount := qubo.matrix.size
  flavors := Selection.flavors
  weights? := some qubo.matrix.toValue
  size := .ok ⟨"QUBOSize", [("num_variables", qubo.matrix.size)]⟩
  hardConstraints := .ok []
  softConstraints := .ok (linearTerms qubo.matrix ++ quadraticTerms qubo.matrix)

def same (left right : Qubo) : Bool :=
  left.matrix.size == right.matrix.size &&
    (left.matrix.entries.zip right.matrix.entries).all fun (left, right) => left.equal right

end Qubo

end EnergyTables
