import EnergyTables.Family.Selection

namespace EnergyTables

/-- The colors of a class of colorings that fixes them, named by their number. -/
structure Palette where
  colors : Value
  size : Nat

namespace Palette

def checkPositive (colors : Value) : Outcome Unit := do
  if ← colors.less (.int 1) then refuse (.colorsNotPositive colors)

def sizeOf (colors : Value) : Outcome Nat := do
  let count ← colors.asIndex
  if count < Value.sizeLimit then return count.toNat else throw .tooLarge

def ofColors (colors : Value) : Outcome Palette := do
  checkPositive colors
  return ⟨colors, ← sizeOf colors⟩

def className (palette : Palette) : String := "Coloring" ++ palette.colors.display

end Palette

/-- An edge whose ends share a color costs its weight. Weights follow the edges sorted by their ends. -/
structure Coloring where
  graph : Graph
  colors : Value
  palette? : Option Palette
  paletteSize : Nat
  weights : Value

namespace Coloring

def classNameOf : Option Palette → String
  | some palette => palette.className
  | none => "Coloring"

def flavorsOf (paletteSize : Nat) : List Value := (List.range paletteSize).map fun (color : Nat) => Value.int color

def construct (palette? : Option Palette) (graph : Graph) (colors : Value) (weights : Weights.Argument) :
    Outcome Coloring := do
  graph.checkVertices
  Palette.checkPositive colors
  let paletteSize ← match palette? with
    | some palette => pure palette.size
    | none => Palette.sizeOf colors
  if !(← (Value.int paletteSize).equal colors) then
    refuse (.paletteMismatch (classNameOf palette?) paletteSize colors)
  return ⟨graph, colors, palette?, paletteSize, ← weights.normalize graph.edgeCount "edges"⟩

def make (palette? : Option Palette) (graph : Graph) (colors weights : Value) : Outcome Coloring :=
  construct palette? graph colors (.given weights)

def update (coloring : Coloring) (weights : Weights.Argument) : Outcome Coloring :=
  construct coloring.palette? coloring.graph coloring.colors weights

def energy (scope : List Int) (weight configuration : Value) : Outcome Value := do
  Constraint.checkArity scope configuration
  match ← configuration.items with
  | [source, target] => do return if ← source.equal target then weight else .int 0
  | _ => throw .invalid

def constraints (coloring : Coloring) : Outcome (List SoftConstraint) := do
  let edges ← coloring.graph.sortedEdges
  let weights ← coloring.weights.items
  (edges.zip weights).mapM fun ((source, target), weight) => do
    let scope ← Constraint.scopeOf (.tuple [source, target])
    return ⟨scope, "edge", weight, energy scope weight⟩

def problem (coloring : Coloring) : Problem where
  className := classNameOf coloring.palette?
  sense := .minimize
  variableCount := coloring.graph.vertexCount
  flavors := flavorsOf coloring.paletteSize
  weights? := some coloring.weights
  size := .ok ⟨"ColoringSize",
    [("num_vertices", coloring.graph.vertexCount), ("num_edges", coloring.graph.edgeCount)]⟩
  hardConstraints := .ok []
  softConstraints := coloring.constraints

/-- The same number of colors, graph and weights; a fixed palette makes no difference. -/
def same (left right : Coloring) : Outcome Bool := do
  if !(← left.colors.equal right.colors) then return false
  if !(← left.graph.same right.graph) then return false
  Weights.same left.weights right.weights

end Coloring

end EnergyTables
