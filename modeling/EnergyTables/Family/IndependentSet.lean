import EnergyTables.Family.Selection

namespace EnergyTables

structure IndependentSet where
  graph : Graph
  weights : Value

namespace IndependentSet

def construct (graph : Graph) (weights : Weights.Argument) : Outcome IndependentSet := do
  graph.checkVertices
  return ⟨graph, ← weights.normalize graph.vertexCount "vertices"⟩

def make (graph : Graph) (weights : Value) : Outcome IndependentSet := construct graph (.given weights)

def update (independent : IndependentSet) (weights : Weights.Argument) : Outcome IndependentSet :=
  construct independent.graph weights

def problem (independent : IndependentSet) : Problem where
  className := "IndependentSet"
  sense := .maximize
  variableCount := independent.graph.vertexCount
  flavors := Selection.flavors
  weights? := some independent.weights
  size := .ok ⟨"IndependentSetSize",
    [("num_vertices", independent.graph.vertexCount), ("num_edges", independent.graph.edgeCount)]⟩
  hardConstraints := Selection.onEdges independent.graph "no_edge" Selection.someUnselected
  softConstraints := Selection.onItems independent.graph.vertexCount independent.weights "vertex" Selection.gain

def same (left right : IndependentSet) : Outcome Bool := do
  if ← left.graph.same right.graph then Weights.same left.weights right.weights else return false

end IndependentSet

end EnergyTables
