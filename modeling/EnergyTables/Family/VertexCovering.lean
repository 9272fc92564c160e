import EnergyTables.Family.Selection

namespace EnergyTables

structure VertexCovering where
  graph : Graph
  weights : Value

namespace VertexCovering

def construct (graph : Graph) (weights : Weights.Argument) : Outcome VertexCovering := do
  graph.checkVertices
  return ⟨graph, ← weights.normalize graph.vertexCount "vertices"⟩

def make (graph : Graph) (weights : Value) : Outcome VertexCovering := construct graph (.given weights)

def update (covering : VertexCovering) (weights : Weights.Argument) : Outcome VertexCovering :=
  construct covering.graph weights

def problem (covering : VertexCovering) : Problem where
  className := "VertexCovering"
  sense := .minimize
  variableCount := covering.graph.vertexCount
  flavors := Selection.flavors
  weights? := some covering.weights
  size := .ok ⟨"VertexCoveringSize",
    [("num_vertices", covering.graph.vertexCount), ("num_edges", covering.graph.edgeCount)]⟩
  hardConstraints := Selection.onEdges covering.graph "cover" Selection.someSelected
  softConstraints := Selection.onItems covering.graph.vertexCount covering.weights "vertex" Selection.cost

def same (left right : VertexCovering) : Outcome Bool := do
  if ← left.graph.same right.graph then Weights.same left.weights right.weights else return false

end VertexCovering

end EnergyTables
