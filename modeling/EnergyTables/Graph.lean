import EnergyTables.Value.Conversion
import EnergyTables.Value.Sort

namespace EnergyTables

inductive GraphKind
  | undirected
  | directed
  | parallel
deriving DecidableEq, Repr

/-- The place of a vertex, and the key by which the edge to it named it. -/
structure Neighbour where
  place : Nat
  key : Value

/-- A graph whose vertices are keys, in the order in which they came, each with its neighbours in the order in which
    they were joined to it. A multigraph keeps parallel edges and cannot be listed as pairs. -/
structure Graph where
  kind : GraphKind
  adjacency : List (Value × List Neighbour)
  parallelCount : Nat

namespace Graph

def empty (kind : GraphKind) : Graph := ⟨kind, [], 0⟩

def vertices (graph : Graph) : List Value := graph.adjacency.map (·.1)

def vertexCount (graph : Graph) : Nat := graph.adjacency.length

def placeOf? (graph : Graph) (vertex : Value) : Option Nat := graph.vertices.findIdx? (·.sameKey vertex)

def hasVertex (graph : Graph) (vertex : Value) : Bool := (graph.placeOf? vertex).isSome

def addVertex (graph : Graph) (vertex : Value) : Outcome (Graph × Nat) :=
  if !vertex.isKey then .error .unsupported
  else match graph.placeOf? vertex, vertex with
    | some place, _ => .ok (graph, place)
    | none, .none => .error .invalid
    | none, vertex => .ok ({ graph with adjacency := graph.adjacency ++ [(vertex, [])] }, graph.vertexCount)

/-- A neighbour that is joined already keeps its turn and its key. -/
def join (graph : Graph) (source : Nat) (target : Neighbour) : Graph :=
  { graph with
    adjacency := graph.adjacency.modify source fun (vertex, neighbours) =>
      (vertex, if neighbours.any (·.place = target.place) then neighbours else neighbours ++ [target]) }

/-- A repeated edge changes nothing but the count of parallel edges. -/
def addEdge (graph : Graph) (source target : Value) : Outcome Graph := do
  let (graph, start) ← graph.addVertex source
  let (graph, finish) ← graph.addVertex target
  let graph := { graph with parallelCount := graph.parallelCount + 1 }.join start ⟨finish, target⟩
  match graph.kind with
  | .directed => return graph
  | .undirected | .parallel => return graph.join finish ⟨start, source⟩

def build (kind : GraphKind) (vertices : List Value) (edges : List (Value × Value)) : Outcome Graph := do
  let graph ← vertices.foldlM (fun graph vertex => do return (← graph.addVertex vertex).1) (empty kind)
  edges.foldlM (fun graph (source, target) => graph.addEdge source target) graph

/-- The neighbours that list an edge of the vertex at a place: of an undirected graph those that have not had their
    turn. -/
def listed (graph : Graph) (place : Nat) (neighbours : List Neighbour) : List Neighbour :=
  match graph.kind with
  | .directed => neighbours
  | .undirected | .parallel => neighbours.filter (place ≤ ·.place)

def edgeEnds (graph : Graph) : List (Value × Value) :=
  graph.adjacency.zipIdx.flatMap fun ((vertex, neighbours), place) =>
    (graph.listed place neighbours).map fun neighbour => (vertex, neighbour.key)

def edgeCount (graph : Graph) : Nat :=
  match graph.kind with
  | .undirected | .directed => graph.edgeEnds.length
  | .parallel => graph.parallelCount

def edges (graph : Graph) : Outcome (List (Value × Value)) :=
  match graph.kind with
  | .undirected | .directed => .ok graph.edgeEnds
  | .parallel => if graph.parallelCount = 0 then .ok [] else .error .invalid

def checkVertices (graph : Graph) : Outcome Unit := do
  let expected := (List.range graph.vertexCount).map fun (index : Nat) => Value.int (index + 1)
  if expected.all graph.hasVertex then return ()
  refuse (.vertexNumbering graph.vertexCount (← Value.sort Value.less graph.vertices))

def pairLess (left right : Value × Value) : Outcome Bool := do
  if !(← left.1.equal right.1) then left.1.less right.1
  else if ← left.2.equal right.2 then return false
  else left.2.less right.2

def sortedEdges (graph : Graph) : Outcome (List (Value × Value)) := do
  let pairs ← (← graph.edges).mapM fun (source, target) => do
    return (← source.least target, ← source.greatest target)
  Value.sort pairLess pairs

def pairsEqual : List ((Value × Value) × (Value × Value)) → Outcome Bool
  | [] => .ok true
  | (left, right) :: rest => do
    if !(← left.1.equal right.1) then return false
    if !(← left.2.equal right.2) then return false
    pairsEqual rest

def same (left right : Graph) : Outcome Bool := do
  if left.vertexCount ≠ right.vertexCount then return false
  if !left.vertices.all right.hasVertex then return false
  let leftEdges ← left.sortedEdges
  let rightEdges ← right.sortedEdges
  if leftEdges.length ≠ rightEdges.length then return false
  pairsEqual (leftEdges.zip rightEdges)

def valueAt (configuration vertex : Value) : Outcome Value := do
  match (← vertex.sub (.int 1)), configuration with
  | .number index, .array .. =>
    match (Value.number index).asIndex with
    | .ok index => configuration.itemAt index
    | .error _ => throw .indexOutOfRange
  | index, .unitWeight length => Value.unitAt length index
  | index, _ => configuration.itemAt (← index.asIndex)

def allEdges (test : Value → Value → Outcome Bool) (configuration : Value) : List (Value × Value) → Outcome Bool
  | [] => .ok true
  | (source, target) :: rest => do
    if ← test (← valueAt configuration source) (← valueAt configuration target) then
      allEdges test configuration rest
    else return false

def isColoring (graph : Graph) (configuration : Value) : Outcome Bool := do
  allEdges (fun source target => do return !(← source.equal target)) configuration (← graph.edges)

/-- Whether a test of one end holds at some end of every edge, the second end being read where it matters. -/
def someEnd (test : Value → Outcome Bool) (configuration : Value) : List (Value × Value) → Outcome Bool
  | [] => .ok true
  | (source, target) :: rest => do
    if ← test (← valueAt configuration source) then someEnd test configuration rest
    else if ← test (← valueAt configuration target) then someEnd test configuration rest
    else return false

def isCovering (graph : Graph) (configuration : Value) : Outcome Bool := do
  let given ← configuration.length
  if given ≠ graph.vertexCount then
    refuse (.configurationLength given "graph" graph.vertexCount "vertices")
  someEnd (fun value => do return !(← value.equal (.int 0))) configuration (← graph.edges)

def isIndependent (graph : Graph) (configuration : Value) : Outcome Bool := do
  someEnd (fun value => do return !(← value.equal (.int 1))) configuration (← graph.edges)

end Graph

end EnergyTables
