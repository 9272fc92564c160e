import EnergyTables.Family.Coloring
import EnergyTables.Family.Custom
import EnergyTables.Family.IndependentSet
import EnergyTables.Family.Qubo
import EnergyTables.Family.SetPacking
import EnergyTables.Family.VertexCovering

namespace EnergyTables

inductive Instance where
  | coloring (coloring : Coloring)
  | vertexCovering (covering : VertexCovering)
  | independentSet (independent : IndependentSet)
  | setPacking (packing : SetPacking)
  | qubo (qubo : Qubo)
  | custom (custom : Custom)

inductive GraphPredicate
  | coloring
  | covering
  | independent
deriving DecidableEq, Repr

namespace GraphPredicate

def holds (predicate : GraphPredicate) (graph : Graph) (configuration : Value) : Outcome Bool :=
  match predicate with
  | coloring => graph.isColoring configuration
  | covering => graph.isCovering configuration
  | independent => graph.isIndependent configuration

end GraphPredicate

namespace Instance

def problem : Instance → Problem
  | coloring family => family.problem
  | vertexCovering family => family.problem
  | independentSet family => family.problem
  | setPacking family => family.problem
  | qubo family => family.problem
  | custom family => family.problem

def update (subject : Instance) (weights : Weights.Argument) : Outcome Instance :=
  match subject with
  | coloring family => do return coloring (← family.update weights)
  | vertexCovering family => do return vertexCovering (← family.update weights)
  | independentSet family => do return independentSet (← family.update weights)
  | setPacking family => do return setPacking (← family.update weights)
  | qubo family => do return qubo (← family.update weights)
  | custom family => do return custom { family with weights? := some (← weights.kept) }

def setWeights (subject : Instance) (weights : Value) : Outcome Instance := subject.update (.given weights)

def same : Instance → Instance → Outcome Bool
  | coloring left, coloring right => left.same right
  | vertexCovering left, vertexCovering right => left.same right
  | independentSet left, independentSet right => left.same right
  | setPacking left, setPacking right => left.same right
  | qubo left, qubo right => .ok (left.same right)
  | _, _ => .ok false

def satisfied (subject : Instance) (scope : List Int) (configuration : Value) : Outcome Bool :=
  match subject with
  | vertexCovering _ => Selection.someSelected scope configuration
  | independentSet _ | setPacking _ => Selection.someUnselected scope configuration
  | custom family => family.satisfied scope [] configuration
  | coloring _ | qubo _ => refuse (.noHardConstraints subject.problem.className)

def localEnergy (subject : Instance) (scope : List Int) (weight configuration : Value) : Outcome Value :=
  match subject with
  | coloring _ => Coloring.energy scope weight configuration
  | vertexCovering _ => Selection.cost scope weight configuration
  | independentSet _ | setPacking _ => Selection.gain scope weight configuration
  | qubo _ => Qubo.energy scope weight configuration
  | custom _ => .error .unsupported

def holds (subject : Instance) (predicate : GraphPredicate) (configuration : Value) : Outcome Bool :=
  match subject with
  | setPacking family => family.isPacking configuration
  | coloring family => predicate.holds family.graph configuration
  | vertexCovering family => predicate.holds family.graph configuration
  | independentSet family => predicate.holds family.graph configuration
  | qubo _ | custom _ => .error .absentPart

end Instance

/-- The families as classes, asked for names and flavors without an instance. A coloring without a fixed palette has
    no flavors until its colors are known. -/
inductive FamilyClass where
  | coloring (palette? : Option Palette)
  | vertexCovering
  | independentSet
  | setPacking
  | qubo

namespace FamilyClass

def name : FamilyClass → String
  | coloring palette? => Coloring.classNameOf palette?
  | vertexCovering => "VertexCovering"
  | independentSet => "IndependentSet"
  | setPacking => "SetPacking"
  | qubo => "QUBO"

def sense : FamilyClass → Sense
  | coloring _ | vertexCovering | qubo => .minimize
  | independentSet | setPacking => .maximize

def flavors : FamilyClass → Outcome (List Value)
  | coloring (some palette) => .ok (Coloring.flavorsOf palette.size)
  | coloring none => .error .unsupported
  | _ => .ok Selection.flavors

end FamilyClass

end EnergyTables
