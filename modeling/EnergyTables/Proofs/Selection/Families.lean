import EnergyTables.Family.IndependentSet
import EnergyTables.Family.VertexCovering
import EnergyTables.Proofs.Selection.ForbiddenPairs

namespace EnergyTables

namespace Selection

theorem energyKind_eq_ok {problem : Problem} {kept : Value} {format : IntFormat} {numbers : List Int}
    (weighted : problem.weights? = some kept) (held : Weights.Kept kept format numbers) :
    problem.energyKind = .ok (.stored (.word format)) := by
  rcases held.kind_eq_ok with ⟨kind, found, stored⟩
  simp only [Problem.energyKind, weighted, found, Outcome.ok_bind, Outcome.pure_eq_ok, stored]

theorem Restricts.poses {problem : Problem} {pairs : List (Int × Int)} {bit : Nat} {hardTag softTag : String}
    {rule : List Int → Value → Outcome Bool} {energy : List Int → Value → Value → Outcome Value}
    {weights kept : Value} {format : IntFormat} {numbers : List Int} {sign : Int} {unit : String}
    (restricts : Restricts problem numbers.length pairs bit hardTag rule)
    (given : Weights.Given weights format numbers)
    (normalized : Weights.normalize weights numbers.length unit = .ok kept) (weighted : problem.weights? = some kept)
    (prices : Prices format sign energy) (soft : problem.softConstraints = onItems numbers.length kept softTag energy) :
    Poses problem format numbers kept pairs bit sign := by
  have held := given.kept_of_normalize normalized
  exact ⟨energyKind_eq_ok weighted held, ⟨_, _, restricts⟩, held, softTag, energy, prices, soft⟩

end Selection

open Selection

section Graphs

variable {graph : Graph} {kind : GraphKind} {vertices : List Int} {edges : List (Int × Int)} {count : Nat}
  {weights : Value} {format : IntFormat} {numbers : List Int}

theorem Graph.Simple.restricts (simple : graph.Simple kind vertices edges count) {problem : Problem} {bit : Nat}
    {tag : String} {rule : List Int → Value → Outcome Bool} (forbids : Forbids bit rule)
    (flavored : problem.flavors = flavors) (counted : problem.variableCount = graph.vertexCount)
    (constrained : problem.hardConstraints = onEdges graph tag rule) :
    Restricts problem count (ranked kind edges) bit tag rule where
  flavors_eq := flavored
  counted := by rw [counted, simple.vertexCount_eq]
  forbids := forbids
  hard_eq := by rw [constrained, onEdges_eq_ok simple]
  inside := by
    intro edge member
    have ends := simple.ranked_inside member
    omega

namespace VertexCovering

variable {covering : VertexCovering}

theorem eq_of_construct {argument : Weights.Argument} (made : construct graph argument = .ok covering) :
    covering.graph = graph ∧ argument.normalize graph.vertexCount "vertices" = .ok covering.weights := by
  rcases Outcome.bind_eq_ok_iff.1 made with ⟨_, _, rest⟩
  rcases Outcome.map_eq_ok_iff.1 rest with ⟨kept, normalized, rfl⟩
  exact ⟨rfl, normalized⟩

theorem eq_of_make (made : make graph weights = .ok covering) :
    covering.graph = graph ∧ Weights.normalize weights graph.vertexCount "vertices" = .ok covering.weights :=
  eq_of_construct made

theorem make_eq (simple : graph.Simple kind vertices edges count) (weights : Value) :
    make graph weights = do return ⟨graph, ← Weights.normalize weights count "vertices"⟩ := by
  rw [make, construct, simple.checkVertices_eq_ok, Outcome.ok_bind, simple.vertexCount_eq]
  rfl

theorem restricts (simple : graph.Simple kind vertices edges count) (made : make graph weights = .ok covering) :
    Restricts covering.problem count (Graph.ranked kind edges) 0 "cover" someSelected := by
  cases (eq_of_make made).1
  exact simple.restricts forbids_someSelected rfl rfl rfl

theorem poses (simple : graph.Simple kind vertices edges count) (given : Weights.Given weights format numbers)
    (counted : numbers.length = count) (made : make graph weights = .ok covering) :
    Poses covering.problem format numbers covering.weights (Graph.ranked kind edges) 0 1 := by
  have counts := counted.trans simple.vertexCount_eq.symm
  rcases eq_of_make made with ⟨rfl, normalized⟩
  rw [← counts] at normalized
  have restricted := counted ▸ restricts simple made
  apply restricted.poses given normalized rfl (prices_cost format)
  rw [counts]
  rfl

end VertexCovering

namespace IndependentSet

variable {independent : IndependentSet}

theorem eq_of_construct {argument : Weights.Argument} (made : construct graph argument = .ok independent) :
    independent.graph = graph ∧ argument.normalize graph.vertexCount "vertices" = .ok independent.weights := by
  rcases Outcome.bind_eq_ok_iff.1 made with ⟨_, _, rest⟩
  rcases Outcome.map_eq_ok_iff.1 rest with ⟨kept, normalized, rfl⟩
  exact ⟨rfl, normalized⟩

theorem eq_of_make (made : make graph weights = .ok independent) :
    independent.graph = graph ∧ Weights.normalize weights graph.vertexCount "vertices" = .ok independent.weights :=
  eq_of_construct made

theorem make_eq (simple : graph.Simple kind vertices edges count) (weights : Value) :
    make graph weights = do return ⟨graph, ← Weights.normalize weights count "vertices"⟩ := by
  rw [make, construct, simple.checkVertices_eq_ok, Outcome.ok_bind, simple.vertexCount_eq]
  rfl

theorem restricts (simple : graph.Simple kind vertices edges count) (made : make graph weights = .ok independent) :
    Restricts independent.problem count (Graph.ranked kind edges) 1 "no_edge" someUnselected := by
  cases (eq_of_make made).1
  exact simple.restricts forbids_someUnselected rfl rfl rfl

theorem poses (simple : graph.Simple kind vertices edges count) (given : Weights.Given weights format numbers)
    (counted : numbers.length = count) (made : make graph weights = .ok independent) :
    Poses independent.problem format numbers independent.weights (Graph.ranked kind edges) 1 (-1) := by
  have counts := counted.trans simple.vertexCount_eq.symm
  rcases eq_of_make made with ⟨rfl, normalized⟩
  rw [← counts] at normalized
  have restricted := counted ▸ restricts simple made
  apply restricted.poses given normalized rfl (prices_gain format)
  rw [counts]
  rfl

end IndependentSet

end Graphs

namespace SetPacking

variable {packing : SetPacking}

theorem mem_meetings_inside {sets : List (List Value)} :
    ∀ pair ∈ meetings sets, (1 ≤ pair.1 ∧ pair.1 ≤ sets.length) ∧ (1 ≤ pair.2 ∧ pair.2 ≤ sets.length) := by
  intro pair member
  rcases mem_meetings.1 member with ⟨front, back, left, right, before, frontStands, backStands, _, rfl⟩
  have bound := (List.getElem?_eq_some_iff.1 backStands).1
  omega

theorem restricts (comparable : Comparable packing.sets) :
    Restricts packing.problem packing.sets.length (meetings packing.sets) 1 "disjoint" someUnselected where
  flavors_eq := rfl
  counted := rfl
  forbids := forbids_someUnselected
  hard_eq := disjointness_eq_ok comparable
  inside := mem_meetings_inside

theorem normalize_of_construct {sets : Value} {argument : Weights.Argument} (made : construct sets argument = .ok packing) :
    argument.normalize packing.sets.length "sets" = .ok packing.weights := by
  rcases Outcome.bind_eq_ok_iff.1 made with ⟨items, _, rest⟩
  rcases Outcome.bind_eq_ok_iff.1 rest with ⟨sets, _, rest⟩
  rcases Outcome.map_eq_ok_iff.1 rest with ⟨kept, normalized, rfl⟩
  exact normalized

theorem normalize_of_make {sets weights : Value} (made : make sets weights = .ok packing) :
    Weights.normalize weights packing.sets.length "sets" = .ok packing.weights := normalize_of_construct made

theorem poses {sets weights : Value} {format : IntFormat} {numbers : List Int}
    (given : Weights.Given weights format numbers) (made : make sets weights = .ok packing)
    (comparable : Comparable packing.sets) (counted : numbers.length = packing.sets.length) :
    Poses packing.problem format numbers packing.weights (meetings packing.sets) 1 (-1) := by
  have normalized := normalize_of_make made
  rw [← counted] at normalized
  have restricted := counted ▸ restricts comparable
  apply restricted.poses given normalized rfl (prices_gain format)
  rw [counted]
  rfl

end SetPacking

end EnergyTables
