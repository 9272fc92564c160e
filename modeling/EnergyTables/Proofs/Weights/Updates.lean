import EnergyTables.Instance
import EnergyTables.Proofs.Coloring.MonochromaticEdges
import EnergyTables.Proofs.Selection.Families
import EnergyTables.Proofs.Weights.Normalization

namespace EnergyTables

/-- What a problem is besides its weights. -/
inductive Frame
  | coloring (palette? : Option Palette) (graph : Graph) (colors : Value)
  | vertexCovering (graph : Graph)
  | independentSet (graph : Graph)
  | setPacking (sets : List (List Value))
  | qubo (size : Nat)
  | custom (family : Custom)

/-- A constructor of one of the families with its arguments besides the weights. -/
inductive Blueprint
  | coloring (palette? : Option Palette) (graph : Graph) (colors : Value)
  | vertexCovering (graph : Graph)
  | independentSet (graph : Graph)
  | setPacking (sets : Value)
  | qubo

def Frame.expects : Frame → Option (Nat × String)
  | coloring _ graph _ => some (graph.edgeCount, "edges")
  | vertexCovering graph | independentSet graph => some (graph.vertexCount, "vertices")
  | setPacking sets => some (sets.length, "sets")
  | qubo _ | custom _ => none

/-- The variables that the weights belong to, in their order: the ends of each edge, or each variable by itself. -/
inductive Frame.Ranks : Frame → List (List Int) → Prop
  | coloring {graph : Graph} {kind : GraphKind} {vertices : List Int} {edges : List (Int × Int)} {count : Nat}
      (palette? : Option Palette) (simple : graph.Simple kind vertices edges count) (colors : Value) :
      Ranks (.coloring palette? graph colors) ((Graph.ranked kind edges).map fun edge => [edge.1, edge.2])
  | vertexCovering (graph : Graph) :
      Ranks (.vertexCovering graph) ((List.range graph.vertexCount).map fun (index : Nat) => [(index : Int) + 1])
  | independentSet (graph : Graph) :
      Ranks (.independentSet graph) ((List.range graph.vertexCount).map fun (index : Nat) => [(index : Int) + 1])
  | setPacking (sets : List (List Value)) :
      Ranks (.setPacking sets) ((List.range sets.length).map fun (index : Nat) => [(index : Int) + 1])

def Blueprint.make : Blueprint → Weights.Argument → Outcome Instance
  | coloring palette? graph colors, weights => do return .coloring (← Coloring.construct palette? graph colors weights)
  | vertexCovering graph, weights => do return .vertexCovering (← VertexCovering.construct graph weights)
  | independentSet graph, weights => do return .independentSet (← IndependentSet.construct graph weights)
  | setPacking sets, weights => do return .setPacking (← SetPacking.construct sets weights)
  | qubo, weights => do return .qubo (← Qubo.construct weights)

/-- Problems of one class with the same variables, flavors and hard constraints. -/
structure Problem.SameButWeights (left right : Problem) : Prop where
  className_eq : left.className = right.className
  sense_eq : left.sense = right.sense
  variableCount_eq : left.variableCount = right.variableCount
  flavors_eq : left.flavors = right.flavors
  hardConstraints_eq : left.hardConstraints = right.hardConstraints

namespace Instance

def frame : Instance → Frame
  | coloring family => .coloring family.palette? family.graph family.colors
  | vertexCovering family => .vertexCovering family.graph
  | independentSet family => .independentSet family.graph
  | setPacking family => .setPacking family.sets
  | qubo family => .qubo family.matrix.size
  | custom family => .custom { family with weights? := none }

/-- The problem with other weights, or the problem itself where they are not accepted. -/
def afterUpdate (subject : Instance) (weights : Weights.Argument) : Instance :=
  match subject.update weights with
  | .ok next => next
  | .error _ => subject

def run (subject : Instance) (calls : List Weights.Argument) : Instance := calls.foldl afterUpdate subject

def lastAccepted? (subject : Instance) (calls : List Weights.Argument) : Option Weights.Argument :=
  calls.reverse.find? fun weights => (subject.update weights).isOk

end Instance

theorem Matrix.shape_of_shaped {given : Weights.Argument} {shape : List Nat} {matrix : Matrix}
    (found : shaped given = .ok (shape, some matrix)) : shape = [matrix.size, matrix.size] := by
  obtain ⟨⟨sizes, entries⟩, _, rest⟩ := Outcome.bind_eq_ok_iff.1 found
  dsimp only at rest
  split at rest
  next rows columns =>
    split at rest
    next square =>
      cases rest
      cases square.1
      rfl
    next => cases rest
  next => cases rest

theorem Qubo.size_of_update {family next : Qubo} {weights : Weights.Argument} (replaced : family.update weights = .ok next) :
    next.matrix.size = family.matrix.size ∧ construct weights = .ok next := by
  rcases Outcome.bind_eq_ok_iff.1 replaced with ⟨⟨shape, matrix?⟩, shaped, rest⟩
  cases matrix? with
  | none => exact absurd rest (Outcome.refuse_ne_ok _ _)
  | some matrix =>
    have square := Matrix.shape_of_shaped shaped
    dsimp only at rest
    split at rest
    next expected =>
      cases rest
      refine ⟨(List.cons.inj (square.symm.trans expected)).1, ?_⟩
      rw [construct, shaped]
      rfl
    next => exact absurd rest (Outcome.refuse_ne_ok _ _)

section Remaking

variable {graph : Graph} {initial : Weights.Argument}

theorem Coloring.construct_of_construct {palette? : Option Palette} {colors : Value} {coloring : Coloring}
    (made : construct palette? graph colors initial = .ok coloring) (weights : Weights.Argument) :
    construct palette? graph colors weights =
      (do return { coloring with weights := ← weights.normalize graph.edgeCount "edges" }) := by
  rw [construct_eq] at made ⊢
  rcases Outcome.bind_eq_ok_iff.1 made with ⟨_, checked, rest⟩
  rcases Outcome.bind_eq_ok_iff.1 rest with ⟨_, positive, rest⟩
  rcases Outcome.bind_eq_ok_iff.1 rest with ⟨size, sized, rest⟩
  rcases Outcome.bind_eq_ok_iff.1 rest with ⟨same, compared, rest⟩
  -- the checks before the weights do not depend on them, and have succeeded once
  rw [checked, Outcome.ok_bind, positive, Outcome.ok_bind, sized, Outcome.ok_bind, ofSize, compared, Outcome.ok_bind]
  cases same with
  | false => exact absurd rest (Outcome.refuse_ne_ok _ _)
  | true =>
    rcases Outcome.map_eq_ok_iff.1 rest with ⟨_, _, rfl⟩
    rfl

theorem VertexCovering.construct_of_construct {covering : VertexCovering}
    (made : construct graph initial = .ok covering) (weights : Weights.Argument) :
    construct graph weights = (do return ⟨graph, ← weights.normalize graph.vertexCount "vertices"⟩) := by
  rcases Outcome.bind_eq_ok_iff.1 made with ⟨_, checked, _⟩
  rw [construct, checked, Outcome.ok_bind]

theorem IndependentSet.construct_of_construct {independent : IndependentSet}
    (made : construct graph initial = .ok independent) (weights : Weights.Argument) :
    construct graph weights = (do return ⟨graph, ← weights.normalize graph.vertexCount "vertices"⟩) := by
  rcases Outcome.bind_eq_ok_iff.1 made with ⟨_, checked, _⟩
  rw [construct, checked, Outcome.ok_bind]

theorem SetPacking.construct_of_construct {sets : Value} {packing : SetPacking}
    (made : construct sets initial = .ok packing) (weights : Weights.Argument) :
    construct sets weights = packing.update weights := by
  rcases Outcome.bind_eq_ok_iff.1 made with ⟨items, listed, rest⟩
  rcases Outcome.bind_eq_ok_iff.1 rest with ⟨read, each, rest⟩
  rcases Outcome.map_eq_ok_iff.1 rest with ⟨_, _, rfl⟩
  rw [construct, listed, Outcome.ok_bind, each, Outcome.ok_bind]
  rfl

end Remaking

namespace Instance

variable {left right subject start next : Instance} {weights initial last : Weights.Argument}
  {calls : List Weights.Argument}

theorem update_congr (same : left.frame = right.frame) (weights : Weights.Argument) :
    left.update weights = right.update weights := by
  cases left with
  | coloring family =>
    cases right with
    | coloring other =>
      rcases Frame.coloring.inj same with ⟨palette, graph, colors⟩
      rw [update, update, Coloring.update, Coloring.update, palette, graph, colors]
    | _ => cases same
  | vertexCovering family =>
    cases right with
    | vertexCovering other =>
      rw [update, update, VertexCovering.update, VertexCovering.update, Frame.vertexCovering.inj same]
    | _ => cases same
  | independentSet family =>
    cases right with
    | independentSet other =>
      rw [update, update, IndependentSet.update, IndependentSet.update, Frame.independentSet.inj same]
    | _ => cases same
  | setPacking family =>
    cases right with
    | setPacking other =>
      rw [update, update, SetPacking.update, SetPacking.update, Frame.setPacking.inj same]
    | _ => cases same
  | qubo family =>
    cases right with
    | qubo other => rw [update, update, Qubo.update, Qubo.update, Frame.qubo.inj same]
    | _ => cases same
  | custom family =>
    cases right with
    | custom other =>
      have rest (kept : Value) : ({ family with weights? := some kept } : Custom) = { other with weights? := some kept } :=
        congrArg (fun family : Custom => { family with weights? := some kept }) (Frame.custom.inj same)
      simp only [update, rest]
    | _ => cases same

theorem frame_update (replaced : subject.update weights = .ok next) : next.frame = subject.frame := by
  cases subject with
  | coloring family =>
    rcases Outcome.map_eq_ok_iff.1 replaced with ⟨other, made, rfl⟩
    rcases Coloring.eq_of_construct made with ⟨onGraph, colors, palette, _⟩
    rw [frame, frame, onGraph, colors, palette]
  | vertexCovering family =>
    rcases Outcome.map_eq_ok_iff.1 replaced with ⟨other, made, rfl⟩
    rw [frame, frame, (VertexCovering.eq_of_construct made).1]
  | independentSet family =>
    rcases Outcome.map_eq_ok_iff.1 replaced with ⟨other, made, rfl⟩
    rw [frame, frame, (IndependentSet.eq_of_construct made).1]
  | setPacking family =>
    rcases Outcome.map_eq_ok_iff.1 replaced with ⟨other, made, rfl⟩
    rcases Outcome.map_eq_ok_iff.1 made with ⟨kept, _, rfl⟩
    rfl
  | qubo family =>
    rcases Outcome.map_eq_ok_iff.1 replaced with ⟨other, made, rfl⟩
    rw [frame, frame, (Qubo.size_of_update made).1]
  | custom family =>
    rcases Outcome.map_eq_ok_iff.1 replaced with ⟨kept, _, rfl⟩
    rfl

theorem frame_afterUpdate (subject : Instance) (weights : Weights.Argument) :
    (subject.afterUpdate weights).frame = subject.frame := by
  unfold afterUpdate
  split
  next replaced => exact frame_update replaced
  next => rfl

theorem frame_run (start : Instance) (calls : List Weights.Argument) : (start.run calls).frame = start.frame := by
  induction calls generalizing start with
  | nil => rfl
  | cons weights calls ih => exact (ih (start.afterUpdate weights)).trans (frame_afterUpdate start weights)

/-- After any calls the problem is the one with the last of the weights that it accepts, or as it was. -/
theorem run_of_lastAccepted (start : Instance) (calls : List Weights.Argument) :
    (start.lastAccepted? calls = none → start.run calls = start) ∧
      ∀ last, start.lastAccepted? calls = some last → start.update last = .ok (start.run calls) := by
  -- from the end of the calls, as the last one that is accepted decides
  induction calls using List.reverseRecOn with
  | nil => exact ⟨fun _ => rfl, fun last found => by cases found⟩
  | append_singleton calls weights ih =>
    have step : start.run (calls ++ [weights]) = (start.run calls).afterUpdate weights := by
      rw [run, run, List.foldl_append]
      rfl
    have same : (start.run calls).update weights = start.update weights := update_congr (frame_run start calls) weights
    rw [step, lastAccepted?, List.reverse_append, List.reverse_singleton, List.singleton_append, List.find?_cons,
      afterUpdate, same]
    cases replaced : start.update weights with
    | ok next =>
      refine ⟨fun none => (by cases none), fun last found => ?_⟩
      cases found
      exact replaced
    | error fault => exact ih

variable {blueprint : Blueprint} {count : Nat} {unit : String}

theorem exists_rebuild (made : blueprint.make initial = .ok start) (expects : start.frame.expects = some (count, unit)) :
    (∀ weights, blueprint.make weights = start.update weights) ∧
      ∃ rebuild : Value → Instance,
        (∀ weights, start.update weights = do return rebuild (← weights.normalize count unit)) ∧
        ∀ kept, (rebuild kept).problem.weights? = some kept := by
  cases blueprint with
  | coloring palette? graph colors =>
    rcases Outcome.map_eq_ok_iff.1 made with ⟨family, built, rfl⟩
    rcases Coloring.eq_of_construct built with ⟨rfl, rfl, rfl, _⟩
    cases expects
    refine ⟨fun weights => rfl, fun kept => .coloring { family with weights := kept }, fun weights => ?_, fun kept => rfl⟩
    rw [update, Coloring.update, Coloring.construct_of_construct built]
    simp only [bind_assoc, pure_bind]
  | vertexCovering graph =>
    rcases Outcome.map_eq_ok_iff.1 made with ⟨family, built, rfl⟩
    obtain ⟨rfl, _⟩ := VertexCovering.eq_of_construct built
    cases expects
    refine ⟨fun weights => rfl, fun kept => .vertexCovering ⟨family.graph, kept⟩, fun weights => ?_, fun kept => rfl⟩
    rw [update, VertexCovering.update, VertexCovering.construct_of_construct built]
    simp only [bind_assoc, pure_bind]
  | independentSet graph =>
    rcases Outcome.map_eq_ok_iff.1 made with ⟨family, built, rfl⟩
    obtain ⟨rfl, _⟩ := IndependentSet.eq_of_construct built
    cases expects
    refine ⟨fun weights => rfl, fun kept => .independentSet ⟨family.graph, kept⟩, fun weights => ?_, fun kept => rfl⟩
    rw [update, IndependentSet.update, IndependentSet.construct_of_construct built]
    simp only [bind_assoc, pure_bind]
  | setPacking sets =>
    rcases Outcome.map_eq_ok_iff.1 made with ⟨family, built, rfl⟩
    cases expects
    refine ⟨fun weights => ?_, fun kept => .setPacking ⟨family.sets, kept⟩, fun weights => ?_, fun kept => rfl⟩
    · rw [Blueprint.make, SetPacking.construct_of_construct built]
      rfl
    · rw [update, SetPacking.update]
      simp only [bind_assoc, pure_bind]
  | qubo =>
    rcases Outcome.map_eq_ok_iff.1 made with ⟨family, built, rfl⟩
    cases expects

theorem make_of_update (made : blueprint.make initial = .ok start) (replaced : start.update weights = .ok next) :
    blueprint.make weights = .ok next := by
  cases blueprint with
  | qubo =>
    rcases Outcome.map_eq_ok_iff.1 made with ⟨family, _, rfl⟩
    rcases Outcome.map_eq_ok_iff.1 replaced with ⟨other, accepted, rfl⟩
    rw [Blueprint.make, (Qubo.size_of_update accepted).2]
    rfl
  | _ =>
    rcases Outcome.map_eq_ok_iff.1 made with ⟨family, _, rfl⟩
    rw [(exists_rebuild made rfl).1]
    exact replaced

theorem exists_entries {size : Nat} (framed : subject.frame = .qubo size) : ∃ entries,
    subject.problem.weights? = some (.array (.real .double) [size, size] false entries) ∧
      entries.length = size * size := by
  cases subject with
  | qubo family =>
    cases framed
    refine ⟨_, rfl, ?_⟩
    rw [List.length_map, family.matrix.square]
  | _ => cases framed

theorem length_of_ranks {frame : Frame} {scopes : List (List Int)} (ranks : frame.Ranks scopes)
    (expects : frame.expects = some (count, unit)) : scopes.length = count := by
  cases ranks with
  | coloring _ simple =>
    cases expects
    rw [List.length_map, simple.edgeCount_eq]
  | vertexCovering =>
    cases expects
    rw [List.length_map, List.length_range]
  | independentSet =>
    cases expects
    rw [List.length_map, List.length_range]
  | setPacking =>
    cases expects
    rw [List.length_map, List.length_range]

theorem sameButWeights_of_frame (made : blueprint.make initial = .ok start) (madeToo : blueprint.make last = .ok next)
    (same : next.frame = start.frame) : next.problem.SameButWeights start.problem := by
  cases blueprint with
  | coloring palette? graph colors =>
    rcases Outcome.map_eq_ok_iff.1 made with ⟨family, built, rfl⟩
    rcases Outcome.map_eq_ok_iff.1 madeToo with ⟨other, builtToo, rfl⟩
    rcases Frame.coloring.inj same with ⟨palette, graphs, _⟩
    have sizes : (Except.ok other.paletteSize : Outcome Nat) = .ok family.paletteSize :=
      (Coloring.eq_of_construct builtToo).2.2.2.2.1.symm.trans (Coloring.eq_of_construct built).2.2.2.2.1
    exact {
      className_eq := congrArg Coloring.classNameOf palette
      sense_eq := rfl
      variableCount_eq := congrArg (fun graph : Graph => (graph.vertexCount : Int)) graphs
      flavors_eq := congrArg Coloring.flavorsOf (Except.ok.inj sizes)
      hardConstraints_eq := rfl }
  | vertexCovering graph =>
    rcases Outcome.map_eq_ok_iff.1 made with ⟨family, built, rfl⟩
    rcases Outcome.map_eq_ok_iff.1 madeToo with ⟨other, builtToo, rfl⟩
    have graphs := Frame.vertexCovering.inj same
    constructor <;> simp only [problem, VertexCovering.problem, graphs]
  | independentSet graph =>
    rcases Outcome.map_eq_ok_iff.1 made with ⟨family, built, rfl⟩
    rcases Outcome.map_eq_ok_iff.1 madeToo with ⟨other, builtToo, rfl⟩
    have graphs := Frame.independentSet.inj same
    constructor <;> simp only [problem, IndependentSet.problem, graphs]
  | setPacking sets =>
    rcases Outcome.map_eq_ok_iff.1 made with ⟨family, built, rfl⟩
    rcases Outcome.map_eq_ok_iff.1 madeToo with ⟨other, builtToo, rfl⟩
    have sets := Frame.setPacking.inj same
    constructor <;> simp only [problem, SetPacking.problem, SetPacking.disjointness, sets]
  | qubo =>
    rcases Outcome.map_eq_ok_iff.1 made with ⟨family, built, rfl⟩
    rcases Outcome.map_eq_ok_iff.1 madeToo with ⟨other, builtToo, rfl⟩
    have sizes := Frame.qubo.inj same
    constructor <;> simp only [problem, Qubo.problem, sizes]

open Weights

variable {kept : Value} {scopes : List (List Int)}

theorem exists_onItems (itemized : Itemized kept) (counted : kept.length = .ok count) (tag : String)
    (energy : List Int → Value → Value → Outcome Value) :
    ∃ soft items, Selection.onItems count kept tag energy = .ok soft ∧ kept.items = .ok items ∧
      soft.map SoftConstraint.scope = (List.range count).map (fun (index : Nat) => [(index : Int) + 1]) ∧
      soft.map SoftConstraint.weight = items := by
  rcases exists_items itemized counted with ⟨items, listed, lengths, reads⟩
  have weighs : ∀ index < count, kept.itemAt index = .ok (items.getD index .none) := by
    intro index bound
    rw [reads index (lengths.symm ▸ bound), List.getD_eq_getElem _ _ (lengths.symm ▸ bound)]
  refine ⟨_, items, Selection.onItems_eq_ok weighs tag energy, listed, ?_, ?_⟩
  · rw [List.map_map]
    rfl
  · rw [List.map_map]
    apply List.ext_getElem (by simp [lengths])
    intro index bound boundToo
    rw [List.getElem_map, List.getElem_range]
    exact List.getD_eq_getElem _ _ boundToo

theorem exists_soft (ranks : subject.frame.Ranks scopes) (weighted : subject.problem.weights? = some kept)
    (itemized : Itemized kept) (counted : kept.length = .ok scopes.length) :
    ∃ soft items, subject.problem.softConstraints = .ok soft ∧ kept.items = .ok items ∧
      soft.map SoftConstraint.scope = scopes ∧ soft.map SoftConstraint.weight = items := by
  cases subject with
  | coloring family =>
    cases weighted
    cases ranks with
    | @coloring _ kind _ edges _ _ simple _ =>
      rcases exists_items itemized counted with ⟨items, listed, lengths, _⟩
      rw [List.length_map] at lengths
      refine ⟨_, items, Coloring.constraints_eq_ok_of_items simple listed, listed,
        Coloring.scopes_edgeConstraint lengths.ge, ?_⟩
      have seconds : ((Graph.ranked kind edges).zip items).map Prod.snd = items := List.map_snd_zip lengths.le
      conv_rhs => rw [← seconds]
      rw [List.map_map]
      rfl
  | vertexCovering family =>
    cases weighted
    cases ranks
    rw [List.length_map, List.length_range] at counted
    exact exists_onItems itemized counted "vertex" Selection.cost
  | independentSet family =>
    cases weighted
    cases ranks
    rw [List.length_map, List.length_range] at counted
    exact exists_onItems itemized counted "vertex" Selection.gain
  | setPacking family =>
    cases weighted
    cases ranks
    rw [List.length_map, List.length_range] at counted
    exact exists_onItems itemized counted "set" Selection.gain
  | qubo family => cases ranks
  | custom family => cases ranks

end Instance

open Weights

/-- Weights stay aligned over every run of updates. The class, the graph or the sets, the variables, flavors and hard
    constraints never change, and the last problem is the one that the constructor makes with the last weights accepted. A
    matrix keeps its shape. Other weights are accepted as soon as they are absent or have the length expected and can be
    kept. They keep that length, unless an object gave more or fewer items than its length says; and where they have as
    many items as their length says, each rank has one soft constraint, with the weight at that rank. -/
theorem Blueprint.run_aligned (blueprint : Blueprint) {initial : Argument} {start : Instance}
    (made : blueprint.make initial = .ok start) (calls : List Argument) :
    (start.run calls).frame = start.frame ∧
    (start.run calls).problem.SameButWeights start.problem ∧
    blueprint.make ((start.lastAccepted? calls).getD initial) = .ok (start.run calls) ∧
    (∀ size, start.frame = .qubo size → ∃ entries,
      (start.run calls).problem.weights? = some (.array (.real .double) [size, size] false entries) ∧
        entries.length = size * size) ∧
    ∀ count unit, start.frame.expects = some (count, unit) → (count : Int) < Value.sizeLimit →
      (∃ kept, (start.run calls).problem.weights? = some kept ∧
        (((start.lastAccepted? calls).getD initial).Faithful → kept.length = .ok count) ∧
        ∀ scopes, start.frame.Ranks scopes → ((start.lastAccepted? calls).getD initial).Itemized →
          scopes.length = count ∧ ∃ soft items, (start.run calls).problem.softConstraints = .ok soft ∧
            kept.items = .ok items ∧ soft.map SoftConstraint.scope = scopes ∧
            soft.map SoftConstraint.weight = items) ∧
      ∀ weights : Argument,
        ((∃ next, (start.run calls).update weights = .ok next) ↔
          weights = .given .none ∨ weights.length = .ok count ∧ ∃ kept, weights.kept = .ok kept) ∧
        (∀ told, weights.length = .ok told → told ≠ count →
          (start.run calls).update weights = .error (.weightCount unit count told)) ∧
        (∀ fault, weights ≠ .given .none → weights.length = .error fault →
          (start.run calls).update weights = .error fault) ∧
        ∀ fault, weights.length = .ok count → weights.kept = .error fault →
          (start.run calls).update weights = .error fault := by
  have sameFrame := Instance.frame_run start calls
  have remade : blueprint.make ((start.lastAccepted? calls).getD initial) = .ok (start.run calls) := by
    rcases Instance.run_of_lastAccepted start calls with ⟨asItWas, replaced⟩
    cases accepted : start.lastAccepted? calls with
    | none =>
      rw [asItWas accepted]
      exact made
    | some last => exact Instance.make_of_update made (replaced last accepted)
  refine ⟨sameFrame, Instance.sameButWeights_of_frame made remade sameFrame, remade,
    fun size framed => Instance.exists_entries (sameFrame.trans framed), fun count unit expects small => ?_⟩
  -- from here on the families differ in the number of weights that they expect, and in nothing else
  rcases Instance.exists_rebuild made expects with ⟨sameMake, rebuild, replaced, weighted⟩
  constructor
  · rw [sameMake, replaced] at remade
    rcases Outcome.map_eq_ok_iff.1 remade with ⟨kept, normalized, final⟩
    rcases Argument.kept_of_normalize small normalized with ⟨counted, keptItems⟩
    have held : (start.run calls).problem.weights? = some kept := final ▸ weighted kept
    refine ⟨kept, held, counted, fun scopes ranks itemized => ?_⟩
    have lengths := Instance.length_of_ranks ranks expects
    rw [← sameFrame] at ranks
    have counted := counted itemized.1
    rw [← lengths] at counted
    exact ⟨lengths, Instance.exists_soft ranks held (keptItems itemized) counted⟩
  · intro weights
    rw [Instance.update_congr sameFrame, replaced]
    refine ⟨?_, fun told counted differ => ?_, fun fault present failed => ?_, fun fault counted failed => ?_⟩
    · rw [← Argument.exists_normalize_iff unit]
      constructor
      · rintro ⟨next, accepted⟩
        rcases Outcome.map_eq_ok_iff.1 accepted with ⟨kept, normalized, _⟩
        exact ⟨kept, normalized⟩
      · rintro ⟨kept, normalized⟩
        exact ⟨rebuild kept, Outcome.map_eq_ok_iff.2 ⟨kept, normalized, rfl⟩⟩
    · have named : (Fault.weightCount unit count told).stated = .weightCount unit count told := by
        have below : (count : Int).natAbs < 1 <<< 64 := by
          have limit : Value.sizeLimit = 2 ^ 63 := rfl
          omega
        exact Fault.stated_of_isWritable (Numeral.writes_of_lt below)
      rw [Argument.normalize_of_other_length counted differ, Outcome.refuse_bind, named]
    · rw [Argument.normalize_of_no_length present failed]
      rfl
    · rw [Argument.normalize_of_not_kept counted failed]
      rfl

theorem Blueprint.run_aligned_edge :
    ∃ start, (coloring none Graph.oneEdge (.int 2)).make (.given .none) = .ok start ∧
      ∃ soft, (start.run [.given (.list [.int 5]), .given (.tuple [.int 1, .int 2]), .given (.int 3),
        .foreign (.ok 1) (.error .unsupported) (.error .invalid)]).problem.softConstraints = .ok soft ∧
        soft.map SoftConstraint.scope = [[1, 2]] ∧ soft.map SoftConstraint.weight = [.int 5] := by
  let start : Instance := .coloring ⟨Graph.oneEdge, .int 2, none, 2, .unitWeight (.int 1)⟩
  let calls : List Argument := [.given (.list [.int 5]), .given (.tuple [.int 1, .int 2]), .given (.int 3),
    .foreign (.ok 1) (.error .unsupported) (.error .invalid)]
  have made : (coloring none Graph.oneEdge (.int 2)).make (.given .none) = .ok start := rfl
  have accepted : start.lastAccepted? calls = some (.given (.list [.int 5])) := rfl
  rcases run_aligned _ made calls with ⟨_, _, _, _, aligned⟩
  rcases (aligned 1 "edges" rfl (by decide)).1 with ⟨kept, weighted, _, ranked⟩
  have itemized : ((start.lastAccepted? calls).getD (.given .none)).Itemized := by
    rw [accepted]
    refine ⟨trivial, fun value same => ?_⟩
    cases same
    trivial
  rcases ranked [[1, 2]] (.coloring none Graph.simple_oneEdge (.int 2)) itemized with
    ⟨_, soft, items, constrained, listed, scopes, weights⟩
  have final : (start.run calls).problem.weights? = some (.tuple [.int 5]) := rfl
  cases weighted.symm.trans final
  cases listed
  exact ⟨start, made, soft, constrained, scopes, weights⟩

def Graph.parallelEdge : Graph := ⟨.parallel, [(.int 1, [⟨1, .int 2⟩]), (.int 2, [⟨0, .int 1⟩])], 1⟩

/-- Updates out of line: a unit weight too long to have a length is refused for that; one whose length is a word without
    sign is accepted but has no item for the edge, and so is an object that says it has an item and gives none; and a
    multigraph does not list its edges. -/
theorem Blueprint.exists_run_misaligned :
    (∃ start, (coloring none Graph.oneEdge (.int 2)).make (.given .none) = .ok start ∧
      start.update (.given (.unitWeight (.int (2 ^ 63)))) = .error .tooLarge) ∧
    (∃ start, (coloring none Graph.oneEdge (.int 2)).make (.given .none) = .ok start ∧
      (start.run [.given (.unitWeight (.ofWord .uint8 1))]).problem.weights? = some (.unitWeight (.ofWord .uint8 1)) ∧
      (start.run [.given (.unitWeight (.ofWord .uint8 1))]).problem.softConstraints = .ok []) ∧
    (∃ start, (coloring none Graph.oneEdge (.int 2)).make (.given .none) = .ok start ∧
      (start.run [.foreign (.ok 1) (.ok []) (.error .invalid)]).problem.weights? = some (.tuple []) ∧
      (start.run [.foreign (.ok 1) (.ok []) (.error .invalid)]).problem.softConstraints = .ok []) ∧
    Graph.build .parallel [] [(.int 1, .int 2)] = .ok Graph.parallelEdge ∧
    ∃ start, (coloring none Graph.parallelEdge (.int 2)).make (.given .none) = .ok start ∧
      start.problem.softConstraints = .error .invalid :=
  ⟨⟨_, rfl, rfl⟩, ⟨_, rfl, rfl, rfl⟩, ⟨_, rfl, rfl, rfl⟩, rfl, ⟨_, rfl, rfl⟩⟩

end EnergyTables
