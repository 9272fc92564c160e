import EnergyTables.Proofs.Coloring.EdgeConstraints
import EnergyTables.Proofs.Graph.Predicates
import EnergyTables.Proofs.Selection.Families

namespace EnergyTables

open Flavor Constraint

namespace Coloring

def monochromatic (values : List Nat) (edge : Int × Int) : Bool :=
  decide (choiceAt values edge.1 = choiceAt values edge.2)

def onEdge (entry : (Int × Int) × Int) : SoftConstraint :=
  ⟨[entry.1.1, entry.1.2], "edge", .int entry.2, energy [entry.1.1, entry.1.2] (.int entry.2)⟩

def edgeCost (constraint : SoftConstraint) (positions : List Nat) : Int :=
  if positions.getD 0 0 = positions.getD 1 0 then constraint.weight.whole else 0

variable {palette? : Option Palette} {graph : Graph} {kind : GraphKind} {vertices : List Int}
  {edges : List (Int × Int)} {count size : Nat} {colors weights : Value} {numbers : List Int} {coloring : Coloring}

def sizeFor (palette? : Option Palette) (colors : Value) : Outcome Nat :=
  match palette? with
  | some palette => .ok palette.size
  | none => Palette.sizeOf colors

def ofSize (palette? : Option Palette) (graph : Graph) (colors : Value) (weights : Weights.Argument) (size : Nat) :
    Outcome Coloring := do
  if !(← (Value.int size).equal colors) then refuse (.paletteMismatch (classNameOf palette?) size colors)
  return ⟨graph, colors, palette?, size, ← weights.normalize graph.edgeCount "edges"⟩

theorem construct_eq (palette? : Option Palette) (graph : Graph) (colors : Value) (weights : Weights.Argument) :
    construct palette? graph colors weights = (do
      graph.checkVertices
      Palette.checkPositive colors
      ofSize palette? graph colors weights (← sizeFor palette? colors)) := by
  cases palette? <;> rfl

theorem make_eq (palette? : Option Palette) (graph : Graph) (colors weights : Value) :
    make palette? graph colors weights = (do
      graph.checkVertices
      Palette.checkPositive colors
      ofSize palette? graph colors (.given weights) (← sizeFor palette? colors)) :=
  construct_eq palette? graph colors (.given weights)

theorem eq_of_construct {argument : Weights.Argument} (made : construct palette? graph colors argument = .ok coloring) :
    coloring.graph = graph ∧ coloring.colors = colors ∧ coloring.palette? = palette? ∧
      Palette.checkPositive colors = .ok () ∧ sizeFor palette? colors = .ok coloring.paletteSize ∧
      argument.normalize graph.edgeCount "edges" = .ok coloring.weights := by
  rw [construct_eq] at made
  rcases Outcome.bind_eq_ok_iff.1 made with ⟨_, _, rest⟩
  rcases Outcome.bind_eq_ok_iff.1 rest with ⟨_, positive, rest⟩
  rcases Outcome.bind_eq_ok_iff.1 rest with ⟨size, sized, rest⟩
  rcases Outcome.bind_eq_ok_iff.1 rest with ⟨same, _, rest⟩
  cases same with
  | false => cases rest
  | true =>
    rcases Outcome.map_eq_ok_iff.1 rest with ⟨kept, normalized, rfl⟩
    exact ⟨rfl, rfl, rfl, positive, sized, normalized⟩

theorem eq_of_make (made : make palette? graph colors weights = .ok coloring) :
    coloring.graph = graph ∧ sizeFor palette? colors = .ok coloring.paletteSize ∧
      Weights.normalize weights graph.edgeCount "edges" = .ok coloring.weights := by
  obtain ⟨onGraph, _, _, _, sized, normalized⟩ := eq_of_construct made
  exact ⟨onGraph, sized, normalized⟩

theorem asked_of_make (made : make palette? graph colors weights = .ok coloring) :
    Palette.checkPositive colors = .ok () ∧ coloring.colors = colors ∧ coloring.palette? = palette? := by
  obtain ⟨_, colors, palette, positive, _⟩ := eq_of_construct made
  exact ⟨positive, colors, palette⟩

theorem constraints_eq_ok (simple : coloring.graph.Simple kind vertices edges count)
    (items : coloring.weights.items = .ok (numbers.map .int)) :
    coloring.constraints = .ok (((Graph.ranked kind edges).zip numbers).map onEdge) := by
  rw [constraints_eq_ok_of_items simple items, List.zip_map_right, List.map_map]
  rfl

theorem costsExactly_onEdge (size : Nat) (entry : (Int × Int) × Int) :
    (onEdge entry).CostsExactly (flavorsOf size) (edgeCost (onEdge entry)) := by
  intro positions within
  rw [flavorsOf, List.length_map, List.length_range] at within
  rcases List.length_eq_two.1 within.1 with ⟨source, target, rfl⟩
  have priced := energy_edgeConstraint (entry.1, Value.int entry.2) (within.2 source (by simp)) (within.2 target (by simp))
  refine priced.trans (congrArg Except.ok ?_)
  by_cases shared : source = target
  · simp [edgeCost, shared, onEdge, Value.whole]
    rfl
  · simp [edgeCost, shared]

theorem edgeCost_cases (constraint : SoftConstraint) (positions : List Nat) :
    edgeCost constraint positions = constraint.weight.whole ∨ edgeCost constraint positions = 0 := by
  unfold edgeCost
  split
  · exact .inl rfl
  · exact .inr rfl

theorem edgeCost_onEdge {values : List Nat} (length : values.length = count) {entry : (Int × Int) × Int}
    (inside : ∀ index ∈ (onEdge entry).scope, 1 ≤ index ∧ index ≤ count) :
    edgeCost (onEdge entry) (localPositions (onEdge entry).scope (positionsOf values)) =
      if monochromatic values entry.1 then entry.2 else 0 := by
  rw [localPositions_positionsOf length inside]
  by_cases shared : choiceAt values entry.1.1 = choiceAt values entry.1.2
  · simp [edgeCost, onEdge, monochromatic, shared, Value.whole]
    rfl
  · simp [edgeCost, onEdge, monochromatic, shared]

/-- With plain integers as weights the constraints have an exact meaning, by which nothing is violated and the cost is
    the total weight of the monochromatic edges. -/
theorem exists_meaning (simple : graph.Simple kind vertices edges count) (plain : Weights.Plain weights numbers)
    (counted : numbers.length = graph.edgeCount) (held : ∀ number ∈ numbers, IntFormat.int64.Holds number)
    (made : make palette? graph colors weights = .ok coloring) :
    ∃ meaning : coloring.problem.Meaning .int64 count, meaning.hard = [] ∧ meaning.Exact ∧
      ∀ values : List Nat, values.length = count → meaning.softCost (positionsOf values) =
        Weights.marked numbers ((Graph.ranked kind edges).map (monochromatic values)) := by
  rcases eq_of_make made with ⟨rfl, _, normalized⟩
  rw [← counted] at normalized
  rcases plain.exists_kept "edges" with ⟨kept, found, items, _⟩
  cases found.symm.trans normalized
  have inside : ∀ constraint ∈ ((Graph.ranked kind edges).zip numbers).map onEdge,
      ∀ index ∈ constraint.scope, 1 ≤ index ∧ index ≤ count := by
    refine List.forall_mem_map.2 fun entry member => ?_
    have ends := simple.ranked_inside (List.of_mem_zip member).1
    simp only [onEdge, List.mem_cons, List.not_mem_nil, or_false, forall_eq_or_imp, forall_eq]
    omega
  have exact : ∀ constraint ∈ ((Graph.ranked kind edges).zip numbers).map onEdge,
      constraint.CostsExactly (flavorsOf coloring.paletteSize) (edgeCost constraint) :=
    List.forall_mem_map.2 fun entry _ => costsExactly_onEdge _ entry
  refine ⟨{
    hard := []
    soft := ((Graph.ranked kind edges).zip numbers).map onEdge
    allowed := fun _ _ => true
    cost := edgeCost
    energyKind_eq := Selection.energyKind_eq_ok rfl (plain.given.kept_of_normalize normalized)
    counted := congrArg Nat.cast simple.vertexCount_eq
    hard_eq := rfl
    soft_eq := constraints_eq_ok simple items
    hard_inside := by simp
    soft_inside := inside
    decides := by simp
    costs := by
      intro constraint member
      apply (exact constraint member).costs
      rcases List.mem_map.1 member with ⟨entry, listed, rfl⟩
      intro positions _
      rcases edgeCost_cases (onEdge entry) positions with cost | cost
      · rw [cost]
        exact held entry.2 (List.of_mem_zip listed).2
      · rw [cost]
        exact IntFormat.int64.holds_zero }, rfl, exact, fun values length => ?_⟩
  rw [Problem.Meaning.softCost, List.map_map, Weights.marked_map]
  refine congrArg List.sum (List.map_congr_left fun entry member => ?_)
  exact edgeCost_onEdge length (inside _ (List.mem_map_of_mem member))

theorem energy_eq_ok (simple : graph.Simple kind vertices edges count) (plain : Weights.Plain weights numbers)
    (counted : numbers.length = graph.edgeCount) (held : ∀ number ∈ numbers, IntFormat.int64.Holds number)
    (made : make palette? graph colors weights = .ok coloring) {values : List Nat}
    (within : values ∈ Choices coloring.paletteSize count) {configuration : Value}
    (lists : configuration.Lists (values.map fun (value : Nat) => .int value)) :
    coloring.problem.energy configuration = .ok (.number (.ofWord .int64
      (Weights.marked numbers ((Graph.ranked kind edges).map (monochromatic values))))) := by
  rcases exists_meaning simple plain counted held made with ⟨meaning, hard, _, cost⟩
  have places := Problem.places_of_choices rfl meaning.counted within lists
  rw [meaning.energy_eq_ok places, Problem.Meaning.energy, Problem.Meaning.violations, hard, List.countP_nil,
    Nat.cast_zero, zero_mul, zero_add, cost values within.1]

/-- The colorings of a graph with so many colors, by the general class or by the class of the palette. -/
inductive OfColors (graph : Graph) (size : Nat) (weights : Value) : Coloring → Prop
  | free {coloring : Coloring} (made : make none graph (.int size) weights = .ok coloring) :
      OfColors graph size weights coloring
  | fixed {palette : Palette} {coloring : Coloring} (offered : Palette.ofColors (.int size) = .ok palette)
      (made : make (some palette) graph (.int size) weights = .ok coloring) : OfColors graph size weights coloring

theorem checkPositive_int (positive : 0 < size) : Palette.checkPositive (.int size) = .ok () := by
  have enough : ¬ (size : Int) < 1 := by omega
  rw [Palette.checkPositive, Value.less_int, decide_eq_false enough]
  rfl

theorem sizeOf_eq_ok_iff {found : Nat} :
    Palette.sizeOf (.int size) = .ok found ↔ (size : Int) < Value.sizeLimit ∧ found = size := by
  have index : (Value.int size).asIndex = .ok size := rfl
  have sized : Palette.sizeOf (.int size) = if (size : Int) < Value.sizeLimit then .ok size else .error .tooLarge := by
    rw [Palette.sizeOf, index, Outcome.ok_bind, Int.toNat_natCast]
    rfl
  by_cases small : (size : Int) < Value.sizeLimit
  · simp [sized, small, eq_comm]
  · simp [sized, small]

theorem ofColors_eq_ok_iff (positive : 0 < size) {palette : Palette} :
    Palette.ofColors (.int size) = .ok palette ↔ (size : Int) < Value.sizeLimit ∧ palette = ⟨.int size, size⟩ := by
  rw [Palette.ofColors, checkPositive_int positive, Outcome.ok_bind, Outcome.bind_eq_ok_iff]
  constructor
  · rintro ⟨found, sized, made⟩
    rcases sizeOf_eq_ok_iff.1 sized with ⟨small, rfl⟩
    cases made
    exact ⟨small, rfl⟩
  · rintro ⟨small, rfl⟩
    exact ⟨size, sizeOf_eq_ok_iff.2 ⟨small, rfl⟩, rfl⟩

theorem OfColors.exists_make (ofColors : OfColors graph size weights coloring) (positive : 0 < size) :
    coloring.paletteSize = size ∧ ∃ palette?, make palette? graph (.int size) weights = .ok coloring := by
  cases ofColors with
  | free made => exact ⟨(sizeOf_eq_ok_iff.1 (eq_of_make made).2.1).2, none, made⟩
  | fixed offered made =>
    rcases (ofColors_eq_ok_iff positive).1 offered with ⟨_, rfl⟩
    exact ⟨(Except.ok.inj (eq_of_make made).2.1).symm, _, made⟩

theorem OfColors.positive (ofColors : OfColors graph size weights coloring) : 0 < size := by
  have checked : Palette.checkPositive (.int size) = .ok () := by
    cases ofColors with
    | free made => exact (asked_of_make made).1
    | fixed _ made => exact (asked_of_make made).1
  by_contra none
  have few : (size : Int) < 1 := by omega
  rw [Palette.checkPositive, Value.less_int, decide_eq_true few] at checked
  cases checked

theorem exists_make (simple : graph.Simple kind vertices edges count) (positive : 0 < size)
    (plain : Weights.Plain weights numbers) (counted : numbers.length = graph.edgeCount)
    (sized : sizeFor palette? (.int size) = .ok size) :
    ∃ coloring, make palette? graph (.int size) weights = .ok coloring := by
  rcases plain.exists_kept "edges" with ⟨kept, normalized, _⟩
  rw [counted] at normalized
  refine ⟨⟨graph, .int size, palette?, size, kept⟩, ?_⟩
  rw [make_eq, simple.checkVertices_eq_ok, Outcome.ok_bind, checkPositive_int positive, Outcome.ok_bind, sized,
    Outcome.ok_bind, ofSize, Value.equal_int, decide_eq_true rfl, Outcome.ok_bind]
  simp [normalized]

theorem count_monochromatic {values : List Nat} (listed : List (Int × Int)) :
    (listed.map (monochromatic values)).count true = listed.countP (monochromatic values) := by
  rw [List.count, List.countP_map]
  congr 1
  funext edge
  simp

theorem proper_iff (listed : List (Int × Int)) (values : List Nat) :
    (listed.all fun edge => decide (choiceAt values edge.1 ≠ choiceAt values edge.2)) = true ↔
      ∀ mark ∈ listed.map (monochromatic values), mark = false := by
  simp [monochromatic]

/-- The energy of a coloring is the total weight of the edges whose ends share a color, the weights going to the edges in
    their order: their number with unit weights, and zero for proper colorings alone with these or with positive weights
    that a word has room for. It is the same with a fixed palette. -/
theorem energy_monochromatic (simple : graph.Simple kind vertices edges count) (positive : 0 < size)
    (plain : Weights.Plain weights numbers) (counted : numbers.length = graph.edgeCount)
    (held : ∀ number ∈ numbers, IntFormat.int64.Holds number) :
    ((∃ coloring, make none graph (.int size) weights = .ok coloring) ↔ (size : Int) < Value.sizeLimit) ∧
    ((∃ palette coloring, Palette.ofColors (.int size) = .ok palette ∧
      make (some palette) graph (.int size) weights = .ok coloring) ↔ (size : Int) < Value.sizeLimit) ∧
    ∀ values ∈ Choices size count, ∀ configuration : Value,
      configuration.Lists (values.map fun (value : Nat) => .int value) → ∃ (word : Word .int64) (proper : Bool),
        (∀ coloring, OfColors graph size weights coloring →
          coloring.problem.energy configuration = .ok (.number (.word .int64 word))) ∧
        graph.isColoring configuration = .ok proper ∧
        word.val ≡ Weights.marked numbers ((Graph.ranked kind edges).map (monochromatic values)) [ZMOD 2 ^ 64] ∧
        (Weights.AreUnits weights → word.val = (Graph.ranked kind edges).countP (monochromatic values)) ∧
        (Weights.AreUnits weights ∨ (∀ number ∈ numbers, 0 < number) ∧ numbers.sum < 2 ^ 63 →
          (word.val = 0 ↔ proper = true)) := by
  refine ⟨?_, ?_, fun values within configuration lists => ?_⟩
  · constructor
    · rintro ⟨coloring, made⟩
      exact (sizeOf_eq_ok_iff.1 (eq_of_make made).2.1).1
    · intro small
      exact exists_make simple positive plain counted (sizeOf_eq_ok_iff.2 ⟨small, rfl⟩)
  · constructor
    · rintro ⟨palette, coloring, offered, _⟩
      exact ((ofColors_eq_ok_iff positive).1 offered).1
    · intro small
      have sized : sizeFor (some ⟨.int size, size⟩) (.int size) = .ok size := rfl
      rcases exists_make simple positive plain counted sized with ⟨coloring, made⟩
      exact ⟨_, coloring, (ofColors_eq_ok_iff positive).2 ⟨small, rfl⟩, made⟩
  · have lengths : numbers.length = ((Graph.ranked kind edges).map (monochromatic values)).length := by
      rw [List.length_map, counted, simple.edgeCount_eq]
    refine ⟨.wrap .int64 (Weights.marked numbers ((Graph.ranked kind edges).map (monochromatic values))), _,
      fun coloring ofColors => ?_, simple.isColoring_eq_ok within.1 lists, Word.val_wrap_modEq _, fun units => ?_,
      fun small => ?_⟩
    · rcases ofColors.exists_make positive with ⟨rfl, palette?, made⟩
      exact energy_eq_ok simple plain counted held made within lists
    · have small := plain.small_of_areUnits units
      rw [Weights.val_wrap_marked small.1 small.2, (plain.of_areUnits units).1, lengths, Weights.marked_replicate,
        count_monochromatic]
    · have small := small.elim plain.small_of_areUnits id
      rw [Weights.val_wrap_marked small.1 small.2, Weights.marked_eq_zero_iff small.1 lengths, proper_iff]

theorem energy_monochromatic_arcs : ∃ word : Word .int64, word.val ≡ 12 [ZMOD 2 ^ 64] ∧ word.val ≠ 0 ∧
    (do
      let graph ← Graph.build .directed ([3, 1, 2].map .int) ([(2, 1), (3, 2), (1, 2)].map Graph.pairOf)
      let coloring ← make none graph (.int 2) (.list ([5, 7, 1].map .int))
      coloring.problem.energy (.list ([1, 1, 0].map fun (color : Nat) => .int color))) =
        .ok (.number (.word .int64 word)) := by
  have built : Graph.build .directed ([3, 1, 2].map .int) ([(2, 1), (3, 2), (1, 2)].map Graph.pairOf) = .ok _ := rfl
  have simple := Graph.simple_of_check (by decide) built rfl (by decide)
  rcases energy_monochromatic simple (by decide : 0 < 2) (.list [5, 7, 1]) rfl (by decide) with ⟨_, _, energies⟩
  rcases energies [1, 1, 0] ⟨rfl, by decide⟩ _ (.list _) with ⟨word, proper, energy, checked, congruent, _, zero_iff⟩
  have shared : Weights.marked [5, 7, 1] ((Graph.ranked .directed [(2, 1), (3, 2), (1, 2)]).map
      (monochromatic [1, 1, 0])) = 12 := by decide +kernel
  rw [shared] at congruent
  have improper : proper = false := (Except.ok.inj checked).symm
  have nonzero : word.val ≠ 0 := by
    rw [ne_eq, zero_iff (.inr (by decide)), improper]
    exact Bool.false_ne_true
  exact ⟨word, congruent, nonzero, energy _ (.free rfl)⟩

end Coloring

end EnergyTables
