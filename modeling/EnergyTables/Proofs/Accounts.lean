import EnergyTables.Proofs.Coloring.MonochromaticEdges

namespace EnergyTables

open Flavor

namespace Selection

theorem mem_vectors_of_choices {bits : List Nat} {count : Nat} (within : bits ∈ Choices 2 count) : bits ∈ Vectors count :=
  ⟨within.1, fun bit member => Nat.le_of_lt_succ (within.2 bit member)⟩

end Selection

namespace Problem

/-- The constraints have an exact meaning, by which the soft cost is the weight that is marked, with the sign of a
    size. -/
def Accounts (problem : Problem) (flavorCount count : Nat) (numbers : List Int) (marks : List Nat → List Bool) : Prop :=
  problem.flavors = Coloring.flavorsOf flavorCount ∧ ∃ meaning : problem.Meaning .int64 count, meaning.Exact ∧
    ∀ values ∈ Choices flavorCount count,
      meaning.softCost (positionsOf values) = problem.sense.sign * Weights.marked numbers (marks values)

end Problem

open Problem Selection

theorem Selection.Poses.accounts {problem : Problem} {numbers : List Int} {kept : Value} {pairs : List (Int × Int)}
    {bit : Nat} (poses : Poses problem .int64 numbers kept pairs bit problem.sense.sign)
    (areInts : Weights.AreInts kept numbers)
    (held : ∀ number ∈ numbers, IntFormat.int64.Holds number ∧ IntFormat.int64.Holds (-number)) :
    problem.Accounts 2 numbers.length numbers fun bits => bits.map fun bit => decide (bit = 1) := by
  rcases poses.exists_meaning held with ⟨meaning, exact, means⟩
  refine ⟨poses.flavors_eq, meaning, exact areInts, fun bits within => ?_⟩
  have within := mem_vectors_of_choices within
  rw [(means bits within).2, total_eq_marked within]

/-- The problems with plain integers as weights, and what a configuration marks to be paid: edges whose ends share a
    color, vertices or sets that are selected. -/
inductive Pays : Problem → (flavorCount count : Nat) → List Int → (List Nat → List Bool) → Prop
  | coloring {palette? : Option Palette} {graph : Graph} {kind : GraphKind} {vertices : List Int}
      {edges : List (Int × Int)} {count : Nat} {colors weights : Value} {numbers : List Int} {coloring : Coloring}
      (simple : graph.Simple kind vertices edges count) (plain : Weights.Plain weights numbers)
      (counted : numbers.length = graph.edgeCount)
      (made : Coloring.make palette? graph colors weights = .ok coloring) :
      Pays coloring.problem coloring.paletteSize count numbers
        fun values => (Graph.ranked kind edges).map (Coloring.monochromatic values)
  | vertexCovering {graph : Graph} {kind : GraphKind} {vertices : List Int} {edges : List (Int × Int)} {weights : Value}
      {numbers : List Int} {covering : VertexCovering}
      (simple : graph.Simple kind vertices edges numbers.length) (plain : Weights.Plain weights numbers)
      (made : VertexCovering.make graph weights = .ok covering) :
      Pays covering.problem 2 numbers.length numbers fun bits => bits.map fun bit => decide (bit = 1)
  | independentSet {graph : Graph} {kind : GraphKind} {vertices : List Int} {edges : List (Int × Int)} {weights : Value}
      {numbers : List Int} {independent : IndependentSet}
      (simple : graph.Simple kind vertices edges numbers.length) (plain : Weights.Plain weights numbers)
      (made : IndependentSet.make graph weights = .ok independent) :
      Pays independent.problem 2 numbers.length numbers fun bits => bits.map fun bit => decide (bit = 1)
  | setPacking {sets weights : Value} {numbers : List Int} {packing : SetPacking} (plain : Weights.Plain weights numbers)
      (made : SetPacking.make sets weights = .ok packing)
      (keys : 2 ≤ packing.sets.length → ∀ set ∈ packing.sets, Value.areKeys set = true)
      (counted : numbers.length = packing.sets.length) :
      Pays packing.problem 2 numbers.length numbers fun bits => bits.map fun bit => decide (bit = 1)

namespace Pays

variable {problem : Problem} {flavorCount count : Nat} {numbers : List Int} {marks : List Nat → List Bool}

theorem accounts (pays : Pays problem flavorCount count numbers marks)
    (held : ∀ number ∈ numbers, IntFormat.int64.Holds number ∧ IntFormat.int64.Holds (-number)) :
    problem.Accounts flavorCount count numbers marks := by
  cases pays with
  | coloring simple plain counted made =>
    rcases Coloring.exists_meaning simple plain counted (fun number member => (held number member).1) made with
      ⟨meaning, _, exact, cost⟩
    refine ⟨rfl, meaning, exact, fun values within => ?_⟩
    rw [cost values within.1]
    exact (one_mul _).symm
  | vertexCovering simple plain made =>
    have normalized := (VertexCovering.eq_of_make made).2
    rw [simple.vertexCount_eq] at normalized
    exact (VertexCovering.poses simple plain.given rfl made).accounts (plain.areInts_of_normalize normalized) held
  | independentSet simple plain made =>
    have normalized := (IndependentSet.eq_of_make made).2
    rw [simple.vertexCount_eq] at normalized
    exact (IndependentSet.poses simple plain.given rfl made).accounts (plain.areInts_of_normalize normalized) held
  | setPacking plain made keys counted =>
    have normalized := SetPacking.normalize_of_make made
    rw [← counted] at normalized
    have comparable := SetPacking.comparable_of_keys keys
    exact (SetPacking.poses plain.given made comparable counted).accounts (plain.areInts_of_normalize normalized) held

/-- What a configuration marks is its size; the energy is the sentinels of its violations and the size with its sign,
    reduced to a word, and exact where that fits. -/
theorem energy_modEq (pays : Pays problem flavorCount count numbers marks)
    (held : ∀ number ∈ numbers, IntFormat.int64.Holds number ∧ IntFormat.int64.Holds (-number)) {values : List Nat}
    (within : values ∈ Choices flavorCount count) {configuration : Value}
    (lists : configuration.Lists (values.map fun (value : Nat) => .int value)) :
    ∃ (violated : List HardConstraint) (word : Word .int64) (exact : Int),
      problem.violatedConstraints configuration = .ok violated ∧
      problem.solutionSize configuration = .ok ⟨.int (Weights.marked numbers (marks values)), violated.isEmpty⟩ ∧
      problem.energy configuration = .ok (.number (.word .int64 word)) ∧
      exact = violated.length * IntFormat.int64.sentinel + problem.sense.sign * Weights.marked numbers (marks values) ∧
      word.val ≡ exact [ZMOD 2 ^ 64] ∧ (IntFormat.int64.Holds exact → word.val = exact) := by
  rcases pays.accounts held with ⟨flavored, meaning, isExact, cost⟩
  have places := places_of_choices flavored meaning.counted within lists
  have violated := places.violatedConstraints_eq_ok meaning.hard_eq meaning.hard_inside _ meaning.decides
  have size := meaning.solutionSize_eq_ok isExact places violated
  -- a maximising family negates its weights, and the size negates their sum back
  have unit : problem.sense.sign * problem.sense.sign = 1 := by cases problem.sense <;> rfl
  rw [cost values within, ← mul_assoc, unit, one_mul] at size
  refine ⟨_, _, meaning.energy (positionsOf values), violated, size, meaning.energy_eq_ok places, ?_,
    Word.val_wrap_modEq _, Word.val_wrap_of_holds⟩
  rw [Meaning.energy, cost values within, Meaning.violations, List.countP_eq_length_filter]

theorem energy_modEq_path : ∃ (independent : IndependentSet) (violated : List HardConstraint) (word : Word .int64),
    (do
      let graph ← Graph.build .undirected ([1, 2, 3].map .int) ([(1, 2), (3, 2)].map Graph.pairOf)
      IndependentSet.make graph (.list ([5, -2, 7].map .int))) = .ok independent ∧
    independent.problem.violatedConstraints (.list ([1, 1, 0].map fun (bit : Nat) => .int bit)) = .ok violated ∧
    independent.problem.solutionSize (.list ([1, 1, 0].map fun (bit : Nat) => .int bit)) =
      .ok ⟨.int 3, violated.isEmpty⟩ ∧
    independent.problem.energy (.list ([1, 1, 0].map fun (bit : Nat) => .int bit)) = .ok (.number (.word .int64 word)) ∧
    word.val ≡ violated.length * IntFormat.int64.sentinel - 3 [ZMOD 2 ^ 64] := by
  have built : Graph.build .undirected ([1, 2, 3].map .int) ([(1, 2), (3, 2)].map Graph.pairOf) = .ok _ := rfl
  have simple := Graph.simple_of_check (by decide) built rfl (by decide)
  have pays := Pays.independentSet simple (.list [5, -2, 7]) rfl
  rcases pays.energy_modEq (by decide) (⟨rfl, by decide⟩ : [1, 1, 0] ∈ Choices 2 3) (.list _) with
    ⟨violated, word, exact, found, size, energy, same, congruent, _⟩
  have total : Weights.marked [5, -2, 7] ([1, 1, 0].map fun bit => decide (bit = 1)) = 3 := by decide
  rw [total] at same size
  refine ⟨_, violated, word, rfl, found, size, energy, ?_⟩
  rw [same] at congruent
  exact congruent

end Pays

end EnergyTables
