import EnergyTables.Proofs.Coloring.EdgeConstraints
import EnergyTables.Proofs.Evaluation.Totals
import EnergyTables.Proofs.Weights.Sameness

namespace EnergyTables

open Flavor Constraint

variable {count : Nat} {numbers : List Rat}

namespace Coloring

def edgeSize (positions : List Nat) (entry : (Int × Int) × Rat) : Rat :=
  if localPositions [entry.1.1] positions = localPositions [entry.1.2] positions then entry.2 else 0

/-- The total of the edges with their weights, in the order of their ranks. -/
def totalOf (edges : List (Int × Int)) (numbers : List Rat) (positions : List Nat) : Rat :=
  ((edges.zip numbers).map (edgeSize positions)).sum

variable {kind : GraphKind} {vertices : List Int} {edges : List (Int × Int)} {coloring : Coloring}

theorem sizes (simple : coloring.graph.Simple kind vertices edges count)
    (bears : Weights.Bears coloring.weights numbers) :
    coloring.problem.Sizes count (totalOf (Graph.ranked kind edges) numbers) := by
  intro configuration positions violated places found
  rcases bears.exists_items with ⟨items, held, each⟩
  rcases Value.IsRational.of_forall₂ each with ⟨rfl, areRational⟩
  have constrained := constraints_eq_ok_of_items simple held
  have inside : ∀ entry ∈ (Graph.ranked kind edges).zip items, ∀ index ∈ (edgeConstraint entry).scope,
      1 ≤ index ∧ index ≤ count := by
    intro entry member
    have ends := simple.ranked_inside (List.of_mem_zip member).1
    simp only [edgeConstraint, List.mem_cons, List.not_mem_nil, or_false, forall_eq_or_imp, forall_eq]
    omega
  have priced : ∀ entry ∈ (Graph.ranked kind edges).zip items, ∃ value, (edgeConstraint entry).energy
      (.list ((localPositions (edgeConstraint entry).scope positions).map (ofPosition coloring.problem.flavors))) =
        .ok value ∧ value.IsRational (edgeSize positions (entry.1, entry.2.ratio)) := by
    intro entry member
    have among := (localPositions_mem places.within (inside entry member)).2
    rw [Problem.flavorCount, problem, flavorsOf, List.length_map, List.length_range] at among
    have source := among (positions.getD (entry.1.1.toNat - 1) 0) (by simp [localPositions, edgeConstraint])
    have target := among (positions.getD (entry.1.2.toNat - 1) 0) (by simp [localPositions, edgeConstraint])
    refine ⟨_, energy_edgeConstraint entry source target, ?_⟩
    simp only [edgeSize, localPositions, List.map_cons, List.map_nil, List.cons.injEq, and_true]
    split
    · exact areRational entry.2 (List.of_mem_zip member).2
    · exact Value.isRational_zero
  rcases places.exists_total inside priced with ⟨total, summed, isTotal⟩
  have sums : totalOf (Graph.ranked kind edges) (items.map Value.ratio) positions =
      (((Graph.ranked kind edges).zip items).map fun entry => edgeSize positions (entry.1, entry.2.ratio)).sum := by
    rw [totalOf, List.zip_map_right, List.map_map]
    rfl
  rcases Problem.exists_solutionSize found constrained summed isTotal with ⟨size, sized, isSize⟩
  refine ⟨size, sized, ?_⟩
  rw [sums]
  simpa [problem, Sense.sign] using isSize

end Coloring

namespace Selection

/-- A soft rule whose energy is a rational weight, with a sign, as often as the item is selected. -/
def PricesRationals (sign : Int) (energy : List Int → Value → Value → Outcome Value) : Prop :=
  ∀ {scope : List Int} {weight : Value} {number : Rat} {position : Nat}, scope.length = 1 → weight.IsRational number →
    1 ≤ position ∧ position ≤ 2 → ∃ value, energy scope weight (.list [ofPosition flavors position]) = .ok value ∧
      value.IsRational (sign * number * ((position - 1 : Nat) : Int))

theorem pricesRationals_cost : PricesRationals 1 cost := by
  intro scope weight number position single isNumber among
  rw [cost_eq single weight among, Int.cast_one, one_mul]
  exact isNumber.exists_mul (.int _)

theorem pricesRationals_gain : PricesRationals (-1) gain := by
  intro scope weight number position single isNumber among
  rcases isNumber.exists_neg with ⟨opposite, negated, isOpposite⟩
  rw [gain_eq single negated among, Int.cast_neg, Int.cast_one, neg_one_mul]
  exact isOpposite.exists_mul (.int _)

def totalOf (sign : Int) (numbers : List Rat) (positions : List Nat) : Rat :=
  ((List.range numbers.length).map fun index =>
    sign * numbers.getD index 0 * ((positions.getD index 0 - 1 : Nat) : Int)).sum

theorem sizes {problem : Problem} {kept : Value} {tag : String} {sign : Int}
    {energy : List Int → Value → Value → Outcome Value} (flavored : problem.flavors = flavors)
    (soft : problem.softConstraints = onItems numbers.length kept tag energy) (bears : Weights.Bears kept numbers)
    (prices : PricesRationals sign energy) :
    problem.Sizes numbers.length fun positions => problem.sense.sign * totalOf sign numbers positions := by
  intro configuration positions violated places found
  rcases bears.exists_weightAt with ⟨weightAt, weighs⟩
  rw [onItems_eq_ok (fun index bound => (weighs index bound).1)] at soft
  have inside : ∀ index ∈ List.range numbers.length, ∀ variableIndex ∈ (onItem tag energy weightAt index).scope,
      1 ≤ variableIndex ∧ variableIndex ≤ numbers.length := by
    intro index member variableIndex listed
    have bound := List.mem_range.1 member
    rw [List.mem_singleton.1 listed]
    omega
  have priced : ∀ index ∈ List.range numbers.length, ∃ value, (onItem tag energy weightAt index).energy
      (.list ((localPositions (onItem tag energy weightAt index).scope positions).map (ofPosition problem.flavors))) =
        .ok value ∧ value.IsRational (sign * numbers.getD index 0 * ((positions.getD index 0 - 1 : Nat) : Int)) := by
    intro index member
    have bound := List.mem_range.1 member
    have place : localPositions (onItem tag energy weightAt index).scope positions = [positions.getD index 0] := by
      simp [localPositions, onItem]
    have among := (localPositions_mem places.within (inside index member)).2 (positions.getD index 0) (by simp [place])
    rw [place, flavored]
    rw [Problem.flavorCount, flavored] at among
    exact prices rfl (weighs index bound).2 among
  rcases places.exists_total inside priced with ⟨total, summed, isTotal⟩
  exact Problem.exists_solutionSize found soft summed isTotal

end Selection

end EnergyTables
