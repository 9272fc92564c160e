import EnergyTables.Proofs.Evaluation.Configurations
import EnergyTables.Proofs.Value.Rationals

namespace EnergyTables.Problem

open Flavor Constraint

variable {problem : Problem} {count : Nat} {configuration : Value} {positions : List Nat}

theorem Places.exists_total {α : Type} (places : problem.Places count configuration positions) {entries : List α}
    {constraintOf : α → SoftConstraint} {amount : α → Rat}
    (inside : ∀ entry ∈ entries, ∀ index ∈ (constraintOf entry).scope, 1 ≤ index ∧ index ≤ count)
    (priced : ∀ entry ∈ entries, ∃ value, (constraintOf entry).energy
      (.list ((localPositions (constraintOf entry).scope positions).map (ofPosition problem.flavors))) = .ok value ∧
        value.IsRational (amount entry)) :
    ∃ total, (entries.map constraintOf).foldlM (fun (total : Value) constraint => do
      total.add (← localEnergy configuration constraint)) (.int 0) = .ok total ∧
        total.IsRational (entries.map amount).sum := by
  have found : ∀ entry ∈ entries, ∃ value, localEnergy configuration (constraintOf entry) = .ok value ∧
      value.IsRational (amount entry) := by
    intro entry member
    rw [localEnergy, places.localValues_eq_ok (inside entry member), Outcome.ok_bind]
    exact priced entry member
  rcases Value.IsRational.exists_sum found Value.isRational_zero with ⟨total, summed, isTotal⟩
  rw [zero_add] at isTotal
  exact ⟨total, by rw [List.foldlM_map]; exact summed, isTotal⟩

theorem exists_solutionSize {violated : List HardConstraint} {soft : List SoftConstraint} {total : Value} {number : Rat}
    (found : problem.violatedConstraints configuration = .ok violated) (constrained : problem.softConstraints = .ok soft)
    (summed : soft.foldlM (fun (total : Value) constraint => do
      total.add (← localEnergy configuration constraint)) (.int 0) = .ok total) (isTotal : total.IsRational number) :
    ∃ size, problem.solutionSize configuration = .ok ⟨size, violated.isEmpty⟩ ∧
      size.IsRational (problem.sense.sign * number) := by
  rw [solutionSize, isFeasible_eq_ok found, Outcome.ok_bind, constrained, Outcome.ok_bind, summed, Outcome.ok_bind]
  cases problem.sense with
  | minimize => exact ⟨total, rfl, by simpa [Sense.sign] using isTotal⟩
  | maximize =>
    rcases isTotal.exists_neg with ⟨size, negated, isSize⟩
    refine ⟨size, by rw [negated]; rfl, ?_⟩
    simpa [Sense.sign] using isSize

def Sizes (problem : Problem) (count : Nat) (size : List Nat → Rat) : Prop :=
  ∀ configuration positions violated, problem.Places count configuration positions →
    problem.violatedConstraints configuration = .ok violated →
      ∃ value, problem.solutionSize configuration = .ok ⟨value, violated.isEmpty⟩ ∧ value.IsRational (size positions)

end EnergyTables.Problem
