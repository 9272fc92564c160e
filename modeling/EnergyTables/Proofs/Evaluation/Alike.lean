import EnergyTables.Feasibility
import EnergyTables.Proofs.Outcome
import EnergyTables.Search

namespace EnergyTables

structure HardConstraint.Alike (left right : HardConstraint) : Prop where
  scope_eq : left.scope = right.scope
  satisfied_eq : left.satisfied = right.satisfied

structure SoftConstraint.Alike (left right : SoftConstraint) : Prop where
  scope_eq : left.scope = right.scope
  energy_eq : left.energy = right.energy

namespace Problem

structure Alike (left right : Problem) : Prop where
  variableCount_eq : left.variableCount = right.variableCount
  flavors_eq : left.flavors = right.flavors
  energyKind_eq : left.energyKind = right.energyKind
  hard : Outcome.Agrees (List.Forall₂ HardConstraint.Alike) left.hardConstraints right.hardConstraints
  soft : Outcome.Agrees (List.Forall₂ SoftConstraint.Alike) left.softConstraints right.softConstraints

namespace Alike

variable {left right : Problem}

theorem hardTerm_eq (alike : left.Alike right) (storage : Storage) (zero sentinel : Value)
    {constraint other : HardConstraint} (same : constraint.Alike other) :
    left.hardTerm storage zero sentinel constraint = right.hardTerm storage zero sentinel other := by
  simp only [hardTerm, alike.variableCount_eq, alike.flavors_eq, same.scope_eq, same.satisfied_eq]

theorem softTerm_eq (alike : left.Alike right) (kind : Kind) {constraint other : SoftConstraint}
    (same : constraint.Alike other) : left.softTerm kind constraint = right.softTerm kind other := by
  simp only [softTerm, alike.variableCount_eq, alike.flavors_eq, same.scope_eq, same.energy_eq]

theorem tables_eq (alike : left.Alike right) : left.tables = right.tables := by
  rw [tables, tables, alike.energyKind_eq]
  congr 1
  funext kind
  congr 1
  funext zero
  congr 1
  funext sentinel
  apply alike.hard.bind_eq
  intro hard otherHard hardAlike
  rw [Outcome.mapM_congr (hardAlike.imp fun _ _ => alike.hardTerm_eq (Term.storageOf kind) zero sentinel)]
  congr 1
  funext hardTerms
  apply alike.soft.bind_eq
  intro soft otherSoft softAlike
  rw [Outcome.mapM_congr (softAlike.imp fun _ _ => alike.softTerm_eq kind)]

theorem energyTerms_eq (alike : left.Alike right) : left.energyTerms = right.energyTerms := by
  rw [energyTerms, energyTerms, alike.tables_eq]

theorem configurationId_eq (alike : left.Alike right) (configuration : Value) :
    left.configurationId configuration = right.configurationId configuration := by
  rw [configurationId, configurationId, alike.variableCount_eq, alike.flavors_eq]

theorem energy_eq (alike : left.Alike right) (configuration : Value) :
    left.energy configuration = right.energy configuration := by
  rw [energy, energy, alike.configurationId_eq, alike.energyTerms_eq, alike.energyKind_eq]

theorem keepViolated_agrees {lefts rights : List HardConstraint}
    (alike : List.Forall₂ HardConstraint.Alike lefts rights) (configuration : Value) :
    Outcome.Agrees (List.Forall₂ HardConstraint.Alike) (keepViolated configuration lefts)
      (keepViolated configuration rights) := by
  induction alike with
  | nil => exact .ok .nil
  | cons first _ ih =>
    rw [keepViolated, keepViolated, first.scope_eq, first.satisfied_eq]
    apply (Outcome.agrees_rfl _).bind
    rintro values _ rfl
    apply (Outcome.agrees_rfl _).bind
    rintro satisfied _ rfl
    cases satisfied with
    | true => exact ih
    | false =>
      apply ih.bind
      intro _ _ rest
      exact .ok (.cons first rest)

theorem violatedConstraints_agrees (alike : left.Alike right) (configuration : Value) :
    Outcome.Agrees (List.Forall₂ HardConstraint.Alike) (left.violatedConstraints configuration)
      (right.violatedConstraints configuration) := by
  rw [violatedConstraints, violatedConstraints, alike.configurationId_eq]
  apply (Outcome.agrees_rfl _).bind
  intro _ _ _
  apply alike.hard.bind
  intro _ _ constraints
  exact keepViolated_agrees constraints configuration

theorem isFeasible_eq (alike : left.Alike right) (configuration : Value) :
    left.isFeasible configuration = right.isFeasible configuration := by
  apply (alike.violatedConstraints_agrees configuration).bind_eq
  intro violated others same
  cases same with
  | nil => rfl
  | cons => rfl

theorem checkStates_eq (alike : left.Alike right) (limit : Value) : left.checkStates limit = right.checkStates limit := by
  rw [checkStates, checkStates, flavorCount, flavorCount, alike.flavors_eq, alike.variableCount_eq]

theorem allIds_eq (alike : left.Alike right) : left.allIds = right.allIds := by
  rw [allIds, allIds, flavorCount, flavorCount, alike.flavors_eq, alike.variableCount_eq]

theorem configurationOf_eq (alike : left.Alike right) : left.configurationOf = right.configurationOf := by
  funext id
  rw [configurationOf, configurationOf, alike.flavors_eq]

theorem findBest_eq (alike : left.Alike right) (limit : Value) : left.findBest limit = right.findBest limit := by
  rw [findBest, findBest, bruteForce, bruteForce, alike.checkStates_eq, alike.tables_eq, alike.energyKind_eq,
    alike.allIds_eq, alike.configurationOf_eq]

end Alike

end Problem

end EnergyTables
