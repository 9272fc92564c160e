import EnergyTables.Family.Custom
import EnergyTables.Proofs.Evaluation.Configurations

namespace EnergyTables

open Flavor

def Value.IsRow (value : Value) (count : Nat) : Prop := ∃ items, value.Lists items ∧ items.length = count

namespace Constraint

def Within (least greatest : Int) (scope : List Int) : Prop := ∀ index ∈ scope, least ≤ index ∧ index ≤ greatest

/-- The variable that is read for an index among so many. -/
def readVariable (count index : Int) : Int := if 0 < index then index else index + count

variable {configuration : Value} {count : Nat}

theorem exists_itemAt_iff (row : configuration.IsRow count) (index : Int) :
    (∃ value, configuration.itemAt (index - 1) = .ok value) ↔ 1 - (count : Int) ≤ index ∧ index ≤ count := by
  obtain ⟨items, lists, rfl⟩ := row
  have outside := itemAt?_eq_none_iff items (index - 1)
  rw [lists.itemAt_eq]
  cases found : itemAt? items (index - 1) with
  | none =>
    rw [found] at outside
    have := outside.1 rfl
    simp only [Value.orOutOfRange, reduceCtorEq, exists_false, false_iff]
    omega
  | some value =>
    rw [found] at outside
    have : ¬ (index - 1 < -(items.length : Int) ∨ (items.length : Int) ≤ index - 1) := fun past =>
      Option.some_ne_none value (outside.2 past)
    simp only [Value.orOutOfRange, Except.ok.injEq, exists_eq', true_iff]
    omega

theorem exists_localValues_iff (row : configuration.IsRow count) (scope : List Int) :
    (∃ values, localValues configuration scope = .ok values) ↔ Within (1 - count) count scope := by
  constructor
  · rintro ⟨values, found⟩ index member
    obtain ⟨_, _, read⟩ := Outcome.exists_of_forall₂_right (Outcome.mapM_eq_ok_iff.1 found).flip member
    exact (exists_itemAt_iff row index).1 ⟨_, read⟩
  · intro reached
    exact Outcome.exists_mapM fun index member => (exists_itemAt_iff row index).2 (reached index member)

theorem itemAt_readVariable (row : configuration.IsRow count) {index : Int} (reached : 1 - (count : Int) ≤ index) :
    configuration.itemAt (readVariable count index - 1) = configuration.itemAt (index - 1) := by
  obtain ⟨items, lists, rfl⟩ := row
  unfold readVariable
  split
  · rfl
  · -- the place is below zero, so the search adds the length, as the variable read has done before
    have counted : index + items.length - 1 = index - 1 + items.length := by omega
    have same : itemAt? items (index + items.length - 1) = itemAt? items (index - 1) := by
      rw [itemAt?, itemAt?, if_pos (by omega), if_neg (by omega), if_pos (by omega), counted]
    rw [lists.itemAt_eq, lists.itemAt_eq, same]

theorem localValues_readVariable (row : configuration.IsRow count) {scope : List Int}
    (reached : Within (1 - count) count scope) :
    localValues configuration (scope.map (readVariable count)) = localValues configuration scope := by
  apply Outcome.mapM_congr
  rw [List.forall₂_map_left_iff, List.forall₂_same]
  exact fun index member => itemAt_readVariable row (reached index member).1

theorem within_readVariable {count : Int} {scope : List Int} (reached : Within (1 - count) count scope) :
    Within 1 count (scope.map (readVariable count)) := by
  intro read member
  obtain ⟨index, named, rfl⟩ := List.mem_map.1 member
  have := reached index named
  unfold readVariable
  split <;> omega

end Constraint

open Constraint

def HardConstraint.asRead (count : Int) (constraint : HardConstraint) : HardConstraint :=
  { constraint with scope := constraint.scope.map (readVariable count) }

def SoftConstraint.asRead (count : Int) (constraint : SoftConstraint) : SoftConstraint :=
  { constraint with scope := constraint.scope.map (readVariable count) }

namespace Problem

/-- The problem whose constraints name the variables that are read for theirs, perhaps one of them twice. -/
def asRead (problem : Problem) : Problem :=
  { problem with
    hardConstraints := do return (← problem.hardConstraints).map (HardConstraint.asRead problem.variableCount)
    softConstraints := do return (← problem.softConstraints).map (SoftConstraint.asRead problem.variableCount) }

section Refusal

variable {problem : Problem} {configuration : Value} {count : Nat} {hard : List HardConstraint}
  {soft : List SoftConstraint}

theorem within_of_energy {energy : Value} (constrained : problem.hardConstraints = .ok hard)
    (priced : problem.softConstraints = .ok soft) (found : problem.energy configuration = .ok energy) :
    (∀ constraint ∈ hard, Within 1 problem.variableCount constraint.scope) ∧
      ∀ constraint ∈ soft, Within 1 problem.variableCount constraint.scope := by
  obtain ⟨_, _, found⟩ := Outcome.bind_eq_ok_iff.1 found
  obtain ⟨terms, compiled, _⟩ := Outcome.bind_eq_ok_iff.1 found
  obtain ⟨compilation, _⟩ := exists_compilation_of_terms compiled
  obtain rfl : compilation.hard = hard := Except.ok.inj (compilation.hard_eq.symm.trans constrained)
  obtain rfl : compilation.soft = soft := Except.ok.inj (compilation.soft_eq.symm.trans priced)
  constructor
  · intro constraint member
    obtain ⟨_, _, made⟩ := Outcome.exists_of_forall₂_right compilation.hard_compiled.flip member
    exact (tabulates_of_hardTerm made).1
  · intro constraint member
    obtain ⟨_, _, made⟩ := Outcome.exists_of_forall₂_right compilation.soft_compiled.flip member
    exact (tabulates_of_softTerm made).1

theorem exists_localValues_of_keepViolated {violated : List HardConstraint}
    (kept : keepViolated configuration hard = .ok violated) :
    ∀ constraint ∈ hard, ∃ values, localValues configuration constraint.scope = .ok values := by
  induction hard generalizing violated with
  | nil => simp
  | cons constraint hard ih =>
    obtain ⟨values, found, kept⟩ := Outcome.bind_eq_ok_iff.1 kept
    obtain ⟨satisfied, _, kept⟩ := Outcome.bind_eq_ok_iff.1 kept
    refine List.forall_mem_cons.2 ⟨⟨values, found⟩, ?_⟩
    cases satisfied with
    | true => exact ih kept
    | false =>
      obtain ⟨_, kept, _⟩ := Outcome.map_eq_ok_iff.1 kept
      exact ih kept

theorem within_of_violatedConstraints {violated : List HardConstraint} (row : configuration.IsRow count)
    (constrained : problem.hardConstraints = .ok hard)
    (found : problem.violatedConstraints configuration = .ok violated) :
    ∀ constraint ∈ hard, Within (1 - count) count constraint.scope := by
  obtain ⟨_, _, found⟩ := Outcome.bind_eq_ok_iff.1 found
  obtain ⟨others, same, kept⟩ := Outcome.bind_eq_ok_iff.1 found
  obtain rfl : others = hard := Except.ok.inj (same.symm.trans constrained)
  exact fun constraint member =>
    (exists_localValues_iff row _).1 (exists_localValues_of_keepViolated kept constraint member)

theorem within_of_localEnergy {value : Value} {constraint : SoftConstraint} (row : configuration.IsRow count)
    (found : localEnergy configuration constraint = .ok value) :
    Within (1 - count) count constraint.scope := by
  obtain ⟨values, found, _⟩ := Outcome.bind_eq_ok_iff.1 found
  exact (exists_localValues_iff row _).1 ⟨values, found⟩

theorem within_of_directEnergy {energy : Value} (row : configuration.IsRow count)
    (constrained : problem.hardConstraints = .ok hard) (priced : problem.softConstraints = .ok soft)
    (found : problem.directEnergy configuration = .ok energy) :
    (∀ constraint ∈ hard, Within (1 - count) count constraint.scope) ∧
      ∀ constraint ∈ soft, Within (1 - count) count constraint.scope := by
  obtain ⟨kind, _, found⟩ := Outcome.bind_eq_ok_iff.1 found
  obtain ⟨zero, _, found⟩ := Outcome.bind_eq_ok_iff.1 found
  obtain ⟨sentinel, _, found⟩ := Outcome.bind_eq_ok_iff.1 found
  obtain ⟨violated, checked, found⟩ := Outcome.bind_eq_ok_iff.1 found
  obtain ⟨total, _, found⟩ := Outcome.bind_eq_ok_iff.1 found
  obtain ⟨others, same, folded⟩ := Outcome.bind_eq_ok_iff.1 found
  obtain rfl : others = soft := Except.ok.inj (same.symm.trans priced)
  refine ⟨within_of_violatedConstraints row constrained checked, fun constraint member => ?_⟩
  obtain ⟨_, _, stepped⟩ := Outcome.exists_step_of_foldlM folded constraint member
  obtain ⟨_, found, _⟩ := Outcome.bind_eq_ok_iff.1 stepped
  exact within_of_localEnergy row found

theorem within_of_solutionSize {size : SolutionSize} (row : configuration.IsRow count)
    (constrained : problem.hardConstraints = .ok hard) (priced : problem.softConstraints = .ok soft)
    (found : problem.solutionSize configuration = .ok size) :
    (∀ constraint ∈ hard, Within (1 - count) count constraint.scope) ∧
      ∀ constraint ∈ soft, Within (1 - count) count constraint.scope := by
  obtain ⟨_, checked, found⟩ := Outcome.bind_eq_ok_iff.1 found
  obtain ⟨_, checked, _⟩ := Outcome.map_eq_ok_iff.1 checked
  obtain ⟨others, same, found⟩ := Outcome.bind_eq_ok_iff.1 found
  obtain rfl : others = soft := Except.ok.inj (same.symm.trans priced)
  obtain ⟨total, folded, _⟩ := Outcome.bind_eq_ok_iff.1 found
  refine ⟨within_of_violatedConstraints row constrained checked, fun constraint member => ?_⟩
  obtain ⟨_, _, stepped⟩ := Outcome.exists_step_of_foldlM folded constraint member
  obtain ⟨_, found, _⟩ := Outcome.bind_eq_ok_iff.1 stepped
  exact within_of_localEnergy row found

end Refusal

section Reading

variable {problem : Problem} {configuration : Value} {count : Nat} {hard : List HardConstraint}
  {soft : List SoftConstraint}

theorem hardConstraints_asRead (counted : problem.variableCount = count)
    (constrained : problem.hardConstraints = .ok hard) :
    problem.asRead.hardConstraints = .ok (hard.map (HardConstraint.asRead count)) := by
  rw [asRead, constrained, counted]
  rfl

theorem softConstraints_asRead (counted : problem.variableCount = count)
    (priced : problem.softConstraints = .ok soft) :
    problem.asRead.softConstraints = .ok (soft.map (SoftConstraint.asRead count)) := by
  rw [asRead, priced, counted]
  rfl

theorem keepViolated_asRead (row : configuration.IsRow count)
    (reached : ∀ constraint ∈ hard, Within (1 - count) count constraint.scope) :
    keepViolated configuration (hard.map (HardConstraint.asRead count)) =
      (do return (← keepViolated configuration hard).map (HardConstraint.asRead count)) := by
  induction hard with
  | nil => rfl
  | cons constraint hard ih =>
    obtain ⟨firstReached, restReached⟩ := List.forall_mem_cons.1 reached
    rw [List.map_cons, keepViolated, keepViolated, HardConstraint.asRead, localValues_readVariable row firstReached,
      ih restReached]
    cases localValues configuration constraint.scope with
    | error fault => rfl
    | ok values =>
      rw [Outcome.ok_bind, Outcome.ok_bind]
      cases constraint.satisfied (.list values) with
      | error fault => rfl
      | ok satisfied =>
        cases satisfied with
        | true => rfl
        | false => cases keepViolated configuration hard <;> rfl

theorem violatedConstraints_asRead (row : configuration.IsRow count) (counted : problem.variableCount = count)
    (constrained : problem.hardConstraints = .ok hard)
    (reached : ∀ constraint ∈ hard, Within (1 - count) count constraint.scope) :
    problem.asRead.violatedConstraints configuration =
      (do return (← problem.violatedConstraints configuration).map (HardConstraint.asRead count)) := by
  have placed : problem.asRead.configurationId configuration = problem.configurationId configuration := rfl
  rw [violatedConstraints, violatedConstraints, placed, hardConstraints_asRead counted constrained, constrained]
  cases problem.configurationId configuration with
  | error fault => rfl
  | ok id => exact keepViolated_asRead row reached

theorem localEnergy_asRead (row : configuration.IsRow count) {constraint : SoftConstraint}
    (reached : Within (1 - count) count constraint.scope) :
    localEnergy configuration (constraint.asRead count) = localEnergy configuration constraint := by
  rw [localEnergy, SoftConstraint.asRead, localValues_readVariable row reached]
  rfl

theorem foldlM_asRead {β : Type} (row : configuration.IsRow count)
    (reached : ∀ constraint ∈ soft, Within (1 - count) count constraint.scope)
    (step : β → Value → Outcome β) (start : β) :
    (soft.map (SoftConstraint.asRead count)).foldlM (fun total constraint => do
        step total (← localEnergy configuration constraint)) start =
      soft.foldlM (fun total constraint => do step total (← localEnergy configuration constraint)) start := by
  apply Outcome.foldlM_congr
  rw [List.forall₂_map_left_iff, List.forall₂_same]
  intro constraint member total
  rw [localEnergy_asRead row (reached constraint member)]

theorem directEnergy_asRead (row : configuration.IsRow count) (counted : problem.variableCount = count)
    (constrained : problem.hardConstraints = .ok hard) (priced : problem.softConstraints = .ok soft)
    (hardReached : ∀ constraint ∈ hard, Within (1 - count) count constraint.scope)
    (softReached : ∀ constraint ∈ soft, Within (1 - count) count constraint.scope) :
    problem.asRead.directEnergy configuration = problem.directEnergy configuration := by
  have kind : problem.asRead.energyKind = problem.energyKind := rfl
  rw [directEnergy, directEnergy, kind, violatedConstraints_asRead row counted constrained hardReached,
    softConstraints_asRead counted priced, priced]
  cases problem.energyKind with
  | error fault => rfl
  | ok kind =>
    rw [Outcome.ok_bind, Outcome.ok_bind]
    congr 1
    funext zero
    congr 1
    funext sentinel
    cases problem.violatedConstraints configuration with
    | error fault => rfl
    | ok violated =>
      -- a violated constraint counts as one sentinel, whatever variables it names
      simp only [Outcome.ok_bind, Outcome.pure_eq_ok]
      rw [List.foldlM_map]
      congr 1
      funext total
      exact foldlM_asRead row softReached (fun total value => do total.add (← kind.convert value)) total

theorem solutionSize_asRead (row : configuration.IsRow count) (counted : problem.variableCount = count)
    (constrained : problem.hardConstraints = .ok hard) (priced : problem.softConstraints = .ok soft)
    (hardReached : ∀ constraint ∈ hard, Within (1 - count) count constraint.scope)
    (softReached : ∀ constraint ∈ soft, Within (1 - count) count constraint.scope) :
    problem.asRead.solutionSize configuration = problem.solutionSize configuration := by
  have sense : problem.asRead.sense = problem.sense := rfl
  rw [solutionSize, solutionSize, isFeasible, isFeasible, sense,
    violatedConstraints_asRead row counted constrained hardReached, softConstraints_asRead counted priced, priced]
  cases problem.violatedConstraints configuration with
  | error fault => rfl
  | ok violated =>
    simp only [Outcome.ok_bind, Outcome.pure_eq_ok, List.isEmpty_map]
    rw [foldlM_asRead row softReached Value.add]

end Reading

end Problem

namespace SoftConstraint

variable {format : IntFormat} {flavors : List Value} {cost : List Nat → Int} {constraint : SoftConstraint}

def CostsWords (format : IntFormat) (flavors : List Value) (cost : List Nat → Int) (constraint : SoftConstraint) : Prop :=
  ∀ positions ∈ Positions flavors.length constraint.scope.length,
    constraint.energy (.list (positions.map (ofPosition flavors))) = .ok (.number (.ofWord format (cost positions)))

theorem CostsWords.costs (words : constraint.CostsWords format flavors cost) : constraint.Costs format flavors cost := by
  intro positions within
  have converted (word : Word format) : (Kind.stored (.word format)).convert (.number (.word format word)) =
      .ok (.number (.ofWord format word.val)) := rfl
  rw [tabled, words positions within, Outcome.ok_bind, Number.ofWord, converted, Number.ofWord_val]

end SoftConstraint

namespace Problem

/-- Constraints over words, on any numbers as variables, that raise nothing on assignments of flavors: a hard one decides
    them, and the soft ones cost integers that the words hold, or words themselves. -/
structure Answering (problem : Problem) (format : IntFormat) (count : Nat) where
  hard : List HardConstraint
  soft : List SoftConstraint
  energyKind_eq : problem.energyKind = .ok (.stored (.word format))
  counted : problem.variableCount = count
  hard_eq : problem.hardConstraints = .ok hard
  soft_eq : problem.softConstraints = .ok soft
  decides : ∀ constraint ∈ hard, ∃ allowed, constraint.Decides problem.flavors allowed
  costs : (∀ constraint ∈ soft, ∃ cost, constraint.CostsExactly problem.flavors cost ∧
      ∀ positions ∈ Positions problem.flavors.length constraint.scope.length, format.Holds (cost positions)) ∨
    ∀ constraint ∈ soft, ∃ cost, constraint.CostsWords format problem.flavors cost

namespace Answering

variable {problem : Problem} {format : IntFormat} {count : Nat} {configuration : Value} {positions : List Nat}

def HardFrom (answering : problem.Answering format count) (least : Int) : Prop :=
  ∀ constraint ∈ answering.hard, Within least count constraint.scope

def SoftFrom (answering : problem.Answering format count) (least : Int) : Prop :=
  ∀ constraint ∈ answering.soft, Within least count constraint.scope

theorem exists_meaning (answering : problem.Answering format count) (hard : answering.HardFrom 1)
    (soft : answering.SoftFrom 1) : Nonempty (problem.Meaning format count) := by
  choose! allowed decides using answering.decides
  have costs : ∀ constraint ∈ answering.soft, ∃ cost, constraint.Costs format problem.flavors cost := by
    intro constraint member
    rcases answering.costs with exact | words
    · obtain ⟨cost, exact, held⟩ := exact constraint member
      exact ⟨cost, exact.costs held⟩
    · obtain ⟨cost, words⟩ := words constraint member
      exact ⟨cost, words.costs⟩
  choose! cost costs using costs
  exact ⟨⟨answering.hard, answering.soft, allowed, cost, answering.energyKind_eq, answering.counted, answering.hard_eq,
    answering.soft_eq, hard, soft, decides, costs⟩⟩

theorem exists_total_words (places : problem.Places count configuration positions) {soft : List SoftConstraint}
    (inside : ∀ constraint ∈ soft, Within 1 count constraint.scope)
    (words : ∀ constraint ∈ soft, ∃ cost, constraint.CostsWords format problem.flavors cost) {start : Value}
    (begins : start = .int 0 ∨ ∃ value, start = .number (.ofWord format value)) :
    ∃ total, soft.foldlM (fun total constraint => do total.add (← localEnergy configuration constraint)) start =
      .ok total ∧ (total = .int 0 ∨ ∃ value, total = .number (.ofWord format value)) := by
  induction soft generalizing start with
  | nil => exact ⟨start, rfl, begins⟩
  | cons constraint soft ih =>
    obtain ⟨firstInside, restInside⟩ := List.forall_mem_cons.1 inside
    obtain ⟨⟨cost, priced⟩, restWords⟩ := List.forall_mem_cons.1 words
    have priced := priced _ (localPositions_mem places.within firstInside)
    have added : ∃ value, start.add (.number (.ofWord format (cost (localPositions constraint.scope positions)))) =
        .ok (.number (.ofWord format value)) := by
      rcases begins with rfl | ⟨value, rfl⟩
      · exact ⟨_, Value.int_zero_add_word _⟩
      · exact ⟨_, Value.add_ofWord format value _⟩
    obtain ⟨value, added⟩ := added
    rw [List.foldlM_cons, localEnergy, places.localValues_eq_ok firstInside, Outcome.ok_bind, priced, Outcome.ok_bind,
      added, Outcome.ok_bind]
    exact ih restInside restWords (.inr ⟨value, rfl⟩)

theorem exists_solutionSize (answering : problem.Answering format count)
    (places : problem.Places count configuration positions) (soft : answering.SoftFrom 1) {violated : List HardConstraint}
    (checked : problem.violatedConstraints configuration = .ok violated) :
    ∃ size, problem.solutionSize configuration = .ok size := by
  have negates : ∃ total, answering.soft.foldlM (fun (total : Value) constraint => do
      total.add (← localEnergy configuration constraint)) (.int 0) = .ok total ∧ ∃ negated, total.neg = .ok negated := by
    rcases answering.costs with exact | words
    · choose! cost exact using exact
      exact ⟨_, Meaning.foldlM_localEnergy places soft (fun constraint member => (exact constraint member).1) 0, _, rfl⟩
    · obtain ⟨total, found, rfl | ⟨value, rfl⟩⟩ := exists_total_words places soft words (.inl rfl)
      · exact ⟨_, found, _, rfl⟩
      · exact ⟨_, found, _, rfl⟩
  obtain ⟨total, found, negated, opposite⟩ := negates
  rw [solutionSize, isFeasible_eq_ok checked, Outcome.ok_bind, answering.soft_eq, Outcome.ok_bind, found, Outcome.ok_bind]
  cases problem.sense with
  | minimize => exact ⟨_, rfl⟩
  | maximize => exact ⟨_, by rw [opposite]; rfl⟩

def asRead (answering : problem.Answering format count) : problem.asRead.Answering format count where
  hard := answering.hard.map (HardConstraint.asRead count)
  soft := answering.soft.map (SoftConstraint.asRead count)
  energyKind_eq := answering.energyKind_eq
  counted := answering.counted
  hard_eq := hardConstraints_asRead answering.counted answering.hard_eq
  soft_eq := softConstraints_asRead answering.counted answering.soft_eq
  decides := by
    refine List.forall_mem_map.2 fun constraint member => ?_
    obtain ⟨allowed, decides⟩ := answering.decides constraint member
    refine ⟨allowed, fun positions within => decides positions ?_⟩
    rwa [HardConstraint.asRead, List.length_map] at within
  costs := by
    have arity (constraint : SoftConstraint) : (constraint.asRead count).scope.length = constraint.scope.length :=
      List.length_map _
    rcases answering.costs with exact | words
    · refine .inl (List.forall_mem_map.2 fun constraint member => ?_)
      obtain ⟨cost, exact, held⟩ := exact constraint member
      exact ⟨cost, fun positions within => exact positions (arity constraint ▸ within),
        fun positions within => held positions (arity constraint ▸ within)⟩
    · refine .inr (List.forall_mem_map.2 fun constraint member => ?_)
      obtain ⟨cost, words⟩ := words constraint member
      exact ⟨cost, fun positions within => words positions (arity constraint ▸ within)⟩

theorem hardFrom_asRead {answering : problem.Answering format count} (hard : answering.HardFrom (1 - count)) :
    answering.asRead.HardFrom 1 :=
  List.forall_mem_map.2 fun constraint member => within_readVariable (hard constraint member)

theorem softFrom_asRead {answering : problem.Answering format count} (soft : answering.SoftFrom (1 - count)) :
    answering.asRead.SoftFrom 1 :=
  List.forall_mem_map.2 fun constraint member => within_readVariable (soft constraint member)

theorem isRow_of_places (places : problem.Places count configuration positions) : configuration.IsRow count :=
  ⟨_, places.lists, by rw [List.length_map, places.within.1]⟩

theorem places_asRead (places : problem.Places count configuration positions) :
    problem.asRead.Places count configuration positions := ⟨places.within, places.lists, places.placed⟩

theorem exists_violated (answering : problem.Answering format count)
    (places : problem.Places count configuration positions) (hard : answering.HardFrom (1 - count)) :
    ∃ violated, problem.violatedConstraints configuration = .ok violated ∧
      problem.asRead.violatedConstraints configuration = .ok (violated.map (HardConstraint.asRead count)) := by
  have same := violatedConstraints_asRead (isRow_of_places places) answering.counted answering.hard_eq hard
  -- only the constraints as read name variables of the problem, so it is these that are known to decide
  choose! allowed decides using answering.asRead.decides
  have read := (places_asRead places).violatedConstraints_eq_ok answering.asRead.hard_eq (hardFrom_asRead hard) allowed
    decides
  rw [same] at read
  obtain ⟨violated, found, _⟩ := Outcome.map_eq_ok_iff.1 read
  exact ⟨violated, found, by rw [same, found]; rfl⟩

/-- Without tables a problem has the energy and the size of the one whose constraints name the variables read. -/
theorem exists_evaluations (answering : problem.Answering format count)
    (places : problem.Places count configuration positions) (hard : answering.HardFrom (1 - count))
    (soft : answering.SoftFrom (1 - count)) :
    ∃ energy size, problem.directEnergy configuration = .ok energy ∧ problem.asRead.energy configuration = .ok energy ∧
      problem.solutionSize configuration = .ok size ∧ problem.asRead.solutionSize configuration = .ok size := by
  have row := isRow_of_places places
  have direct := directEnergy_asRead row answering.counted answering.hard_eq answering.soft_eq hard soft
  have sized := solutionSize_asRead row answering.counted answering.hard_eq answering.soft_eq hard soft
  obtain ⟨meaning⟩ := answering.asRead.exists_meaning (hardFrom_asRead hard) (softFrom_asRead soft)
  obtain ⟨violated, _, checked⟩ := answering.exists_violated places hard
  obtain ⟨size, found⟩ := answering.asRead.exists_solutionSize (places_asRead places) (softFrom_asRead soft) checked
  exact ⟨_, size, direct.symm.trans (meaning.directEnergy_eq_ok (places_asRead places)),
    meaning.energy_eq_ok (places_asRead places), sized.symm.trans found, found⟩

/-- Where no constraint raises anything, the energy is there exactly when all variables are ones of the problem; the
    violated constraints, the energy without tables and the size are there whenever counting from the end reaches them,
    and then belong to the problem whose constraints name the variables read. -/
theorem found_iff_reached (answering : problem.Answering format count)
    (places : problem.Places count configuration positions) :
    ((∃ energy, problem.energy configuration = .ok energy) ↔ answering.HardFrom 1 ∧ answering.SoftFrom 1) ∧
      ((∃ violated, problem.violatedConstraints configuration = .ok violated) ↔ answering.HardFrom (1 - count)) ∧
      ((∃ energy, problem.directEnergy configuration = .ok energy) ↔
        answering.HardFrom (1 - count) ∧ answering.SoftFrom (1 - count)) ∧
      ((∃ size, problem.solutionSize configuration = .ok size) ↔
        answering.HardFrom (1 - count) ∧ answering.SoftFrom (1 - count)) ∧
      (answering.HardFrom (1 - count) → ∀ violated, problem.violatedConstraints configuration = .ok violated →
        problem.asRead.violatedConstraints configuration = .ok (violated.map (HardConstraint.asRead count))) ∧
      (answering.HardFrom (1 - count) → answering.SoftFrom (1 - count) →
        problem.directEnergy configuration = problem.asRead.energy configuration ∧
        problem.solutionSize configuration = problem.asRead.solutionSize configuration) := by
  have row := isRow_of_places places
  refine ⟨⟨?_, ?_⟩, ⟨?_, ?_⟩, ⟨?_, ?_⟩, ⟨?_, ?_⟩, ?_, ?_⟩
  · rintro ⟨energy, found⟩
    have within := within_of_energy answering.hard_eq answering.soft_eq found
    rwa [answering.counted] at within
  · rintro ⟨hard, soft⟩
    obtain ⟨meaning⟩ := answering.exists_meaning hard soft
    exact ⟨_, meaning.energy_eq_ok places⟩
  · rintro ⟨violated, found⟩
    exact within_of_violatedConstraints row answering.hard_eq found
  · intro hard
    obtain ⟨violated, found, _⟩ := answering.exists_violated places hard
    exact ⟨violated, found⟩
  · rintro ⟨energy, found⟩
    exact within_of_directEnergy row answering.hard_eq answering.soft_eq found
  · rintro ⟨hard, soft⟩
    obtain ⟨energy, _, direct, _⟩ := answering.exists_evaluations places hard soft
    exact ⟨energy, direct⟩
  · rintro ⟨size, found⟩
    exact within_of_solutionSize row answering.hard_eq answering.soft_eq found
  · rintro ⟨hard, soft⟩
    obtain ⟨_, size, _, _, sized, _⟩ := answering.exists_evaluations places hard soft
    exact ⟨size, sized⟩
  · intro hard violated found
    obtain ⟨others, same, read⟩ := answering.exists_violated places hard
    cases same.symm.trans found
    exact read
  · intro hard soft
    obtain ⟨_, _, direct, tabled, sized, sizedToo⟩ := answering.exists_evaluations places hard soft
    exact ⟨direct.trans tabled.symm, sized.trans sizedToo.symm⟩

end Answering

def strayed : Custom where
  variableCount := 2
  flavors := [.int 0, .int 1]
  soft := []
  hard? := some [⟨.list [.int 0], [.list [.int 1]]⟩]
  hasTest := true
  weights? := none

def strayedConstraint : HardConstraint := ⟨[0], "custom", strayed.satisfied [0] [.list [.int 1]]⟩

theorem decides_strayedConstraint :
    strayedConstraint.Decides strayed.problem.flavors (fun positions => positions == [1]) := by
  intro positions within
  obtain ⟨position, rfl⟩ := List.length_eq_one_iff.1 within.1
  have among : 1 ≤ position ∧ position ≤ 2 := within.2 position (by simp)
  obtain rfl | rfl : position = 1 ∨ position = 2 := by omega
  · rfl
  · rfl

def answering_strayed : strayed.problem.Answering .int64 2 where
  hard := [strayedConstraint]
  soft := []
  energyKind_eq := rfl
  counted := rfl
  hard_eq := rfl
  soft_eq := rfl
  decides := by
    rintro constraint (_ | ⟨_, ⟨⟩⟩)
    exact ⟨_, decides_strayedConstraint⟩
  costs := .inl (by simp)

theorem found_iff_reached_strayed : (¬ ∃ energy, strayed.problem.energy (.list [.int 0, .int 1]) = .ok energy) ∧
    (∃ violated, strayed.problem.violatedConstraints (.list [.int 0, .int 1]) = .ok violated) ∧
    (∃ energy, strayed.problem.directEnergy (.list [.int 0, .int 1]) = .ok energy) ∧
    (∃ size, strayed.problem.solutionSize (.list [.int 0, .int 1]) = .ok size) ∧
    strayed.problem.directEnergy (.list [.int 0, .int 1]) =
      strayed.problem.asRead.energy (.list [.int 0, .int 1]) := by
  have places : strayed.problem.Places 2 (.list [.int 0, .int 1]) [1, 2] :=
    ⟨⟨rfl, by decide⟩, .list [.int 0, .int 1], rfl⟩
  have reached : answering_strayed.HardFrom (1 - (2 : Nat)) := by
    rintro constraint (_ | ⟨_, ⟨⟩⟩) index (_ | ⟨_, ⟨⟩⟩)
    decide
  have free : answering_strayed.SoftFrom (1 - (2 : Nat)) := by
    rintro constraint ⟨⟩
  have foreign : ¬ answering_strayed.HardFrom 1 := by
    intro inside
    have := (inside strayedConstraint (by simp [answering_strayed]) 0 (by simp [strayedConstraint])).1
    omega
  obtain ⟨energy, violated, direct, size, _, same⟩ := answering_strayed.found_iff_reached places
  exact ⟨fun found => foreign (energy.1 found).1, violated.2 reached, direct.2 ⟨reached, free⟩, size.2 ⟨reached, free⟩,
    (same reached free).1⟩

/-- Compiling refuses the constraint, but without tables it is read as one on the second variable. -/
theorem exists_strayed_evaluated : strayed.problem.hardConstraints = .ok [strayedConstraint] ∧
    strayed.problem.energyKind = .ok (.stored (.word .int64)) ∧
    (∀ flavor ∈ strayed.flavors, ∃ satisfied, strayedConstraint.satisfied (.list [flavor]) = .ok satisfied) ∧
    strayed.problem.energy (.list [.int 0, .int 1]) = .error (.variableOutside 0 2) ∧
    strayed.problem.violatedConstraints (.list [.int 0, .int 1]) = .ok [strayedConstraint] ∧
    strayed.problem.directEnergy (.list [.int 0, .int 1]) = .ok (.number (.ofWord .int64 3037000499)) ∧
    strayed.problem.solutionSize (.list [.int 0, .int 1]) = .ok ⟨.int 0, false⟩ := by
  have violated : strayed.problem.violatedConstraints (.list [.int 0, .int 1]) = .ok [strayedConstraint] := rfl
  have kind : strayed.problem.energyKind = .ok (.stored (.word .int64)) := rfl
  have sentinel : IntFormat.int64.sentinel = 3037000499 := by decide +kernel
  have answers : ∀ flavor ∈ strayed.flavors, ∃ satisfied,
      strayedConstraint.satisfied (.list [flavor]) = .ok satisfied :=
    List.forall_mem_cons.2 ⟨⟨true, rfl⟩, List.forall_mem_singleton.2 ⟨false, rfl⟩⟩
  have named : Fault.stated (.variableOutside 0 2) = .variableOutside 0 2 := Fault.stated_of_isWritable (by decide +kernel)
  have refused : strayed.problem.energy (.list [.int 0, .int 1]) = refuse (.variableOutside 0 2) := rfl
  refine ⟨rfl, kind, answers, refused.trans (congrArg Except.error named), violated, ?_, rfl⟩
  rw [directEnergy, kind, Outcome.ok_bind, Kind.zero_word, Outcome.ok_bind, Kind.sentinel_word, Outcome.ok_bind,
    violated, Outcome.ok_bind, Meaning.foldlM_sentinel, sentinel]
  rfl

end Problem

end EnergyTables
