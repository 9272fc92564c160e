import EnergyTables.Family.Coloring
import EnergyTables.Feasibility
import EnergyTables.Proofs.Codec
import EnergyTables.Proofs.Evaluation.Meaning

namespace EnergyTables

open Flavor Constraint

namespace Flavor

def Choices (flavorCount count : Nat) : Set (List Nat) :=
  {values | values.length = count ∧ ∀ value ∈ values, value < flavorCount}

def choiceAt (values : List Nat) (index : Int) : Nat := values.getD (index.toNat - 1) 0

def positionsOf (values : List Nat) : List Nat := values.map (· + 1)

variable {flavorCount count : Nat} {values : List Nat}

theorem positionsOf_mem (within : values ∈ Choices flavorCount count) :
    positionsOf values ∈ Positions flavorCount count := by
  refine ⟨(List.length_map _).trans within.1, List.forall_mem_map.2 fun value member => ?_⟩
  have bound := within.2 value member
  omega

theorem ofPosition_flavorsOf {position : Nat} (among : 1 ≤ position ∧ position ≤ flavorCount) :
    ofPosition (Coloring.flavorsOf flavorCount) position = .int ((position : Int) - 1) := by
  have bound : position - 1 < (Coloring.flavorsOf flavorCount).length := by
    rw [Coloring.flavorsOf, List.length_map, List.length_range]
    omega
  rw [ofPosition, List.getD_eq_getElem _ _ bound]
  simp only [Coloring.flavorsOf, List.getElem_map, List.getElem_range, Nat.cast_sub among.1, Nat.cast_one]

theorem ofPosition_positionsOf (within : values ∈ Choices flavorCount count) :
    (positionsOf values).map (ofPosition (Coloring.flavorsOf flavorCount)) =
      values.map fun (value : Nat) => .int value := by
  rw [positionsOf, List.map_map]
  apply List.map_congr_left
  intro value member
  have bound := within.2 value member
  rw [Function.comp_apply, ofPosition_flavorsOf (by omega), Nat.cast_succ, Int.add_sub_cancel]

theorem position_flavorsOf {value : Nat} (bound : value < flavorCount) :
    position (Coloring.flavorsOf flavorCount) (.int value) = .ok (value + 1) := by
  have length : (Coloring.flavorsOf flavorCount).length = flavorCount := by simp [Coloring.flavorsOf]
  refine position_eq_ok_iff.2 ⟨by omega, ?_, fun earlier first before => ?_⟩
  · rw [ofPosition_flavorsOf (by omega), Value.equal_int]
    simp
  · rw [ofPosition_flavorsOf (by omega), Value.equal_int, decide_eq_false (by omega)]

end Flavor

namespace Constraint

theorem localPositions_positionsOf {values : List Nat} {count : Nat} (length : values.length = count)
    {scope : List Int} (inside : ∀ index ∈ scope, 1 ≤ index ∧ index ≤ count) :
    localPositions scope (positionsOf values) = scope.map fun index => choiceAt values index + 1 := by
  apply List.map_congr_left
  intro index member
  have bounds := inside index member
  have bound : index.toNat - 1 < values.length := by omega
  rw [choiceAt, List.getD_eq_getElem _ _ bound, positionsOf, List.getD_eq_getElem _ _ (by rwa [List.length_map]),
    List.getElem_map]

theorem localValues_of_lists {configuration : Value} {items : List Value} (lists : configuration.Lists items)
    (scope : List Int) : localValues configuration scope = localValues (.list items) scope := by
  have same : (fun index : Int => configuration.itemAt (index - 1)) =
      fun index => (Value.list items).itemAt (index - 1) := by
    funext index
    rw [lists.itemAt_eq, (Value.Lists.list items).itemAt_eq]
  rw [localValues, localValues, same]

end Constraint

def Sense.sign : Sense → Int
  | .minimize => 1
  | .maximize => -1

theorem Kind.convert_int {format : IntFormat} {number : Int} (held : format.Holds number) :
    (Kind.stored (.word format)).convert (.int number) = .ok (.number (.ofWord format number)) := by
  have whole : (Value.int number).toInt = .ok number := congrArg Except.ok (Int.tdiv_one number)
  have fits : Word.ofInt? format number = some (.wrap format number) := by
    rw [Word.ofInt?, dif_pos held]
    exact congrArg some (Word.ext (Word.val_wrap_of_holds held).symm)
  show Value.store.plain (.word format) (.int number) = _
  rw [Value.store.plain, whole, Outcome.ok_bind, fits]
  rfl

namespace SoftConstraint

variable {flavors : List Value} {cost : List Nat → Int} {constraint : SoftConstraint}

def CostsExactly (flavors : List Value) (cost : List Nat → Int) (constraint : SoftConstraint) : Prop :=
  ∀ positions ∈ Positions flavors.length constraint.scope.length,
    constraint.energy (.list (positions.map (ofPosition flavors))) = .ok (.int (cost positions))

theorem CostsExactly.costs (exact : constraint.CostsExactly flavors cost) {format : IntFormat}
    (held : ∀ positions ∈ Positions flavors.length constraint.scope.length, format.Holds (cost positions)) :
    constraint.Costs format flavors cost := by
  intro positions within
  rw [tabled, exact positions within, Outcome.ok_bind, Kind.convert_int (held positions within)]

end SoftConstraint

namespace Problem

/-- A list or a tuple of flavors, and the positions that it has as its id. -/
structure Places (problem : Problem) (count : Nat) (configuration : Value) (positions : List Nat) : Prop where
  within : positions ∈ Positions problem.flavorCount count
  lists : configuration.Lists (positions.map (ofPosition problem.flavors))
  placed : problem.configurationId configuration = .ok positions

theorem places_of_choices {problem : Problem} {flavorCount count : Nat}
    (flavors : problem.flavors = Coloring.flavorsOf flavorCount) (counted : problem.variableCount = count)
    {values : List Nat} (within : values ∈ Choices flavorCount count) {configuration : Value}
    (lists : configuration.Lists (values.map fun (value : Nat) => .int value)) :
    problem.Places count configuration (positionsOf values) where
  within := by
    have counts : problem.flavorCount = flavorCount := by
      rw [Problem.flavorCount, flavors, Coloring.flavorsOf, List.length_map, List.length_range]
    rw [counts]
    exact positionsOf_mem within
  lists := by rwa [flavors, ofPosition_positionsOf within]
  placed := by
    have sameLength : ((values.map fun (value : Nat) => Value.int value).length : Int) = problem.variableCount := by
      rw [List.length_map, within.1, counted]
    rw [configurationId, lists.length_eq, Outcome.ok_bind, if_neg (not_not_intro sameLength), lists.items_eq,
      Outcome.ok_bind, flavors, Outcome.mapM_eq_ok_iff, List.forall₂_map_left_iff, positionsOf,
      List.forall₂_map_right_iff, List.forall₂_same]
    intro value member
    exact position_flavorsOf (within.2 value member)

variable {problem : Problem} {count : Nat} {configuration : Value} {positions : List Nat}

theorem Places.localValues_eq_ok (places : problem.Places count configuration positions) {scope : List Int}
    (inside : ∀ index ∈ scope, 1 ≤ index ∧ index ≤ count) : localValues configuration scope =
      .ok ((localPositions scope positions).map (ofPosition problem.flavors)) := by
  rw [localValues_of_lists places.lists, Constraint.localValues_eq_ok _ places.within inside]

theorem Places.keepViolated_eq_ok (places : problem.Places count configuration positions)
    {allowed : HardConstraint → List Nat → Bool} {hard : List HardConstraint}
    (inside : ∀ constraint ∈ hard, ∀ index ∈ constraint.scope, 1 ≤ index ∧ index ≤ count)
    (decides : ∀ constraint ∈ hard, constraint.Decides problem.flavors (allowed constraint)) :
    keepViolated configuration hard =
      .ok (hard.filter fun constraint => !allowed constraint (localPositions constraint.scope positions)) := by
  induction hard with
  | nil => rfl
  | cons constraint hard ih =>
    rcases List.forall_mem_cons.1 inside with ⟨firstInside, restInside⟩
    rcases List.forall_mem_cons.1 decides with ⟨firstDecides, restDecides⟩
    have satisfied := firstDecides _ (localPositions_mem places.within firstInside)
    rw [keepViolated, places.localValues_eq_ok firstInside, Outcome.ok_bind, satisfied, Outcome.ok_bind,
      ih restInside restDecides, List.filter_cons]
    cases allowed constraint (localPositions constraint.scope positions) with
    | true => rfl
    | false => rfl

theorem Places.violatedConstraints_eq_ok (places : problem.Places count configuration positions)
    {hard : List HardConstraint} (constrained : problem.hardConstraints = .ok hard)
    (inside : ∀ constraint ∈ hard, ∀ index ∈ constraint.scope, 1 ≤ index ∧ index ≤ count)
    (allowed : HardConstraint → List Nat → Bool)
    (decides : ∀ constraint ∈ hard, constraint.Decides problem.flavors (allowed constraint)) :
    problem.violatedConstraints configuration =
      .ok (hard.filter fun constraint => !allowed constraint (localPositions constraint.scope positions)) := by
  rw [violatedConstraints, places.placed, Outcome.ok_bind, constrained, Outcome.ok_bind,
    places.keepViolated_eq_ok inside decides]

theorem isFeasible_eq_ok {violated : List HardConstraint}
    (found : problem.violatedConstraints configuration = .ok violated) :
    problem.isFeasible configuration = .ok violated.isEmpty := by
  rw [isFeasible, found]
  rfl

namespace Meaning

variable {format : IntFormat}

theorem energy_eq_ok (meaning : problem.Meaning format count) (places : problem.Places count configuration positions) :
    problem.energy configuration = .ok (.number (.ofWord format (meaning.energy positions))) := by
  rcases meaning.exists_tables with ⟨tables, compiled⟩
  have terms : problem.energyTerms = .ok tables.terms := by rw [energyTerms, compiled]; rfl
  rw [Problem.energy, places.placed, Outcome.ok_bind, terms, Outcome.ok_bind, meaning.energyKind_eq, Outcome.ok_bind]
  exact meaning.energyById_eq_ok compiled places.within (Value.isId_idOf positions)

theorem foldlM_sentinel (violated : List HardConstraint) (start : Int) :
    violated.foldlM (fun (total : Value) _ => total.add (.number (.ofWord format format.sentinel)))
      (.number (.ofWord format start)) =
        .ok (.number (.ofWord format (start + violated.length * format.sentinel))) := by
  induction violated generalizing start with
  | nil => simp
  | cons constraint violated ih =>
    rw [List.foldlM_cons, Value.add_ofWord, Outcome.ok_bind, ih, List.length_cons, Nat.cast_succ, add_mul, one_mul,
      add_assoc, add_comm format.sentinel]

theorem foldlM_convert (places : problem.Places count configuration positions) {soft : List SoftConstraint}
    {cost : SoftConstraint → List Nat → Int}
    (inside : ∀ constraint ∈ soft, ∀ index ∈ constraint.scope, 1 ≤ index ∧ index ≤ count)
    (costs : ∀ constraint ∈ soft, constraint.Costs format problem.flavors (cost constraint)) (start : Int) :
    soft.foldlM (fun (total : Value) constraint => do
      total.add (← (Kind.stored (.word format)).convert (← localEnergy configuration constraint)))
        (.number (.ofWord format start)) =
          .ok (.number (.ofWord format
            (start + (soft.map fun constraint => cost constraint (localPositions constraint.scope positions)).sum))) := by
  induction soft generalizing start with
  | nil => simp
  | cons constraint soft ih =>
    rcases List.forall_mem_cons.1 inside with ⟨firstInside, restInside⟩
    rcases List.forall_mem_cons.1 costs with ⟨firstCosts, restCosts⟩
    have priced := firstCosts _ (localPositions_mem places.within firstInside)
    rw [SoftConstraint.tabled, Outcome.bind_eq_ok_iff] at priced
    rcases priced with ⟨energy, found, converted⟩
    rw [List.foldlM_cons, localEnergy, places.localValues_eq_ok firstInside, Outcome.ok_bind, found, Outcome.ok_bind,
      converted, Outcome.ok_bind, Value.add_ofWord, Outcome.ok_bind, ih restInside restCosts, List.map_cons,
      List.sum_cons, add_assoc]

theorem directEnergy_eq_ok (meaning : problem.Meaning format count)
    (places : problem.Places count configuration positions) :
    problem.directEnergy configuration = .ok (.number (.ofWord format (meaning.energy positions))) := by
  have violated := places.violatedConstraints_eq_ok meaning.hard_eq meaning.hard_inside meaning.allowed meaning.decides
  rw [directEnergy, meaning.energyKind_eq, Outcome.ok_bind, Kind.zero_word, Outcome.ok_bind, Kind.sentinel_word,
    Outcome.ok_bind, violated, Outcome.ok_bind, foldlM_sentinel, Outcome.ok_bind, meaning.soft_eq, Outcome.ok_bind,
    foldlM_convert places meaning.soft_inside meaning.costs, zero_add, ← List.countP_eq_length_filter]
  rfl

def Exact (meaning : problem.Meaning format count) : Prop :=
  ∀ constraint ∈ meaning.soft, constraint.CostsExactly problem.flavors (meaning.cost constraint)

theorem foldlM_localEnergy (places : problem.Places count configuration positions) {soft : List SoftConstraint}
    {cost : SoftConstraint → List Nat → Int}
    (inside : ∀ constraint ∈ soft, ∀ index ∈ constraint.scope, 1 ≤ index ∧ index ≤ count)
    (exact : ∀ constraint ∈ soft, constraint.CostsExactly problem.flavors (cost constraint)) (start : Int) :
    soft.foldlM (fun total constraint => do total.add (← localEnergy configuration constraint)) (Value.int start) =
      .ok (.int (start + (soft.map fun constraint => cost constraint (localPositions constraint.scope positions)).sum)) := by
  induction soft generalizing start with
  | nil => simp
  | cons constraint soft ih =>
    rcases List.forall_mem_cons.1 inside with ⟨firstInside, restInside⟩
    rcases List.forall_mem_cons.1 exact with ⟨firstExact, restExact⟩
    have priced := firstExact _ (localPositions_mem places.within firstInside)
    have sum (cost : Int) : (Value.int start).add (.int cost) = .ok (.int (start + cost)) := rfl
    rw [List.foldlM_cons, localEnergy, places.localValues_eq_ok firstInside, Outcome.ok_bind, priced, Outcome.ok_bind,
      sum, Outcome.ok_bind, ih restInside restExact, List.map_cons, List.sum_cons, add_assoc]

theorem solutionSize_eq_ok (meaning : problem.Meaning format count) (exact : meaning.Exact)
    (places : problem.Places count configuration positions) {violated : List HardConstraint}
    (found : problem.violatedConstraints configuration = .ok violated) :
    problem.solutionSize configuration =
      .ok ⟨.int (problem.sense.sign * meaning.softCost positions), violated.isEmpty⟩ := by
  have total := foldlM_localEnergy places meaning.soft_inside exact 0
  rw [zero_add] at total
  rw [solutionSize, isFeasible_eq_ok found, Outcome.ok_bind, meaning.soft_eq, Outcome.ok_bind, total, Outcome.ok_bind]
  cases problem.sense with
  | minimize => rw [Sense.sign, one_mul]; rfl
  | maximize => rw [Sense.sign, neg_one_mul]; rfl

end Meaning

end Problem

end EnergyTables
