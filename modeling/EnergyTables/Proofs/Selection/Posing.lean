import EnergyTables.Proofs.Selection.Rules
import Mathlib.Algebra.BigOperators.Ring.List

namespace EnergyTables

open Flavor Constraint

namespace Selection

def total (numbers : List Int) (bits : List Nat) : Int :=
  (List.zipWith (fun (number : Int) (bit : Nat) => number * bit) numbers bits).sum

theorem total_cons (number : Int) (numbers : List Int) (bit : Nat) (bits : List Nat) :
    total (number :: numbers) (bit :: bits) = number * bit + total numbers bits := by
  rw [total, List.zipWith_cons_cons, List.sum_cons, total]

theorem total_replicate_zero (numbers : List Int) : total numbers (List.replicate numbers.length 0) = 0 := by
  induction numbers with
  | nil => rfl
  | cons number numbers ih =>
    rw [List.length_cons, List.replicate_succ, total_cons, ih, Nat.cast_zero, mul_zero, add_zero]

theorem total_eq_marked {numbers : List Int} {bits : List Nat} (within : bits ∈ Vectors numbers.length) :
    total numbers bits = Weights.marked numbers (bits.map fun bit => decide (bit = 1)) := by
  induction numbers generalizing bits with
  | nil => simp [total, Weights.marked]
  | cons number numbers ih =>
    rcases exists_cons_of_mem_vectors within with ⟨bit, bits, rfl, small, within⟩
    rw [total_cons, List.map_cons, Weights.marked_cons, ih within]
    by_cases one : bit = 1
    · simp [one]
    · have zero : bit = 0 := by omega
      simp [zero]

def bitAt (bits : List Nat) (index : Int) : Nat := bits.getD (index.toNat - 1) 0

theorem bitAt_le_one {bits : List Nat} {count : Nat} (within : bits ∈ Vectors count) (index : Int) :
    bitAt bits index ≤ 1 := by
  by_cases bound : index.toNat - 1 < bits.length
  · rw [bitAt, List.getD_eq_getElem _ _ bound]
    exact within.2 _ (List.getElem_mem bound)
  · rw [bitAt, List.getD_eq_default _ _ (Nat.le_of_not_lt bound)]
    exact Nat.zero_le 1

def onPair (tag : String) (rule : List Int → Value → Outcome Bool) (pair : Int × Int) : HardConstraint :=
  ⟨[pair.1, pair.2], tag, rule [pair.1, pair.2]⟩

def onItem (tag : String) (energy : List Int → Value → Value → Outcome Value) (weightAt : Nat → Value) (index : Nat) :
    SoftConstraint :=
  ⟨[(index : Int) + 1], tag, weightAt index, energy [(index : Int) + 1] (weightAt index)⟩

theorem Forbids.decides {bit : Nat} {rule : List Int → Value → Outcome Bool} (forbids : Forbids bit rule) (tag : String)
    (pair : Int × Int) : (onPair tag rule pair).Decides flavors fun positions => !positions.all (· = bit + 1) :=
  fun positions within => forbids [pair.1, pair.2] positions within

def itemCost (sign : Int) (constraint : SoftConstraint) (positions : List Nat) : Int :=
  sign * constraint.weight.whole * ((positions.headD 1 : Int) - 1)

theorem onItem_costs {format : IntFormat} {sign : Int} {energy : List Int → Value → Value → Outcome Value} (tag : String)
    {weightAt : Nat → Value} {index : Nat}
    (stored : ∀ position, 1 ≤ position ∧ position ≤ 2 → ∃ value,
      energy [(index : Int) + 1] (weightAt index) (.list [ofPosition flavors position]) = .ok value ∧
      (Kind.stored (.word format)).convert value =
        .ok (.number (.ofWord format (sign * (weightAt index).whole * ((position : Int) - 1))))) :
    (onItem tag energy weightAt index).Costs format flavors (itemCost sign (onItem tag energy weightAt index)) := by
  intro positions within
  rcases List.length_eq_one_iff.1 within.1 with ⟨position, rfl⟩
  rcases stored position (within.2 position (by simp)) with ⟨value, priced, converts⟩
  have tabled : (onItem tag energy weightAt index).tabled (.stored (.word format)) [ofPosition flavors position] =
      (Kind.stored (.word format)).convert value := by
    rw [SoftConstraint.tabled]
    exact congrArg (· >>= (Kind.stored (.word format)).convert) priced
  rw [List.map_singleton, tabled, converts]
  rfl

theorem Prices.costs {format : IntFormat} {sign : Int} {energy : List Int → Value → Value → Outcome Value}
    (prices : Prices format sign energy) (tag : String) {weightAt : Nat → Value} {index : Nat} {number : Int}
    (weighs : Weights.Weighs format (weightAt index) number) (held : format.Holds number)
    (heldNeg : format.Holds (-number)) :
    (onItem tag energy weightAt index).Costs format flavors (itemCost sign (onItem tag energy weightAt index)) := by
  apply onItem_costs
  intro position among
  rw [weighs.whole_eq]
  exact prices.stored rfl weighs held heldNeg among

theorem Prices.costsExactly {format : IntFormat} {sign : Int} {energy : List Int → Value → Value → Outcome Value}
    (prices : Prices format sign energy) (tag : String) {weightAt : Nat → Value} {index : Nat} {number : Int}
    (plain : weightAt index = .int number) :
    (onItem tag energy weightAt index).CostsExactly flavors (itemCost sign (onItem tag energy weightAt index)) := by
  intro positions within
  rcases List.length_eq_one_iff.1 within.1 with ⟨position, rfl⟩
  have single : [(index : Int) + 1].length = 1 := rfl
  have priced := prices.exact single number (within.2 position (by simp))
  rw [List.map_singleton, itemCost, onItem, plain]
  exact priced

structure Restricts (problem : Problem) (count : Nat) (pairs : List (Int × Int)) (bit : Nat) (tag : String)
    (rule : List Int → Value → Outcome Bool) : Prop where
  flavors_eq : problem.flavors = flavors
  counted : problem.variableCount = count
  forbids : Forbids bit rule
  hard_eq : problem.hardConstraints = .ok (pairs.map (onPair tag rule))
  inside : ∀ pair ∈ pairs, (1 ≤ pair.1 ∧ pair.1 ≤ count) ∧ (1 ≤ pair.2 ∧ pair.2 ≤ count)

/-- A problem of items with weights and of pairs of them that may not both have the bit. -/
structure Poses (problem : Problem) (format : IntFormat) (numbers : List Int) (kept : Value)
    (pairs : List (Int × Int)) (bit : Nat) (sign : Int) : Prop where
  energyKind_eq : problem.energyKind = .ok (.stored (.word format))
  restricts : ∃ tag rule, Restricts problem numbers.length pairs bit tag rule
  isKept : Weights.Kept kept format numbers
  soft_eq : ∃ tag energy, Prices format sign energy ∧
    problem.softConstraints = onItems numbers.length kept tag energy

theorem onItems_eq_ok {kept : Value} {count : Nat} {weightAt : Nat → Value}
    (weighs : ∀ index < count, kept.itemAt index = .ok (weightAt index)) (tag : String)
    (energy : List Int → Value → Value → Outcome Value) :
    onItems count kept tag energy = .ok ((List.range count).map (onItem tag energy weightAt)) := by
  apply Outcome.mapM_eq_map
  intro index member
  rw [weighs index (List.mem_range.1 member), Outcome.ok_bind]
  rfl

theorem localPositions_bits {bits : List Nat} {count : Nat} (within : bits ∈ Vectors count) {scope : List Int}
    (inside : ∀ index ∈ scope, 1 ≤ index ∧ index ≤ count) :
    localPositions scope (positionsOf bits) = scope.map fun index => bitAt bits index + 1 :=
  localPositions_positionsOf within.1 inside

theorem sum_bits {numbers : List Int} {bits : List Nat} (sign : Int) (within : bits ∈ Vectors numbers.length) :
    ((List.range numbers.length).map fun (index : Nat) =>
      sign * numbers.getD index 0 * (bitAt bits ((index : Int) + 1) : Int)).sum = sign * total numbers bits := by
  have products : ((List.range numbers.length).map fun (index : Nat) =>
      numbers.getD index 0 * (bitAt bits ((index : Int) + 1) : Int)) =
        List.zipWith (fun (number : Int) (bit : Nat) => number * bit) numbers bits := by
    apply List.ext_getElem (by simp [within.1])
    intro index bound _
    rw [List.length_map, List.length_range] at bound
    have bitBound : index < bits.length := within.1 ▸ bound
    rw [List.getElem_map, List.getElem_range, List.getElem_zipWith, List.getD_eq_getElem _ _ bound, bitAt,
      show ((index : Int) + 1).toNat - 1 = index by omega, List.getD_eq_getElem _ _ bitBound]
  rw [total, ← products, ← List.sum_map_mul_left]
  simp only [mul_assoc]

variable {problem : Problem} {format : IntFormat} {numbers : List Int} {pairs : List (Int × Int)} {bit : Nat}
  {sign : Int}

theorem all_localPositions {bits : List Nat} {count : Nat} (within : bits ∈ Vectors count) {pair : Int × Int}
    (inside : ∀ index ∈ [pair.1, pair.2], 1 ≤ index ∧ index ≤ count) (bit : Nat) :
    (localPositions [pair.1, pair.2] (positionsOf bits)).all (· = bit + 1) = true ↔
      bitAt bits pair.1 = bit ∧ bitAt bits pair.2 = bit := by
  rw [localPositions_bits within inside]
  simp

theorem itemCost_localPositions {bits : List Nat} {count : Nat} (within : bits ∈ Vectors count) {place : Nat}
    (bound : place < count) (sign : Int) {weight : Value} {number : Int} (whole : weight.whole = number)
    (constraint : SoftConstraint) (weight_eq : constraint.weight = weight) :
    itemCost sign constraint (localPositions [(place : Int) + 1] (positionsOf bits)) =
      sign * number * (bitAt bits ((place : Int) + 1) : Int) := by
  have inside : ∀ index ∈ [(place : Int) + 1], 1 ≤ index ∧ index ≤ count := by
    intro index member
    rw [List.mem_singleton.1 member]
    omega
  rw [itemCost, localPositions_bits within inside, weight_eq, whole]
  simp

variable {count : Nat} {tag : String} {rule : List Int → Value → Outcome Bool} {bits : List Nat}

def Avoids (pairs : List (Int × Int)) (bit : Nat) (bits : List Nat) : Prop :=
  ∀ pair ∈ pairs, ¬ (bitAt bits pair.1 = bit ∧ bitAt bits pair.2 = bit)

def agreements (pairs : List (Int × Int)) (bit : Nat) (bits : List Nat) : Nat :=
  pairs.countP fun pair => decide (bitAt bits pair.1 = bit ∧ bitAt bits pair.2 = bit)

theorem agreements_eq_zero_iff : agreements pairs bit bits = 0 ↔ Avoids pairs bit bits := by
  simp only [agreements, List.countP_eq_zero, decide_eq_true_iff, Avoids]

/-- A sentinel for each of the pairs that have the bit at both ends, and the total weight with the sign. -/
def exactEnergy (format : IntFormat) (numbers : List Int) (pairs : List (Int × Int)) (bit : Nat) (sign : Int)
    (bits : List Nat) : Int :=
  agreements pairs bit bits * format.sentinel + sign * total numbers bits

theorem Restricts.pair_inside (restricts : Restricts problem count pairs bit tag rule) :
    ∀ constraint ∈ pairs.map (onPair tag rule), ∀ index ∈ constraint.scope, 1 ≤ index ∧ index ≤ count := by
  refine List.forall_mem_map.2 fun pair member => ?_
  rcases restricts.inside pair member with ⟨first, second⟩
  simp [onPair, first, second]

theorem Restricts.decides (restricts : Restricts problem count pairs bit tag rule) :
    ∀ constraint ∈ pairs.map (onPair tag rule), constraint.Decides problem.flavors
      fun positions => !positions.all (· = bit + 1) := by
  rw [restricts.flavors_eq]
  exact List.forall_mem_map.2 fun pair _ => restricts.forbids.decides tag pair

theorem Restricts.violatedConstraints_eq_ok (restricts : Restricts problem count pairs bit tag rule)
    (within : bits ∈ Vectors count) {configuration : Value}
    (lists : configuration.Lists (bits.map fun (bit : Nat) => .int bit)) :
    problem.violatedConstraints configuration = .ok ((pairs.filter fun pair =>
      decide (bitAt bits pair.1 = bit ∧ bitAt bits pair.2 = bit)).map (onPair tag rule)) := by
  have places := Problem.places_of_choices restricts.flavors_eq restricts.counted (mem_choices within) lists
  rw [places.violatedConstraints_eq_ok restricts.hard_eq restricts.pair_inside
    (fun _ positions => !positions.all (· = bit + 1)) restricts.decides, List.filter_map]
  refine congrArg (fun violated => Except.ok (violated.map (onPair tag rule))) (List.filter_congr fun pair member => ?_)
  have inside := restricts.pair_inside _ (List.mem_map_of_mem member)
  rw [Function.comp_apply, Bool.not_not, Bool.eq_iff_iff, decide_eq_true_iff]
  exact all_localPositions within inside bit

theorem isEmpty_filter {α : Type} (test : α → Bool) (items : List α) :
    (items.filter test).isEmpty = items.all fun item => !test item := by
  rw [Bool.eq_iff_iff]
  simp

theorem Restricts.isFeasible_eq_ok (restricts : Restricts problem count pairs bit tag rule)
    (within : bits ∈ Vectors count) {configuration : Value}
    (lists : configuration.Lists (bits.map fun (bit : Nat) => .int bit)) :
    problem.isFeasible configuration =
      .ok (pairs.all fun pair => !decide (bitAt bits pair.1 = bit ∧ bitAt bits pair.2 = bit)) := by
  rw [Problem.isFeasible_eq_ok (restricts.violatedConstraints_eq_ok within lists), List.isEmpty_map, isEmpty_filter]

theorem Poses.flavors_eq {kept : Value} (poses : Poses problem format numbers kept pairs bit sign) :
    problem.flavors = flavors := by
  rcases poses.restricts with ⟨_, _, restricts⟩
  exact restricts.flavors_eq

/-- Rules on pairs and the cost of each item have a meaning: a pair violates where both its variables have the bit, and
    the soft cost is the total weight with the sign. -/
theorem Restricts.exists_meaning (restricts : Restricts problem numbers.length pairs bit tag rule)
    (kinded : problem.energyKind = .ok (.stored (.word format))) {softTag : String}
    {energy : List Int → Value → Value → Outcome Value} {weightAt : Nat → Value}
    (soft : problem.softConstraints = .ok ((List.range numbers.length).map (onItem softTag energy weightAt)))
    (whole : ∀ place < numbers.length, (weightAt place).whole = numbers.getD place 0)
    (costs : ∀ place < numbers.length, (onItem softTag energy weightAt place).Costs format flavors
      (itemCost sign (onItem softTag energy weightAt place))) :
    ∃ meaning : problem.Meaning format numbers.length,
      meaning.soft = (List.range numbers.length).map (onItem softTag energy weightAt) ∧ meaning.cost = itemCost sign ∧
      ∀ bits ∈ Vectors numbers.length,
        meaning.violations (positionsOf bits) = agreements pairs bit bits ∧
        meaning.softCost (positionsOf bits) = sign * total numbers bits := by
  have itemInside : ∀ place < numbers.length, ∀ index ∈ [(place : Int) + 1], 1 ≤ index ∧ index ≤ numbers.length := by
    intro place bound index member
    rw [List.mem_singleton.1 member]
    omega
  refine ⟨{
    hard := pairs.map (onPair tag rule)
    soft := (List.range numbers.length).map (onItem softTag energy weightAt)
    allowed := fun _ positions => !positions.all (· = bit + 1)
    cost := itemCost sign
    energyKind_eq := kinded
    counted := restricts.counted
    hard_eq := restricts.hard_eq
    soft_eq := soft
    hard_inside := restricts.pair_inside
    soft_inside := List.forall_mem_map.2 fun place member => itemInside place (List.mem_range.1 member)
    decides := restricts.decides
    costs := by
      rw [restricts.flavors_eq]
      exact List.forall_mem_map.2 fun place member => costs place (List.mem_range.1 member) },
    rfl, rfl, fun bits within => ⟨?_, ?_⟩⟩
  · rw [Problem.Meaning.violations, List.countP_map, agreements]
    apply List.countP_congr
    intro pair member
    have inside := restricts.pair_inside _ (List.mem_map_of_mem member)
    rw [decide_eq_true_iff, ← all_localPositions within inside bit, Function.comp_apply, Bool.not_not]
    rfl
  · rw [Problem.Meaning.softCost, List.map_map, ← sum_bits sign within]
    refine congrArg List.sum (List.map_congr_left fun place member => ?_)
    have bound := List.mem_range.1 member
    exact itemCost_localPositions within bound sign (whole place bound) _ rfl

theorem Poses.exists_meaning {kept : Value} (poses : Poses problem format numbers kept pairs bit sign)
    (held : ∀ number ∈ numbers, format.Holds number ∧ format.Holds (-number)) :
    ∃ meaning : problem.Meaning format numbers.length, (Weights.AreInts kept numbers → meaning.Exact) ∧
      ∀ bits ∈ Vectors numbers.length,
        meaning.violations (positionsOf bits) = agreements pairs bit bits ∧
        meaning.softCost (positionsOf bits) = sign * total numbers bits := by
  rcases poses.restricts with ⟨hardTag, rule, restricts⟩
  rcases poses.soft_eq with ⟨softTag, energy, prices, soft⟩
  rcases poses.isKept.exists_weightAt with ⟨weightAt, weighs⟩
  have heldAt : ∀ place < numbers.length,
      format.Holds (numbers.getD place 0) ∧ format.Holds (-numbers.getD place 0) := by
    intro place bound
    rw [List.getD_eq_getElem _ _ bound]
    exact held _ (List.getElem_mem bound)
  have listed := soft.trans (onItems_eq_ok (fun index bound => (weighs index bound).1) softTag energy)
  obtain ⟨meaning, soft_eq, cost_eq, means⟩ := restricts.exists_meaning poses.energyKind_eq listed
    (fun place bound => (weighs place bound).2.whole_eq)
    fun place bound => prices.costs softTag (weighs place bound).2 (heldAt place bound).1 (heldAt place bound).2
  refine ⟨meaning, fun areInts => ?_, means⟩
  rw [Problem.Meaning.Exact, soft_eq, cost_eq, restricts.flavors_eq]
  refine List.forall_mem_map.2 fun place member => ?_
  have bound := List.mem_range.1 member
  exact prices.costsExactly softTag (Except.ok.inj ((weighs place bound).1.symm.trans (areInts place bound)))

theorem exactEnergy_eq {meaning : problem.Meaning format numbers.length}
    (means : meaning.violations (positionsOf bits) = agreements pairs bit bits ∧
      meaning.softCost (positionsOf bits) = sign * total numbers bits) :
    meaning.energy (positionsOf bits) = exactEnergy format numbers pairs bit sign bits := by
  rw [Problem.Meaning.energy, exactEnergy, means.1, means.2]

section Configurations

variable {kept configuration : Value}

theorem Poses.energy_eq_ok (poses : Poses problem format numbers kept pairs bit sign)
    (held : ∀ number ∈ numbers, format.Holds number ∧ format.Holds (-number))
    (within : bits ∈ Vectors numbers.length) (lists : configuration.Lists (bits.map fun (bit : Nat) => .int bit)) :
    problem.energy configuration =
      .ok (.number (.ofWord format (exactEnergy format numbers pairs bit sign bits))) := by
  obtain ⟨meaning, _, means⟩ := poses.exists_meaning held
  have places := Problem.places_of_choices poses.flavors_eq meaning.counted (mem_choices within) lists
  rw [meaning.energy_eq_ok places, exactEnergy_eq (means bits within)]

theorem Poses.solutionSize_eq_ok (poses : Poses problem format numbers kept pairs bit problem.sense.sign)
    (areInts : Weights.AreInts kept numbers)
    (held : ∀ number ∈ numbers, format.Holds number ∧ format.Holds (-number))
    (within : bits ∈ Vectors numbers.length) (lists : configuration.Lists (bits.map fun (bit : Nat) => .int bit))
    {violated : List HardConstraint} (found : problem.violatedConstraints configuration = .ok violated) :
    problem.solutionSize configuration = .ok ⟨.int (total numbers bits), violated.isEmpty⟩ := by
  obtain ⟨meaning, exact, means⟩ := poses.exists_meaning held
  have places := Problem.places_of_choices poses.flavors_eq meaning.counted (mem_choices within) lists
  have unit : problem.sense.sign * problem.sense.sign = 1 := by cases problem.sense <;> rfl
  rw [meaning.solutionSize_eq_ok (exact areInts) places found, (means bits within).2, ← mul_assoc, unit, one_mul]

end Configurations

end Selection

end EnergyTables
