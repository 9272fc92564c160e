import EnergyTables.Proofs.Interchange.Contents
import EnergyTables.Proofs.Interchange.Sizes

namespace EnergyTables

open Flavor Selection

namespace Problem

/-- No configuration of flavors tells the two problems apart. -/
structure Interchangeable (left right : Problem) : Prop where
  variableCount_eq : left.variableCount = right.variableCount
  flavors_eq : left.flavors = right.flavors
  hardConstraints_eq : ∃ hard, left.hardConstraints = .ok hard ∧ right.hardConstraints = .ok hard
  violatedConstraints_eq : ∀ configuration,
    left.violatedConstraints configuration = right.violatedConstraints configuration
  solutionSize_eq : ∀ (configuration : Value) (items : List Value), configuration.Lists items →
    (items.length : Int) = left.variableCount → (∀ item ∈ items, item ∈ left.flavors) →
      ∃ size sizeToo isValid, left.solutionSize configuration = .ok ⟨size, isValid⟩ ∧
        right.solutionSize configuration = .ok ⟨sizeToo, isValid⟩ ∧ size.equal sizeToo = .ok true

theorem exists_choices {flavorCount : Nat} {items : List Value}
    (each : ∀ item ∈ items, item ∈ Coloring.flavorsOf flavorCount) :
    ∃ values ∈ Choices flavorCount items.length, items = values.map fun (value : Nat) => .int value := by
  induction items with
  | nil => exact ⟨[], ⟨rfl, by simp⟩, rfl⟩
  | cons item items ih =>
    rcases List.forall_mem_cons.1 each with ⟨first, rest⟩
    rcases List.mem_map.1 first with ⟨value, member, rfl⟩
    rcases ih rest with ⟨values, within, rfl⟩
    refine ⟨value :: values, ⟨congrArg Nat.succ within.1, ?_⟩, rfl⟩
    exact List.forall_mem_cons.2 ⟨List.mem_range.1 member, within.2⟩

variable {left right : Problem} {flavorCount count : Nat} {hard : List HardConstraint} {size : List Nat → Rat}

theorem violatedConstraints_congr (counted : left.variableCount = right.variableCount)
    (flavored : left.flavors = right.flavors) (constrained : left.hardConstraints = right.hardConstraints)
    (configuration : Value) : left.violatedConstraints configuration = right.violatedConstraints configuration := by
  rw [violatedConstraints, violatedConstraints, configurationId, configurationId, counted, flavored, constrained]

theorem interchangeable (flavored : left.flavors = Coloring.flavorsOf flavorCount)
    (flavoredToo : right.flavors = Coloring.flavorsOf flavorCount) (counted : left.variableCount = count)
    (countedToo : right.variableCount = count) (constrained : left.hardConstraints = .ok hard)
    (constrainedToo : right.hardConstraints = .ok hard)
    (checks : ∀ configuration positions, left.Places count configuration positions →
      ∃ violated, left.violatedConstraints configuration = .ok violated)
    (sizes : left.Sizes count size) (sizesToo : right.Sizes count size) : left.Interchangeable right where
  variableCount_eq := counted.trans countedToo.symm
  flavors_eq := flavored.trans flavoredToo.symm
  hardConstraints_eq := ⟨hard, constrained, constrainedToo⟩
  violatedConstraints_eq := violatedConstraints_congr (counted.trans countedToo.symm)
    (flavored.trans flavoredToo.symm) (constrained.trans constrainedToo.symm)
  solutionSize_eq := by
    intro configuration items lists lengths each
    rw [flavored] at each
    rcases exists_choices each with ⟨values, within, rfl⟩
    rw [counted, List.length_map, Int.natCast_inj] at lengths
    rw [List.length_map, lengths] at within
    have places := places_of_choices flavored counted within lists
    have placesToo := places_of_choices flavoredToo countedToo within lists
    rcases checks _ _ places with ⟨violated, found⟩
    have foundToo : right.violatedConstraints configuration = .ok violated := by
      rw [← found]
      exact violatedConstraints_congr (countedToo.trans counted.symm) (flavoredToo.trans flavored.symm)
        (constrainedToo.trans constrained.symm) configuration
    rcases sizes _ _ _ places found with ⟨one, sized, isRational⟩
    rcases sizesToo _ _ _ placesToo foundToo with ⟨other, sizedToo, isRationalToo⟩
    refine ⟨one, other, violated.isEmpty, sized, sizedToo, ?_⟩
    rw [isRational.equal_eq_ok isRationalToo, decide_eq_true rfl]

end Problem

namespace Selection

variable {problem other : Problem} {pairs : List (Int × Int)} {bit : Nat} {hardTag softTag : String}
  {rule : List Int → Value → Outcome Bool} {energy : List Int → Value → Value → Outcome Value} {kept keptToo : Value}
  {numbers : List Rat} {sign : Int}

/-- The pairs that a problem restricts, and its items, each with a weight that stands for a rational. -/
structure Weighs (problem : Problem) (pairs : List (Int × Int)) (bit : Nat) (hardTag softTag : String)
    (rule : List Int → Value → Outcome Bool) (energy : List Int → Value → Value → Outcome Value) (kept : Value)
    (numbers : List Rat) : Prop where
  restricts : Restricts problem numbers.length pairs bit hardTag rule
  soft_eq : problem.softConstraints = onItems numbers.length kept softTag energy
  bears : Weights.Bears kept numbers

theorem Weighs.interchangeable (weighs : Weighs problem pairs bit hardTag softTag rule energy kept numbers)
    (weighsToo : Weighs other pairs bit hardTag softTag rule energy keptToo numbers)
    (sense : problem.sense = other.sense) (prices : PricesRationals sign energy) :
    problem.Interchangeable other := by
  rcases weighs with ⟨restricts, soft, bears⟩
  rcases weighsToo with ⟨restrictsToo, softToo, bearsToo⟩
  have flavored : problem.flavors = Coloring.flavorsOf 2 := restricts.flavors_eq
  refine Problem.interchangeable flavored restrictsToo.flavors_eq restricts.counted restrictsToo.counted
    restricts.hard_eq restrictsToo.hard_eq ?_ (sizes restricts.flavors_eq soft bears prices) ?_
  · intro configuration positions places
    exact ⟨_, places.violatedConstraints_eq_ok restricts.hard_eq restricts.pair_inside
      (fun _ positions => !positions.all (· = bit + 1)) restricts.decides⟩
  · rw [sense]
    exact sizes restrictsToo.flavors_eq softToo bearsToo prices

end Selection

section Graphs

variable {graph : Graph} {kind : GraphKind} {vertices : List Int} {edges : List (Int × Int)} {numbers : List Rat}

theorem VertexCovering.weighs {covering : VertexCovering}
    (simple : covering.graph.Simple kind vertices edges numbers.length)
    (bears : Weights.Bears covering.weights numbers) :
    Weighs covering.problem (Graph.ranked kind edges) 0 "cover" "vertex" someSelected cost covering.weights numbers where
  restricts := simple.restricts forbids_someSelected rfl rfl rfl
  soft_eq := by
    rw [← simple.vertexCount_eq]
    rfl
  bears := bears

theorem IndependentSet.weighs {independent : IndependentSet}
    (simple : independent.graph.Simple kind vertices edges numbers.length)
    (bears : Weights.Bears independent.weights numbers) :
    Weighs independent.problem (Graph.ranked kind edges) 1 "no_edge" "vertex" someUnselected gain independent.weights
      numbers where
  restricts := simple.restricts forbids_someUnselected rfl rfl rfl
  soft_eq := by
    rw [← simple.vertexCount_eq]
    rfl
  bears := bears

end Graphs

namespace SetPacking

variable {left leftToo right rightToo : List Value} {sets others : List (List Value)}

theorem meet_of_sameKeys (first : Value.sameKeys leftToo left = true) (second : Value.sameKeys rightToo right = true)
    (meet : ∃ element ∈ left, ∃ other ∈ right, element.sameKey other = true) :
    ∃ element ∈ leftToo, ∃ other ∈ rightToo, element.sameKey other = true := by
  rcases meet with ⟨element, member, other, memberToo, same⟩
  rcases Outcome.exists_of_forall₂_right (Value.sameKeys_iff.1 first) member with ⟨copy, copyMember, copied⟩
  rcases Outcome.exists_of_forall₂_right (Value.sameKeys_iff.1 second) memberToo with ⟨copyToo, copyMemberToo, copiedToo⟩
  refine ⟨copy, copyMember, copyToo, copyMemberToo, ?_⟩
  rw [Value.sameKey_congr _ _ copied, Value.sameKey_congr_right copiedToo, same]

theorem exists_getElem?_of_forall₂ {α β : Type} {relation : α → β → Prop} {items : List α} {results : List β}
    (related : List.Forall₂ relation items results) {place : Nat} {result : β} (stands : results[place]? = some result) :
    ∃ item, items[place]? = some item ∧ relation item result := by
  rcases List.getElem?_eq_some_iff.1 stands with ⟨bound, rfl⟩
  have within : place < items.length := related.length_eq ▸ bound
  exact ⟨items[place], List.getElem?_eq_getElem within, related.get within bound⟩

theorem mem_meetings_of_sameKeys (same : List.Forall₂ (fun set other => Value.sameKeys set other = true) others sets)
    {pair : Int × Int} (member : pair ∈ meetings sets) : pair ∈ meetings others := by
  rcases mem_meetings.1 member with ⟨front, back, left, right, before, frontStands, backStands, meet, rfl⟩
  rcases exists_getElem?_of_forall₂ same frontStands with ⟨leftToo, frontToo, sameLeft⟩
  rcases exists_getElem?_of_forall₂ same backStands with ⟨rightToo, backToo, sameRight⟩
  exact mem_meetings.2 ⟨front, back, leftToo, rightToo, before, frontToo, backToo,
    meet_of_sameKeys sameLeft sameRight meet, rfl⟩

/-- Sets that are the same keys, one for one, meet at the same places. -/
theorem meetings_eq_of_sameKey (same : (Value.tuple (sets.map .tuple)).sameKey (.tuple (others.map .tuple)) = true) :
    meetings sets = meetings others := by
  have forward : List.Forall₂ (fun set other => Value.sameKeys set other = true) sets others := by
    have each := Value.sameKeys_iff.1 (show Value.sameKeys (sets.map .tuple) (others.map .tuple) = true from same)
    rwa [List.forall₂_map_left_iff, List.forall₂_map_right_iff] at each
  have backward : List.Forall₂ (fun set other => Value.sameKeys set other = true) others sets := by
    apply List.Forall₂.flip
    exact forward.imp fun set other sameSet => (Value.sameKeys_comm other set).trans sameSet
  have distinct (sets : List (List Value)) : (meetings sets).Nodup :=
    (pairwise_meetings sets).imp fun before same => (ne_of_lt before) (congrArg toLex same)
  -- the pairs that meet are listed in increasing order, so the same pairs are the same list
  have permuted : (meetings sets).Perm (meetings others) := by
    rw [List.perm_ext_iff_of_nodup (distinct _) (distinct _)]
    exact fun pair => ⟨mem_meetings_of_sameKeys backward, mem_meetings_of_sameKeys forward⟩
  apply permuted.eq_of_pairwise _ (pairwise_meetings _) (pairwise_meetings _)
  intro pair other _ _ before after
  exact absurd after before.asymm

theorem weighs {packing : SetPacking} {numbers : List Rat} (comparable : Comparable packing.sets)
    (counted : numbers.length = packing.sets.length) (bears : Weights.Bears packing.weights numbers) :
    Weighs packing.problem (meetings packing.sets) 1 "disjoint" "set" someUnselected gain packing.weights numbers where
  restricts := by
    rw [counted]
    exact restricts comparable
  soft_eq := by
    rw [counted]
    rfl
  bears := bears

end SetPacking

namespace Instance

variable {among : Value → Prop} {left right subject : Instance} {content other : Content}

theorem Holds.interchangeable (equalAsKeys : Value.EqualAsKeys among) (holds : left.Holds among content)
    (holdsToo : right.Holds among other) (same : content.Matches other) :
    left.problem.Interchangeable right.problem := by
  cases holds with
  | @coloring coloring _ _ _ size count numbers simple asked sized bears =>
    cases holdsToo with
    | coloring simpleToo askedToo sizedToo bearsToo =>
      rcases Content.coloring.inj same with ⟨rfl, rfl, sameEdges, rfl⟩
      have sizesToo := Coloring.sizes simpleToo bearsToo
      rw [← sameEdges] at sizesToo
      apply Problem.interchangeable (congrArg Coloring.flavorsOf sized) (congrArg Coloring.flavorsOf sizedToo)
        (congrArg Nat.cast simple.vertexCount_eq) (congrArg Nat.cast simpleToo.vertexCount_eq) rfl rfl _
        (Coloring.sizes simple bears) sizesToo
      intro configuration positions places
      exact ⟨_, places.violatedConstraints_eq_ok rfl (by simp) (fun _ _ => true) (by simp)⟩
    | _ => cases same
  | @vertexCovering covering _ _ _ count numbers simple bears counted =>
    cases holdsToo with
    | vertexCovering simpleToo bearsToo =>
      rcases Content.vertexCovering.inj same with ⟨rfl, sameEdges, rfl⟩
      subst counted
      have weighsToo := VertexCovering.weighs simpleToo bearsToo
      rw [← sameEdges] at weighsToo
      exact (VertexCovering.weighs simple bears).interchangeable weighsToo rfl pricesRationals_cost
    | _ => cases same
  | @independentSet independent _ _ _ count numbers simple bears counted =>
    cases holdsToo with
    | independentSet simpleToo bearsToo =>
      rcases Content.independentSet.inj same with ⟨rfl, sameEdges, rfl⟩
      subst counted
      have weighsToo := IndependentSet.weighs simpleToo bearsToo
      rw [← sameEdges] at weighsToo
      exact (IndependentSet.weighs simple bears).interchangeable weighsToo rfl pricesRationals_gain
    | _ => cases same
  | @setPacking packing numbers elements bears counted =>
    cases holdsToo with
    | setPacking elementsToo bearsToo countedToo =>
      rcases same with ⟨sameSets, rfl⟩
      have keys {sets : List (List Value)} (elements : ∀ set ∈ sets, ∀ element ∈ set, among element) :
          SetPacking.Comparable sets :=
        SetPacking.comparable_of_keys fun _ set member => equalAsKeys.areKeys_eq_true (elements set member)
      have weighsToo := SetPacking.weighs (keys elementsToo) countedToo bearsToo
      rw [← SetPacking.meetings_eq_of_sameKey sameSets] at weighsToo
      exact (SetPacking.weighs (keys elements) counted bears).interchangeable weighsToo rfl pricesRationals_gain
    | _ => cases same

end Instance

end EnergyTables
