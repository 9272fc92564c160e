import EnergyTables.Proofs.Selection.Families
import EnergyTables.Proofs.Selection.Optimum

namespace EnergyTables

namespace Selection

def Selects (bits : List Nat) (index : Int) : Prop := ∃ place : Nat, index = place + 1 ∧ bits[place]? = some 1

def Covers (edges : List (Int × Int)) (bits : List Nat) : Prop :=
  ∀ edge ∈ edges, Selects bits edge.1 ∨ Selects bits edge.2

def Independent (edges : List (Int × Int)) (bits : List Nat) : Prop :=
  ∀ edge ∈ edges, ¬ (Selects bits edge.1 ∧ Selects bits edge.2)

def Packs (sets : List (List Value)) (bits : List Nat) : Prop :=
  ∀ (front back : Nat) (left right : List Value), front < back → sets[front]? = some left → sets[back]? = some right →
    Selects bits (front + 1) → Selects bits (back + 1) →
      ∀ element ∈ left, ∀ other ∈ right, element.sameKey other = false

/-- The problems of choosing among vertices or sets with integer weights: which vectors are solutions, and which of two
    total weights is no worse. -/
inductive Choice : Problem → IntFormat → List Int → (List Nat → Prop) → (Int → Int → Prop) → Prop
  | vertexCovering {vertices : List Int} {edges : List (Int × Int)} {graph : Graph} {weights : Value}
      {format : IntFormat} {numbers : List Int} {covering : VertexCovering}
      (built : Graph.build .undirected (vertices.map .int) (edges.map Graph.pairOf) = .ok graph)
      (loopless : ∀ edge ∈ edges, edge.1 ≠ edge.2) (given : Weights.Given weights format numbers)
      (counted : numbers.length = graph.vertexCount) (made : VertexCovering.make graph weights = .ok covering) :
      Choice covering.problem format numbers (Covers edges) (· ≤ ·)
  | independentSet {vertices : List Int} {edges : List (Int × Int)} {graph : Graph} {weights : Value}
      {format : IntFormat} {numbers : List Int} {independent : IndependentSet}
      (built : Graph.build .undirected (vertices.map .int) (edges.map Graph.pairOf) = .ok graph)
      (loopless : ∀ edge ∈ edges, edge.1 ≠ edge.2) (given : Weights.Given weights format numbers)
      (counted : numbers.length = graph.vertexCount) (made : IndependentSet.make graph weights = .ok independent) :
      Choice independent.problem format numbers (Independent edges) (· ≥ ·)
  | setPacking {sets weights : Value} {format : IntFormat} {numbers : List Int} {packing : SetPacking}
      (given : Weights.Given weights format numbers) (made : SetPacking.make sets weights = .ok packing)
      (keys : ∀ set ∈ packing.sets, Value.areKeys set = true) (counted : numbers.length = packing.sets.length) :
      Choice packing.problem format numbers (Packs packing.sets) (· ≥ ·)

theorem selects_iff {bits : List Nat} {count : Nat} (within : bits ∈ Vectors count) {index : Int}
    (inside : 1 ≤ index ∧ index ≤ count) : Selects bits index ↔ bitAt bits index = 1 := by
  have bound : index.toNat - 1 < bits.length := by rw [within.1]; omega
  rw [bitAt, List.getD_eq_getElem _ _ bound, ← Option.some_inj, ← List.getElem?_eq_getElem bound]
  constructor
  · rintro ⟨place, rfl, selected⟩
    rwa [show ((place : Int) + 1).toNat - 1 = place by omega]
  · intro selected
    exact ⟨index.toNat - 1, by omega, selected⟩

theorem not_selects_iff {bits : List Nat} {count : Nat} (within : bits ∈ Vectors count) {index : Int}
    (inside : 1 ≤ index ∧ index ≤ count) : ¬ Selects bits index ↔ bitAt bits index = 0 := by
  have small := bitAt_le_one within index
  rw [selects_iff within inside]
  omega

theorem avoids_zero_iff {bits : List Nat} {count : Nat} (within : bits ∈ Vectors count) {pairs : List (Int × Int)}
    (inside : ∀ pair ∈ pairs, (1 ≤ pair.1 ∧ pair.1 ≤ count) ∧ (1 ≤ pair.2 ∧ pair.2 ≤ count)) :
    Avoids pairs 0 bits ↔ ∀ pair ∈ pairs, Selects bits pair.1 ∨ Selects bits pair.2 := by
  apply forall₂_congr
  intro pair member
  rw [← not_selects_iff within (inside pair member).1, ← not_selects_iff within (inside pair member).2]
  tauto

theorem avoids_one_iff {bits : List Nat} {count : Nat} (within : bits ∈ Vectors count) {pairs : List (Int × Int)}
    (inside : ∀ pair ∈ pairs, (1 ≤ pair.1 ∧ pair.1 ≤ count) ∧ (1 ≤ pair.2 ∧ pair.2 ≤ count)) :
    Avoids pairs 1 bits ↔ ∀ pair ∈ pairs, ¬ (Selects bits pair.1 ∧ Selects bits pair.2) := by
  apply forall₂_congr
  intro pair member
  rw [← selects_iff within (inside pair member).1, ← selects_iff within (inside pair member).2]

theorem avoids_replicate {pairs : List (Int × Int)} {count bit other : Nat}
    (inside : ∀ pair ∈ pairs, (1 ≤ pair.1 ∧ pair.1 ≤ count) ∧ (1 ≤ pair.2 ∧ pair.2 ≤ count)) (differ : other ≠ bit) :
    Avoids pairs bit (List.replicate count other) := by
  rintro pair member ⟨same, _⟩
  have bounds := (inside pair member).1
  rw [bitAt, List.getD_eq_getElem _ _ (by rw [List.length_replicate]; omega), List.getElem_replicate] at same
  exact differ same

theorem packs_iff {sets : List (List Value)} {bits : List Nat} :
    (∀ pair ∈ SetPacking.meetings sets, ¬ (Selects bits pair.1 ∧ Selects bits pair.2)) ↔ Packs sets bits := by
  constructor
  · intro apart front back left right before frontStands backStands frontSelected backSelected element elementMember
      other otherMember
    by_contra same
    refine apart _ (SetPacking.mem_meetings.2 ⟨front, back, left, right, before, frontStands, backStands, ?_, rfl⟩)
      ⟨frontSelected, backSelected⟩
    exact ⟨element, elementMember, other, otherMember, Bool.eq_true_of_not_eq_false same⟩
  · rintro packs pair member ⟨frontSelected, backSelected⟩
    obtain ⟨front, back, left, right, before, frontStands, backStands, meet, rfl⟩ := SetPacking.mem_meetings.1 member
    rcases meet with ⟨element, elementMember, other, otherMember, same⟩
    rw [packs front back left right before frontStands backStands frontSelected backSelected element elementMember other
      otherMember] at same
    cases same

def IsPosed (problem : Problem) (format : IntFormat) (numbers : List Int) (feasible : List Nat → Prop)
    (better : Int → Int → Prop) : Prop :=
  ∃ kept pairs bit sign, Poses problem format numbers kept pairs bit sign ∧ |sign| = 1 ∧
    (∀ left right, sign * left ≤ sign * right ↔ better left right) ∧
    (∀ bits ∈ Vectors numbers.length, Avoids pairs bit bits ↔ feasible bits) ∧
    ∃ bits ∈ Vectors numbers.length, Avoids pairs bit bits

theorem Poses.inside {problem : Problem} {format : IntFormat} {numbers : List Int} {kept : Value}
    {pairs : List (Int × Int)} {bit : Nat} {sign : Int} (poses : Poses problem format numbers kept pairs bit sign) :
    ∀ pair ∈ pairs, (1 ≤ pair.1 ∧ pair.1 ≤ numbers.length) ∧ (1 ≤ pair.2 ∧ pair.2 ≤ numbers.length) := by
  rcases poses.restricts with ⟨_, _, restricts⟩
  exact restricts.inside

theorem isPosed_vertexCovering {vertices : List Int} {edges : List (Int × Int)} {graph : Graph} {weights : Value}
    {format : IntFormat} {numbers : List Int} {covering : VertexCovering}
    (built : Graph.build .undirected (vertices.map .int) (edges.map Graph.pairOf) = .ok graph)
    (loopless : ∀ edge ∈ edges, edge.1 ≠ edge.2) (given : Weights.Given weights format numbers)
    (counted : numbers.length = graph.vertexCount) (made : VertexCovering.make graph weights = .ok covering) :
    IsPosed covering.problem format numbers (Covers edges) (· ≤ ·) := by
  rcases Outcome.bind_eq_ok_iff.1 made with ⟨_, checked, _⟩
  have simple := Graph.simple_of_check (by decide) built checked loopless
  have poses := VertexCovering.poses simple given counted made
  refine ⟨_, _, _, _, poses, rfl, fun left right => by rw [one_mul, one_mul], fun bits within => ?_, ?_⟩
  · rw [avoids_zero_iff within poses.inside]
    exact Graph.forall_ranked (fun source target => Selects bits source ∨ Selects bits target) fun _ _ => Or.symm
  · exact ⟨_, replicate_mem_vectors _ le_rfl, avoids_replicate poses.inside one_ne_zero⟩

theorem isPosed_independentSet {vertices : List Int} {edges : List (Int × Int)} {graph : Graph} {weights : Value}
    {format : IntFormat} {numbers : List Int} {independent : IndependentSet}
    (built : Graph.build .undirected (vertices.map .int) (edges.map Graph.pairOf) = .ok graph)
    (loopless : ∀ edge ∈ edges, edge.1 ≠ edge.2) (given : Weights.Given weights format numbers)
    (counted : numbers.length = graph.vertexCount) (made : IndependentSet.make graph weights = .ok independent) :
    IsPosed independent.problem format numbers (Independent edges) (· ≥ ·) := by
  rcases Outcome.bind_eq_ok_iff.1 made with ⟨_, checked, _⟩
  have simple := Graph.simple_of_check (by decide) built checked loopless
  have poses := IndependentSet.poses simple given counted made
  refine ⟨_, _, _, _, poses, rfl, fun left right => by rw [neg_one_mul, neg_one_mul, neg_le_neg_iff],
    fun bits within => ?_, ?_⟩
  · rw [avoids_one_iff within poses.inside]
    exact Graph.forall_ranked (fun source target => ¬ (Selects bits source ∧ Selects bits target)) fun _ _ => mt And.symm
  · exact ⟨_, replicate_mem_vectors _ zero_le_one, avoids_replicate poses.inside zero_ne_one⟩

theorem isPosed_setPacking {sets weights : Value} {format : IntFormat} {numbers : List Int} {packing : SetPacking}
    (given : Weights.Given weights format numbers) (made : SetPacking.make sets weights = .ok packing)
    (keys : ∀ set ∈ packing.sets, Value.areKeys set = true) (counted : numbers.length = packing.sets.length) :
    IsPosed packing.problem format numbers (Packs packing.sets) (· ≥ ·) := by
  have poses := SetPacking.poses given made (SetPacking.comparable_of_keys fun _ => keys) counted
  refine ⟨_, _, _, _, poses, rfl, fun left right => by rw [neg_one_mul, neg_one_mul, neg_le_neg_iff],
    fun bits within => ?_, ?_⟩
  · rw [avoids_one_iff within poses.inside]
    exact packs_iff
  · exact ⟨_, replicate_mem_vectors _ zero_le_one, avoids_replicate poses.inside zero_ne_one⟩

theorem Choice.isPosed {problem : Problem} {format : IntFormat} {numbers : List Int} {feasible : List Nat → Prop}
    {better : Int → Int → Prop} (choice : Choice problem format numbers feasible better) :
    IsPosed problem format numbers feasible better := by
  cases choice with
  | vertexCovering built loopless given counted made => exact isPosed_vertexCovering built loopless given counted made
  | independentSet built loopless given counted made => exact isPosed_independentSet built loopless given counted made
  | setPacking given made keys counted => exact isPosed_setPacking given made keys counted

/-- A search solves a choice exactly: it finds every solution of best total weight, each once and in lexicographic
    order, provided that the weights stay below the sentinel and the energies within the words. -/
theorem Choice.findBest_solves {problem : Problem} {format : IntFormat} {numbers : List Int}
    {feasible : List Nat → Prop} {better : Int → Int → Prop} (choice : Choice problem format numbers feasible better)
    (signed : format.signed = true) :
    problem.energyKind = .ok (.stored (.word format)) ∧ ∃ hard, problem.hardConstraints = .ok hard ∧
      (magnitude numbers < format.sentinel →
        hard.length * format.sentinel + magnitude numbers ≤ format.greatest →
        ∀ limit : Int, (2 ^ numbers.length : Nat) ≤ limit → ∃ best : List (List Nat), best.Pairwise (· < ·) ∧
          (∀ bits, bits ∈ best ↔ bits ∈ Vectors numbers.length ∧ feasible bits ∧
            ∀ others ∈ Vectors numbers.length, feasible others → better (total numbers bits) (total numbers others)) ∧
          problem.findBest (.int limit) = .ok (best.map (List.map fun (bit : Nat) => .int bit))) := by
  rcases choice.isPosed with ⟨kept, pairs, bit, sign, poses, unit, better_iff, avoids_iff, some⟩
  rcases poses.restricts with ⟨tag, rule, restricts⟩
  refine ⟨poses.energyKind_eq, _, restricts.hard_eq, fun small fits limit enough => ?_⟩
  rw [List.length_map] at fits
  obtain ⟨best, increases, members, found⟩ := poses.exists_best unit signed small fits some enough
  refine ⟨best, increases, fun bits => (members bits).trans (and_congr_right fun within => ?_), found⟩
  rw [avoids_iff bits within]
  refine and_congr_right fun _ => forall₂_congr fun others member => ?_
  rw [avoids_iff others member, better_iff]

theorem Choice.findBest_solves_path : ∃ best : List (List Nat), best.Pairwise (· < ·) ∧
    (∀ bits, bits ∈ best ↔ bits ∈ Vectors 3 ∧ Covers [(1, 2), (3, 2)] bits ∧
      ∀ others ∈ Vectors 3, Covers [(1, 2), (3, 2)] others → total [1, 2, 1] bits ≤ total [1, 2, 1] others) ∧
    (do
      let graph ← Graph.build .undirected ([1, 2, 3].map .int) ([(1, 2), (3, 2)].map Graph.pairOf)
      let covering ← VertexCovering.make graph (.list ([1, 2, 1].map .int))
      covering.problem.findBest (.int 8)) = .ok (best.map (List.map fun (bit : Nat) => .int bit)) := by
  have built : Graph.build .undirected ([1, 2, 3].map .int) ([(1, 2), (3, 2)].map Graph.pairOf) = .ok _ := rfl
  obtain ⟨_, hard, constrained, solves⟩ :=
    Choice.findBest_solves (.vertexCovering built (by decide) (.list [1, 2, 1]) rfl rfl) rfl
  cases constrained
  obtain ⟨best, increases, members, found⟩ := solves (by decide +kernel) (by decide +kernel) 8 (by decide)
  refine ⟨best, increases, members, Outcome.bind_eq_ok_iff.2 ⟨_, built, Outcome.bind_eq_ok_iff.2 ⟨_, ?_, found⟩⟩⟩
  rfl

end Selection

end EnergyTables
