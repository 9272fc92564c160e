import EnergyTables.Proofs.Selection.BestSelections
import EnergyTables.Proofs.Selection.EdgeViolations

namespace EnergyTables

namespace Search

theorem vectors_reverse {α : Type} (positions : List α) (count : Nat) :
    vectors positions.reverse count = (vectors positions count).reverse := by
  induction count with
  | zero => rfl
  | succ count ih =>
    rw [vectors, vectors, ih, List.reverse_flatMap]
    apply List.flatMap_congr
    intro position _
    rw [Function.comp_apply, List.map_reverse]

theorem minimisers_reverse {ι α : Type} [LinearOrder α] (cost : ι → α) (items : List ι) :
    minimisers cost items.reverse = (minimisers cost items).reverse := by
  simp only [minimisers, List.filter_reverse, List.mem_reverse]

end Search

namespace Selection

def complement (bits : List Nat) : List Nat := bits.map (1 - ·)

variable {format : IntFormat} {numbers : List Int} {pairs : List (Int × Int)} {bits : List Nat} {count : Nat}

theorem complement_mem_vectors (within : bits ∈ Vectors count) : complement bits ∈ Vectors count := by
  refine ⟨(List.length_map _).trans within.1, List.forall_mem_map.2 fun bit _ => ?_⟩
  omega

theorem complement_complement (within : bits ∈ Vectors count) : complement (complement bits) = bits := by
  rw [complement, complement, List.map_map]
  refine (List.map_congr_left fun bit member => ?_).trans (List.map_id bits)
  have small := within.2 bit member
  rw [Function.comp_apply, Nat.sub_sub_self small, id]

theorem bitAt_complement (within : bits ∈ Vectors count) {index : Int} (inside : 1 ≤ index ∧ index ≤ count) :
    bitAt (complement bits) index = 1 - bitAt bits index := by
  have bound : index.toNat - 1 < bits.length := by rw [within.1]; omega
  rw [bitAt, bitAt, complement, List.getD_eq_getElem _ _ (by rwa [List.length_map]), List.getElem_map,
    List.getD_eq_getElem _ _ bound]

theorem agree_complement_iff (within : bits ∈ Vectors numbers.length)
    (inside : ∀ pair ∈ pairs, (1 ≤ pair.1 ∧ pair.1 ≤ numbers.length) ∧ (1 ≤ pair.2 ∧ pair.2 ≤ numbers.length)) :
    ∀ pair ∈ pairs, bitAt (complement bits) pair.1 = 0 ∧ bitAt (complement bits) pair.2 = 0 ↔
      bitAt bits pair.1 = 1 ∧ bitAt bits pair.2 = 1 := by
  intro pair member
  have source := bitAt_le_one within pair.1
  have target := bitAt_le_one within pair.2
  rw [bitAt_complement within (inside pair member).1, bitAt_complement within (inside pair member).2]
  omega

theorem total_add_total_complement (within : bits ∈ Vectors numbers.length) :
    total numbers bits + total numbers (complement bits) = numbers.sum := by
  induction numbers generalizing bits with
  | nil => simp [total]
  | cons number numbers ih =>
    obtain ⟨bit, bits, rfl, small, within⟩ := exists_cons_of_mem_vectors within
    have rest := ih within
    have first : number * bit + number * (1 - bit : Nat) = number := by
      rw [← mul_add, ← Nat.cast_add, Nat.add_sub_cancel' small, Nat.cast_one, mul_one]
    rw [complement, List.map_cons, total_cons, total_cons, List.sum_cons, ← rest, complement]
    omega

theorem exactEnergy_complement (within : bits ∈ Vectors numbers.length)
    (inside : ∀ pair ∈ pairs, (1 ≤ pair.1 ∧ pair.1 ≤ numbers.length) ∧ (1 ≤ pair.2 ∧ pair.2 ≤ numbers.length)) :
    exactEnergy format numbers pairs 1 (-1) bits =
      exactEnergy format numbers pairs 0 1 (complement bits) - numbers.sum := by
  have agree : agreements pairs 1 bits = agreements pairs 0 (complement bits) := by
    apply List.countP_congr
    intro pair member
    rw [decide_eq_true_iff, decide_eq_true_iff, agree_complement_iff within inside pair member]
  rw [exactEnergy, exactEnergy, agree, ← total_add_total_complement within]
  omega

theorem minimisers_complement
    (inside : ∀ pair ∈ pairs, (1 ≤ pair.1 ∧ pair.1 ≤ numbers.length) ∧ (1 ≤ pair.2 ∧ pair.2 ≤ numbers.length)) :
    Search.minimisers (exactEnergy format numbers pairs 1 (-1)) (Search.vectors [0, 1] numbers.length) =
      ((Search.minimisers (exactEnergy format numbers pairs 0 1) (Search.vectors [0, 1] numbers.length)).map
        complement).reverse := by
  -- the complements of all vectors are all vectors in the opposite order, since each bit comes in the opposite order
  have turned : (Search.vectors [0, 1] numbers.length).map complement =
      (Search.vectors [0, 1] numbers.length).reverse := by
    rw [← Search.vectors_reverse]
    exact (Search.vectors_map (1 - ·) [0, 1] numbers.length).symm
  have shifted : Search.minimisers (exactEnergy format numbers pairs 1 (-1)) (Search.vectors [0, 1] numbers.length) =
      Search.minimisers (exactEnergy format numbers pairs 0 1 ∘ complement) (Search.vectors [0, 1] numbers.length) := by
    apply Search.minimisers_congr
    intro left leftMember right rightMember
    rw [exactEnergy_complement (mem_vectors_bits.1 leftMember) inside,
      exactEnergy_complement (mem_vectors_bits.1 rightMember) inside, sub_le_sub_iff_right]
    rfl
  have images : (Search.minimisers (exactEnergy format numbers pairs 1 (-1))
      (Search.vectors [0, 1] numbers.length)).map complement =
        (Search.minimisers (exactEnergy format numbers pairs 0 1) (Search.vectors [0, 1] numbers.length)).reverse := by
    rw [shifted, ← Search.minimisers_map, turned, Search.minimisers_reverse]
  rw [← List.map_reverse, ← images, List.map_map]
  refine (List.map_id _).symm.trans (List.map_congr_left fun bits member => ?_)
  exact (complement_complement (mem_minimisers_bits.1 member).1).symm

end Selection

open Selection

section Graphs

variable {graph : Graph} {kind : GraphKind} {vertices : List Int} {edges : List (Int × Int)} {weights : Value}
  {numbers : List Int}

theorem Graph.Simple.exists_make (simple : graph.Simple kind vertices edges numbers.length)
    (plain : Weights.Plain weights numbers) : ∃ (covering : VertexCovering) (independent : IndependentSet),
      VertexCovering.make graph weights = .ok covering ∧ IndependentSet.make graph weights = .ok independent ∧
      Weights.AreInts covering.weights numbers ∧ Weights.AreInts independent.weights numbers := by
  obtain ⟨kept, normalized, _, areInts⟩ := plain.exists_kept "vertices"
  refine ⟨⟨graph, kept⟩, ⟨graph, kept⟩, ?_, ?_, areInts, areInts⟩
  · rw [VertexCovering.make_eq simple, normalized]
    rfl
  · rw [IndependentSet.make_eq simple, normalized]
    rfl

/-- A vector as an independent set and its complement as a covering violate the rules of the same edges. Their sizes are
    the total weight together, and their energies differ by it modulo two to the width of a word. Where all energies are
    exact, the searches find complementary vectors in opposite orders. -/
theorem IndependentSet.complements_covering (simple : graph.Simple kind vertices edges numbers.length)
    (plain : Weights.Plain weights numbers)
    (held : ∀ number ∈ numbers, IntFormat.int64.Holds number ∧ IntFormat.int64.Holds (-number)) :
    ∃ (independent : IndependentSet) (covering : VertexCovering), make graph weights = .ok independent ∧
      VertexCovering.make graph weights = .ok covering ∧
      (∀ bits ∈ Vectors numbers.length, ∀ configuration others : Value,
        configuration.Lists (bits.map fun (bit : Nat) => .int bit) →
        others.Lists ((complement bits).map fun (bit : Nat) => .int bit) →
        (∃ pairs : List (Int × Int),
          independent.problem.violatedConstraints configuration = .ok (pairs.map (onPair "no_edge" someUnselected)) ∧
          covering.problem.violatedConstraints others = .ok (pairs.map (onPair "cover" someSelected))) ∧
        (∃ (size rest : Int) (valid : Bool), independent.problem.solutionSize configuration = .ok ⟨.int size, valid⟩ ∧
          covering.problem.solutionSize others = .ok ⟨.int rest, valid⟩ ∧ size + rest = numbers.sum) ∧
        ∃ energy other : Word .int64, independent.problem.energy configuration = .ok (.number (.word .int64 energy)) ∧
          covering.problem.energy others = .ok (.number (.word .int64 other)) ∧
          energy.val ≡ other.val - numbers.sum [ZMOD 2 ^ 64]) ∧
      (graph.edgeCount * IntFormat.int64.sentinel + magnitude numbers < 2 ^ 63 →
        ∀ limit : Int, (2 ^ numbers.length : Nat) ≤ limit → ∃ best : List (List Nat),
          (∀ bits ∈ best, bits ∈ Vectors numbers.length) ∧
          covering.problem.findBest (.int limit) = .ok (best.map (List.map fun (bit : Nat) => .int bit)) ∧
          independent.problem.findBest (.int limit) =
            .ok ((best.map complement).reverse.map (List.map fun (bit : Nat) => .int bit))) := by
  obtain ⟨covering, independent, covers, isolates, coveringInts, independentInts⟩ := simple.exists_make plain
  have covered := VertexCovering.restricts simple covers
  have isolated := IndependentSet.restricts simple isolates
  have coveringPoses := VertexCovering.poses simple plain.given rfl covers
  have independentPoses := IndependentSet.poses simple plain.given rfl isolates
  have inside := coveringPoses.inside
  refine ⟨independent, covering, isolates, covers, fun bits within configuration others lists othersList => ?_,
    fun fits limit enough => ?_⟩
  · have complementWithin := complement_mem_vectors within
    have violated := isolated.violatedConstraints_eq_ok within lists
    have otherViolated := covered.violatedConstraints_eq_ok complementWithin othersList
    have same : ((Graph.ranked kind edges).filter fun pair =>
        decide (bitAt (complement bits) pair.1 = 0 ∧ bitAt (complement bits) pair.2 = 0)) =
          (Graph.ranked kind edges).filter fun pair => decide (bitAt bits pair.1 = 1 ∧ bitAt bits pair.2 = 1) :=
      List.filter_congr fun pair member => decide_eq_decide.2 (agree_complement_iff within inside pair member)
    rw [same] at otherViolated
    have size := Poses.solutionSize_eq_ok independentPoses independentInts held within lists violated
    have rest := Poses.solutionSize_eq_ok coveringPoses coveringInts held complementWithin othersList otherViolated
    rw [List.isEmpty_map] at size rest
    refine ⟨⟨_, violated, otherViolated⟩, ⟨_, _, _, size, rest, total_add_total_complement within⟩, _, _,
      independentPoses.energy_eq_ok held within lists,
      coveringPoses.energy_eq_ok held complementWithin othersList, ?_⟩
    refine (Word.val_wrap_modEq _).trans ?_
    rw [exactEnergy_complement within inside]
    exact ((Word.val_wrap_modEq _).sub_right _).symm
  · have room : (Graph.ranked kind edges).length * IntFormat.int64.sentinel + magnitude numbers ≤
        IntFormat.int64.greatest := by
      rw [simple.edgeCount_eq] at fits
      exact Int.le_of_lt_add_one fits
    have found := coveringPoses.findBest_eq_ok held (fun bits => holds_exactEnergy rfl rfl room) enough
    have otherFound := independentPoses.findBest_eq_ok held (fun bits => holds_exactEnergy rfl rfl room) enough
    rw [minimisers_complement inside] at otherFound
    exact ⟨_, fun bits member => (mem_minimisers_bits.1 member).1, found, otherFound⟩

theorem IndependentSet.complements_covering_path : ∃ (graph : Graph) (independent : IndependentSet)
    (covering : VertexCovering) (pairs : List (Int × Int)) (size rest : Int) (valid : Bool) (best : List (List Nat)),
    Graph.build .undirected ([1, 2, 3].map .int) ([(1, 2), (3, 2)].map Graph.pairOf) = .ok graph ∧
    make graph (.list ([5, -2, 7].map .int)) = .ok independent ∧
    VertexCovering.make graph (.list ([5, -2, 7].map .int)) = .ok covering ∧
    independent.problem.violatedConstraints (.list ([1, 1, 0].map fun (bit : Nat) => .int bit)) =
      .ok (pairs.map (onPair "no_edge" someUnselected)) ∧
    covering.problem.violatedConstraints (.list ([0, 0, 1].map fun (bit : Nat) => .int bit)) =
      .ok (pairs.map (onPair "cover" someSelected)) ∧
    independent.problem.solutionSize (.list ([1, 1, 0].map fun (bit : Nat) => .int bit)) = .ok ⟨.int size, valid⟩ ∧
    covering.problem.solutionSize (.list ([0, 0, 1].map fun (bit : Nat) => .int bit)) = .ok ⟨.int rest, valid⟩ ∧
    size + rest = 10 ∧
    covering.problem.findBest (.int 8) = .ok (best.map (List.map fun (bit : Nat) => .int bit)) ∧
    independent.problem.findBest (.int 8) =
      .ok ((best.map complement).reverse.map (List.map fun (bit : Nat) => .int bit)) := by
  have built : Graph.build .undirected ([1, 2, 3].map .int) ([(1, 2), (3, 2)].map Graph.pairOf) = .ok _ := rfl
  have simple := Graph.simple_of_check (by decide) built rfl (by decide)
  obtain ⟨independent, covering, isolates, covers, complements, searches⟩ :=
    complements_covering simple (.list [5, -2, 7]) (by decide)
  obtain ⟨⟨pairs, violated, otherViolated⟩, ⟨size, rest, valid, sized, otherSized, sum⟩, _⟩ :=
    complements [1, 1, 0] ⟨rfl, by decide⟩ _ _ (.list _) (.list _)
  obtain ⟨best, _, found, otherFound⟩ := searches (by decide +kernel) 8 (by decide)
  exact ⟨_, independent, covering, pairs, size, rest, valid, best, built, isolates, covers, violated, otherViolated,
    sized, otherSized, sum, found, otherFound⟩

end Graphs

end EnergyTables
