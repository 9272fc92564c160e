import EnergyTables.Proofs.Evaluation.Lookup
import EnergyTables.Search

namespace EnergyTables

namespace Search

theorem mem_vectors {α : Type} {positions : List α} {count : Nat} {vector : List α} :
    vector ∈ vectors positions count ↔ vector.length = count ∧ ∀ position ∈ vector, position ∈ positions := by
  induction count generalizing vector with
  | zero =>
    rw [vectors, List.mem_singleton, List.length_eq_zero_iff]
    exact ⟨by rintro rfl; simp, And.left⟩
  | succ count ih =>
    cases vector with
    | nil => simp [vectors]
    | cons position vector =>
      simp only [vectors, List.mem_flatMap, List.mem_map, List.cons.injEq, exists_eq_right_right, ih,
        List.length_cons, Nat.add_right_cancel_iff, List.forall_mem_cons]
      tauto

theorem vectors_map {α β : Type} (function : α → β) (positions : List α) (count : Nat) :
    vectors (positions.map function) count = (vectors positions count).map (List.map function) := by
  induction count with
  | zero => rfl
  | succ count ih =>
    simp only [vectors, ih, List.map_flatMap, List.flatMap_map, List.map_map]
    rfl

theorem vectors_increase {positions : List Nat} (increase : positions.Pairwise (· < ·)) (count : Nat) :
    (vectors positions count).Pairwise (· < ·) := by
  induction count with
  | zero => exact List.pairwise_singleton _ _
  | succ count ih =>
    rw [vectors, List.pairwise_flatMap]
    constructor
    · intro position _
      rw [List.pairwise_map]
      exact ih.imp fun less => List.cons_lt_cons_iff.2 (.inr ⟨rfl, less⟩)
    · refine increase.imp fun less front frontMember back backMember => ?_
      obtain ⟨_, _, rfl⟩ := List.mem_map.1 frontMember
      obtain ⟨_, _, rfl⟩ := List.mem_map.1 backMember
      exact List.cons_lt_cons_iff.2 (.inl less)

def enumeration (flavorCount count : Nat) : List (List Nat) := vectors (List.range' 1 flavorCount) count

theorem mem_enumeration {flavorCount count : Nat} {positions : List Nat} :
    positions ∈ enumeration flavorCount count ↔ positions ∈ Flavor.Positions flavorCount count := by
  rw [enumeration, mem_vectors, Flavor.Positions, Set.mem_ofPred_eq]
  refine and_congr_right fun _ => forall₂_congr fun position _ => ?_
  rw [List.mem_range'_1]
  omega

theorem enumeration_increases (flavorCount count : Nat) : (enumeration flavorCount count).Pairwise (· < ·) :=
  vectors_increase List.pairwise_lt_range' count

theorem length_enumeration (flavorCount count : Nat) :
    (enumeration flavorCount count).length = flavorCount ^ count := by
  rw [enumeration]
  induction count with
  | zero => rfl
  | succ count ih =>
    rw [vectors, List.length_flatMap]
    simp only [List.length_map, ih, List.map_const', List.length_range', List.sum_replicate_nat,
      Nat.pow_succ, Nat.mul_comm]

end Search

def Value.idOf (positions : List Nat) : Value := .list (positions.map fun (position : Nat) => .int position)

theorem Value.isId_idOf (positions : List Nat) : (idOf positions).IsId positions := .list _

theorem Problem.allIds_eq {problem : Problem} {count : Nat} (counted : problem.variableCount = count) :
    problem.allIds = (Search.enumeration problem.flavorCount count).map Value.idOf := by
  have positions : (List.range problem.flavorCount).map (fun (index : Nat) => Value.int (index + 1)) =
      (List.range' 1 problem.flavorCount).map fun (position : Nat) => Value.int position := by
    rw [List.range'_eq_map_range, List.map_map]
    apply List.map_congr_left
    intro index _
    rw [Function.comp_apply, Nat.add_comm, Nat.cast_succ]
  rw [allIds, positions, counted, Int.toNat_natCast, Search.vectors_map, List.map_map]
  rfl

end EnergyTables
