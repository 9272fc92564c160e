import EnergyTables.Proofs.Selection.Posing
import Mathlib.Algebra.Order.BigOperators.Group.List
import Mathlib.Algebra.Order.Ring.Abs

namespace EnergyTables

open Flavor

namespace Selection

variable {problem : Problem} {format : IntFormat} {numbers : List Int} {pairs : List (Int × Int)} {bit : Nat}
  {sign : Int}

def magnitude (numbers : List Int) : Int := (numbers.map fun number => |number|).sum

theorem abs_total_sub_le {left right : List Nat} (leftWithin : left ∈ Vectors numbers.length)
    (rightWithin : right ∈ Vectors numbers.length) :
    |total numbers left - total numbers right| ≤ magnitude numbers := by
  induction numbers generalizing left right with
  | nil => simp [total, magnitude]
  | cons number numbers ih =>
    obtain ⟨leftBit, left, rfl, leftSmall, leftWithin⟩ := exists_cons_of_mem_vectors leftWithin
    obtain ⟨rightBit, right, rfl, rightSmall, rightWithin⟩ := exists_cons_of_mem_vectors rightWithin
    have bits : |(leftBit : Int) - rightBit| ≤ 1 := abs_le.2 ⟨by omega, by omega⟩
    have first : |number * ((leftBit : Int) - rightBit)| ≤ |number| := by
      rw [abs_mul]
      exact mul_le_of_le_one_right (abs_nonneg number) bits
    calc |total (number :: numbers) (leftBit :: left) - total (number :: numbers) (rightBit :: right)|
        = |number * ((leftBit : Int) - rightBit) + (total numbers left - total numbers right)| := by
          congr 1
          rw [total_cons, total_cons]
          ring
      _ ≤ |number * ((leftBit : Int) - rightBit)| + |total numbers left - total numbers right| := abs_add_le _ _
      _ ≤ |number| + magnitude numbers := add_le_add first (ih leftWithin rightWithin)
      _ = magnitude (number :: numbers) := by rw [magnitude, magnitude, List.map_cons, List.sum_cons]

theorem abs_total_le {bits : List Nat} (within : bits ∈ Vectors numbers.length) :
    |total numbers bits| ≤ magnitude numbers := by
  have nothing := abs_total_sub_le within (replicate_mem_vectors numbers.length (Nat.zero_le 1))
  rwa [total_replicate_zero, sub_zero] at nothing

theorem abs_le_magnitude {number : Int} (member : number ∈ numbers) : |number| ≤ magnitude numbers :=
  List.single_le_sum (List.forall_mem_map.2 fun _ _ => abs_nonneg _) _ (List.mem_map_of_mem member)

theorem le_mul_sentinel {violations : Nat} (violated : violations ≠ 0) {sentinel : Int} (nonneg : 0 ≤ sentinel) :
    sentinel ≤ violations * sentinel := by
  apply le_mul_of_one_le_left nonneg
  omega

/-- A sentinel above every difference of costs outweighs them: the least energy is the least cost without violations. -/
theorem least_iff_of_sentinel {ι : Type} {items : Set ι} {violations : ι → Nat} {cost : ι → Int} {sentinel : Int}
    (near : ∀ left ∈ items, ∀ right ∈ items, cost left - cost right < sentinel)
    (some : ∃ item ∈ items, violations item = 0) {item : ι} (member : item ∈ items) :
    (∀ other ∈ items, violations item * sentinel + cost item ≤ violations other * sentinel + cost other) ↔
      violations item = 0 ∧ ∀ other ∈ items, violations other = 0 → cost item ≤ cost other := by
  constructor
  · intro least
    rcases some with ⟨free, freeMember, none⟩
    have below := least free freeMember
    have close := near free freeMember item member
    rw [none, Nat.cast_zero, zero_mul, zero_add] at below
    have feasible : violations item = 0 := by
      -- one violation costs a sentinel, which no difference of the costs makes up for
      by_contra violated
      have positive := near item member item member
      have once := le_mul_sentinel violated (by omega : 0 ≤ sentinel)
      omega
    refine ⟨feasible, fun other otherMember otherFree => ?_⟩
    have undercuts := least other otherMember
    rwa [feasible, otherFree, Nat.cast_zero, zero_mul, zero_add, zero_add] at undercuts
  · rintro ⟨feasible, least⟩ other otherMember
    rw [feasible, Nat.cast_zero, zero_mul, zero_add]
    by_cases otherFree : violations other = 0
    · rw [otherFree, Nat.cast_zero, zero_mul, zero_add]
      exact least other otherMember otherFree
    · have close := near item member other otherMember
      have positive := near item member item member
      have once := le_mul_sentinel otherFree (by omega : 0 ≤ sentinel)
      omega

theorem mem_vectors_bits {count : Nat} {bits : List Nat} :
    bits ∈ Search.vectors [0, 1] count ↔ bits ∈ Vectors count := by
  rw [Search.mem_vectors, Vectors, Set.mem_ofPred_eq]
  refine and_congr_right fun _ => forall₂_congr fun bit _ => ?_
  rw [List.mem_cons, List.mem_singleton]
  omega

theorem mem_minimisers_bits {α : Type} [LinearOrder α] {cost : List Nat → α} {count : Nat} {bits : List Nat} :
    bits ∈ Search.minimisers cost (Search.vectors [0, 1] count) ↔
      bits ∈ Vectors count ∧ ∀ others ∈ Vectors count, cost bits ≤ cost others := by
  simp only [Search.mem_minimisers, mem_vectors_bits]

theorem enumeration_eq (count : Nat) :
    Search.enumeration 2 count = (Search.vectors [0, 1] count).map positionsOf := by
  have shifted : List.range' 1 2 = [0, 1].map (· + 1) := rfl
  rw [Search.enumeration, shifted, Search.vectors_map]
  rfl

theorem abs_sign_mul (unit : |sign| = 1) (cost : Int) : |sign * cost| = |cost| := by rw [abs_mul, unit, one_mul]

theorem sign_total_sub_lt (unit : |sign| = 1) (small : magnitude numbers < format.sentinel) {left right : List Nat}
    (leftWithin : left ∈ Vectors numbers.length) (rightWithin : right ∈ Vectors numbers.length) :
    sign * total numbers left - sign * total numbers right < format.sentinel := by
  calc sign * total numbers left - sign * total numbers right
      = sign * (total numbers left - total numbers right) := (mul_sub _ _ _).symm
    _ ≤ |sign * (total numbers left - total numbers right)| := le_abs_self _
    _ = |total numbers left - total numbers right| := abs_sign_mul unit _
    _ ≤ magnitude numbers := abs_total_sub_le leftWithin rightWithin
    _ < format.sentinel := small

theorem holds_energy (signed : format.signed = true) {count : Nat}
    (fits : count * format.sentinel + magnitude numbers ≤ format.greatest) {violations : Nat} (few : violations ≤ count)
    {cost : Int} (low : |cost| ≤ magnitude numbers) : format.Holds (violations * format.sentinel + cost) := by
  have positive := format.sentinel_nonneg
  have most : violations * format.sentinel ≤ count * format.sentinel :=
    mul_le_mul_of_nonneg_right (Int.ofNat_le.2 few) positive
  have none : 0 ≤ violations * format.sentinel := mul_nonneg (Int.natCast_nonneg violations) positive
  have bounds := abs_le.1 low
  exact IntFormat.holds_of_abs_le signed (abs_le.2 ⟨by omega, by omega⟩)

theorem holds_number (signed : format.signed = true) {count : Nat}
    (fits : count * format.sentinel + magnitude numbers ≤ format.greatest) :
    ∀ number ∈ numbers, format.Holds number ∧ format.Holds (-number) := by
  intro number member
  have weight := abs_le_magnitude member
  have holds {cost : Int} (low : |cost| ≤ magnitude numbers) : format.Holds cost := by
    simpa using holds_energy signed fits (Nat.zero_le count) low
  exact ⟨holds weight, holds (by rwa [abs_neg])⟩

theorem holds_exactEnergy (unit : |sign| = 1) (signed : format.signed = true)
    (fits : pairs.length * format.sentinel + magnitude numbers ≤ format.greatest) {bits : List Nat}
    (within : bits ∈ Vectors numbers.length) : format.Holds (exactEnergy format numbers pairs bit sign bits) :=
  holds_energy signed fits List.countP_le_length ((abs_sign_mul unit _).trans_le (abs_total_le within))

theorem Poses.findBest_words {kept : Value} (poses : Poses problem format numbers kept pairs bit sign)
    (held : ∀ number ∈ numbers, format.Holds number ∧ format.Holds (-number))
    {limit : Int} (enough : (2 ^ numbers.length : Nat) ≤ limit) :
    problem.findBest (.int limit) =
      .ok ((Search.minimisers (fun bits => Word.wrap format (exactEnergy format numbers pairs bit sign bits))
        (Search.vectors [0, 1] numbers.length)).map (List.map fun (bit : Nat) => .int bit)) := by
  obtain ⟨meaning, _, means⟩ := poses.exists_meaning held
  have flavorCount : problem.flavorCount = 2 := by rw [Problem.flavorCount, poses.flavors_eq]; rfl
  have energy_eq : ∀ bits ∈ Search.vectors [0, 1] numbers.length,
      meaning.energy (positionsOf bits) = exactEnergy format numbers pairs bit sign bits :=
    fun bits member => exactEnergy_eq (means bits (mem_vectors_bits.1 member))
  have same : Search.minimisers ((fun positions => Word.wrap format (meaning.energy positions)) ∘ positionsOf)
      (Search.vectors [0, 1] numbers.length) =
      Search.minimisers (fun bits => Word.wrap format (exactEnergy format numbers pairs bit sign bits))
        (Search.vectors [0, 1] numbers.length) := by
    apply Search.minimisers_congr
    intro left leftMember right rightMember
    rw [Function.comp_apply, Function.comp_apply, energy_eq left leftMember, energy_eq right rightMember]
  rw [meaning.findBest_eq_ok (Problem.countable_of_two_le flavorCount.ge _) (by rwa [flavorCount]), flavorCount,
    enumeration_eq, Search.minimisers_map, List.map_map,
    poses.flavors_eq, same]
  refine congrArg Except.ok (List.map_congr_left fun bits member => ?_)
  exact ofPosition_positionsOf (mem_choices (mem_vectors_bits.1 (Search.mem_minimisers.1 member).1))

theorem Poses.findBest_eq_ok {kept : Value} (poses : Poses problem format numbers kept pairs bit sign)
    (held : ∀ number ∈ numbers, format.Holds number ∧ format.Holds (-number))
    (holds : ∀ bits ∈ Vectors numbers.length, format.Holds (exactEnergy format numbers pairs bit sign bits)) {limit : Int}
    (enough : (2 ^ numbers.length : Nat) ≤ limit) :
    problem.findBest (.int limit) =
      .ok ((Search.minimisers (exactEnergy format numbers pairs bit sign) (Search.vectors [0, 1] numbers.length)).map
        (List.map fun (bit : Nat) => .int bit)) := by
  have exact : ∀ bits ∈ Search.vectors [0, 1] numbers.length,
      (Word.wrap format (exactEnergy format numbers pairs bit sign bits)).val =
        exactEnergy format numbers pairs bit sign bits :=
    fun bits member => Word.val_wrap_of_holds (holds bits (mem_vectors_bits.1 member))
  have same : Search.minimisers (fun bits => Word.wrap format (exactEnergy format numbers pairs bit sign bits))
      (Search.vectors [0, 1] numbers.length) =
      Search.minimisers (exactEnergy format numbers pairs bit sign) (Search.vectors [0, 1] numbers.length) := by
    apply Search.minimisers_congr
    intro left leftMember right rightMember
    rw [Word.le_iff, exact left leftMember, exact right rightMember]
  rw [poses.findBest_words held enough, same]

/-- Where the weights stay below the sentinel and the energies within the words, a search finds the vectors of least
    cost that avoid the pairs. -/
theorem Poses.exists_best {kept : Value} (poses : Poses problem format numbers kept pairs bit sign) (unit : |sign| = 1)
    (signed : format.signed = true) (small : magnitude numbers < format.sentinel)
    (fits : pairs.length * format.sentinel + magnitude numbers ≤ format.greatest)
    (some : ∃ bits ∈ Vectors numbers.length, Avoids pairs bit bits) {limit : Int}
    (enough : (2 ^ numbers.length : Nat) ≤ limit) :
    ∃ best : List (List Nat), best.Pairwise (· < ·) ∧
      (∀ bits, bits ∈ best ↔ bits ∈ Vectors numbers.length ∧ Avoids pairs bit bits ∧
        ∀ others ∈ Vectors numbers.length, Avoids pairs bit others →
          sign * total numbers bits ≤ sign * total numbers others) ∧
      problem.findBest (.int limit) = .ok (best.map (List.map fun (bit : Nat) => .int bit)) := by
  have free : ∃ bits ∈ Vectors numbers.length, agreements pairs bit bits = 0 := by
    rcases some with ⟨bits, within, avoids⟩
    exact ⟨bits, within, agreements_eq_zero_iff.2 avoids⟩
  have near : ∀ left ∈ Vectors numbers.length, ∀ right ∈ Vectors numbers.length,
      sign * total numbers left - sign * total numbers right < format.sentinel :=
    fun left leftWithin right => sign_total_sub_lt unit small leftWithin
  refine ⟨Search.minimisers (exactEnergy format numbers pairs bit sign) (Search.vectors [0, 1] numbers.length),
    (Search.vectors_increase (by decide) _).filter _, fun bits => ?_,
    poses.findBest_eq_ok (holds_number signed fits) (fun bits => holds_exactEnergy unit signed fits) enough⟩
  simp only [mem_minimisers_bits, exactEnergy, ← agreements_eq_zero_iff]
  exact and_congr_right fun within => least_iff_of_sentinel near free within

end Selection

end EnergyTables
