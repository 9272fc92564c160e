import EnergyTables.Term
import Mathlib.Data.Int.ConditionallyCompleteOrder
import Mathlib.Data.Nat.Digits.Defs
import Mathlib.Data.Set.Function
import Mathlib.Tactic.Ring

namespace EnergyTables

namespace Flavor

def Positions (flavorCount count : Nat) : Set (List Nat) :=
  {positions | positions.length = count ∧ ∀ position ∈ positions, 1 ≤ position ∧ position ≤ flavorCount}

def ofPosition (flavors : List Value) (position : Nat) : Value := flavors.getD (position - 1) .none

theorem nil_mem_positions (flavorCount : Nat) : [] ∈ Positions flavorCount 0 := ⟨rfl, by simp⟩

theorem cons_mem_positions {flavorCount count position : Nat} {positions : List Nat} :
    position :: positions ∈ Positions flavorCount (count + 1) ↔
      (1 ≤ position ∧ position ≤ flavorCount) ∧ positions ∈ Positions flavorCount count := by
  simp only [Positions, Set.mem_ofPred_eq, List.length_cons, Nat.add_right_cancel_iff, List.forall_mem_cons]
  tauto

end Flavor

namespace Term

open Flavor

/-- The address that positions have by strides, `∑ strides[i] * (positions[i] - 1)`. -/
def strided (strides : List Int) (positions : List Nat) : Int :=
  (List.zipWith (fun stride (position : Nat) => stride * ((position : Int) - 1)) strides positions).sum

def numeral (flavorCount : Nat) (positions : List Nat) : Nat := Nat.ofDigits flavorCount (positions.map (· - 1))

theorem numeral_cons (flavorCount position : Nat) (positions : List Nat) :
    numeral flavorCount (position :: positions) = position - 1 + flavorCount * numeral flavorCount positions := by
  simp [numeral, Nat.ofDigits_cons]

theorem powers_succ (flavorCount arity : Nat) :
    powers flavorCount (arity + 1) = 1 :: (powers flavorCount arity).map ((flavorCount : Int) * ·) := by
  simp only [powers, List.range_succ_eq_map, List.map_cons, List.map_map]
  congr 1
  apply List.map_congr_left
  intro index _
  simp only [Function.comp_apply, Nat.pow_eq, Nat.pow_succ]
  push_cast
  ring

theorem strided_map_mul (factor : Int) (strides : List Int) (positions : List Nat) :
    strided (strides.map (factor * ·)) positions = factor * strided strides positions := by
  induction strides generalizing positions with
  | nil => simp [strided]
  | cons stride strides ih =>
    cases positions with
    | nil => simp [strided]
    | cons position positions =>
      have rest := ih positions
      simp only [strided, List.map_cons, List.zipWith_cons_cons, List.sum_cons] at rest ⊢
      rw [rest]
      ring

theorem strided_powers {flavorCount arity : Nat} {positions : List Nat}
    (within : positions ∈ Positions flavorCount arity) :
    strided (powers flavorCount arity) positions = numeral flavorCount positions := by
  induction arity generalizing positions with
  | zero =>
    obtain rfl : positions = [] := List.eq_nil_of_length_eq_zero within.1
    rfl
  | succ arity ih =>
    obtain ⟨position, positions, rfl⟩ := List.exists_cons_of_length_eq_add_one within.1
    obtain ⟨⟨positive, _⟩, rest⟩ := cons_mem_positions.1 within
    have tail := strided_map_mul flavorCount (powers flavorCount arity) positions
    rw [ih rest] at tail
    rw [powers_succ, numeral_cons]
    simp only [strided, List.zipWith_cons_cons, List.sum_cons] at tail ⊢
    rw [tail]
    push_cast [positive]
    ring

theorem numeral_lt {flavorCount arity : Nat} {positions : List Nat}
    (within : positions ∈ Positions flavorCount arity) : numeral flavorCount positions < flavorCount ^ arity := by
  induction arity generalizing positions with
  | zero =>
    obtain rfl : positions = [] := List.eq_nil_of_length_eq_zero within.1
    exact Nat.one_pos
  | succ arity ih =>
    obtain ⟨position, positions, rfl⟩ := List.exists_cons_of_length_eq_add_one within.1
    obtain ⟨bounds, rest⟩ := cons_mem_positions.1 within
    have below : flavorCount * (numeral flavorCount positions + 1) ≤ flavorCount * flavorCount ^ arity :=
      Nat.mul_le_mul_left _ (ih rest)
    rw [Nat.mul_add] at below
    rw [numeral_cons, Nat.pow_succ, Nat.mul_comm (flavorCount ^ arity)]
    omega

theorem numeral_injOn (flavorCount arity : Nat) :
    Set.InjOn (numeral flavorCount) (Positions flavorCount arity) := by
  induction arity with
  | zero =>
    intro left inLeft right inRight _
    rw [List.eq_nil_of_length_eq_zero inLeft.1, List.eq_nil_of_length_eq_zero inRight.1]
  | succ arity ih =>
    intro left inLeft right inRight same
    obtain ⟨first, lefts, rfl⟩ := List.exists_cons_of_length_eq_add_one inLeft.1
    obtain ⟨second, rights, rfl⟩ := List.exists_cons_of_length_eq_add_one inRight.1
    obtain ⟨bounds, inLefts⟩ := cons_mem_positions.1 inLeft
    obtain ⟨others, inRights⟩ := cons_mem_positions.1 inRight
    rw [numeral_cons, numeral_cons] at same
    -- the last digit is the remainder by the number of flavors, the other digits the quotient
    have digits := congrArg (· % flavorCount) same
    have quotients := congrArg (· / flavorCount) same
    simp only [Nat.add_mul_mod_self_left, Nat.mod_eq_of_lt (show first - 1 < flavorCount by omega),
      Nat.mod_eq_of_lt (show second - 1 < flavorCount by omega)] at digits
    simp only [Nat.add_mul_div_left _ _ (show 0 < flavorCount by omega),
      Nat.div_eq_of_lt (show first - 1 < flavorCount by omega),
      Nat.div_eq_of_lt (show second - 1 < flavorCount by omega), Nat.zero_add] at quotients
    rw [ih inLefts inRights quotients, show first = second by omega]

theorem exists_numeral_eq {flavorCount arity index : Nat} (bound : index < flavorCount ^ arity) :
    ∃ positions ∈ Positions flavorCount arity, numeral flavorCount positions = index := by
  induction arity generalizing index with
  | zero =>
    obtain rfl : index = 0 := Nat.lt_one_iff.1 bound
    exact ⟨[], nil_mem_positions flavorCount, rfl⟩
  | succ arity ih =>
    have positive : 0 < flavorCount := by
      rcases Nat.eq_zero_or_pos flavorCount with rfl | positive
      · simp at bound
      · exact positive
    have quotient : index / flavorCount < flavorCount ^ arity := by
      rw [Nat.div_lt_iff_lt_mul positive, ← Nat.pow_succ]
      exact bound
    rcases ih quotient with ⟨positions, within, same⟩
    have digit := Nat.mod_lt index positive
    refine ⟨(index % flavorCount + 1) :: positions, cons_mem_positions.2 ⟨by omega, within⟩, ?_⟩
    rw [numeral_cons, same, Nat.add_sub_cancel]
    exact Nat.mod_add_div index flavorCount

theorem assignment_numeral {flavors : List Value} {arity : Nat} {positions : List Nat}
    (within : positions ∈ Positions flavors.length arity) :
    assignment flavors arity (numeral flavors.length positions) = positions.map (ofPosition flavors) := by
  induction arity generalizing positions with
  | zero =>
    obtain rfl : positions = [] := List.eq_nil_of_length_eq_zero within.1
    rfl
  | succ arity ih =>
    obtain ⟨position, positions, rfl⟩ := List.exists_cons_of_length_eq_add_one within.1
    obtain ⟨bounds, rest⟩ := cons_mem_positions.1 within
    have digit : position - 1 < flavors.length := by omega
    rw [numeral_cons, assignment, Nat.add_mul_mod_self_left, Nat.mod_eq_of_lt digit,
      Nat.add_mul_div_left _ _ (by omega), Nat.div_eq_of_lt digit, Nat.zero_add, ih rest]
    rfl

/-- The address map takes the lists of positions one to one onto the indices of the table. -/
theorem strided_bijOn (flavorCount arity : Nat) :
    Set.BijOn (strided (powers flavorCount arity)) (Positions flavorCount arity)
      (Set.Ico 0 ((flavorCount : Int) ^ arity)) := by
  refine ⟨?_, ?_, ?_⟩
  · intro positions within
    have below := numeral_lt within
    rw [strided_powers within]
    exact ⟨by omega, by exact_mod_cast below⟩
  · intro left inLeft right inRight same
    rw [strided_powers inLeft, strided_powers inRight] at same
    exact numeral_injOn flavorCount arity inLeft inRight (by exact_mod_cast same)
  · intro index bounds
    obtain ⟨place, rfl⟩ := Int.eq_ofNat_of_zero_le bounds.1
    obtain ⟨positions, within, same⟩ := exists_numeral_eq (by exact_mod_cast bounds.2 : place < flavorCount ^ arity)
    exact ⟨positions, within, by rw [strided_powers within, same]⟩

end Term

end EnergyTables
