

namespace EnergyTables

/-- The root of a number below four to the `digits`; two binary digits of the number give one of the root. -/
def squareRootOfDigits : (digits : Nat) → Nat → Nat
  | 0, _ => 0
  | digits + 1, value =>
    let root := 2 * squareRootOfDigits digits (value / 4)
    if (root + 1) * (root + 1) ≤ value then root + 1 else root

def squareRoot (value : Nat) : Nat := squareRootOfDigits (value.log2 / 2 + 1) value

theorem squareRootOfDigits_bounds (digits value : Nat) (bound : value < Nat.pow 4 digits) :
    squareRootOfDigits digits value * squareRootOfDigits digits value ≤ value ∧
      value < (squareRootOfDigits digits value + 1) * (squareRootOfDigits digits value + 1) := by
  induction digits generalizing value with
  | zero =>
    obtain rfl : value = 0 := Nat.lt_one_iff.1 bound
    decide
  | succ digits ih =>
    have bound : value < Nat.pow 4 digits * 4 := bound
    obtain ⟨lower, upper⟩ := ih (value / 4) (by omega)
    rw [squareRootOfDigits]
    generalize squareRootOfDigits digits (value / 4) = root at lower upper
    have expand : (2 * root + 1 + 1) * (2 * root + 1 + 1) = 4 * ((root + 1) * (root + 1)) := by grind
    have square : 2 * root * (2 * root) = 4 * (root * root) := by grind
    split
    · omega
    · omega

theorem squareRoot_bounds (value : Nat) :
    squareRoot value * squareRoot value ≤ value ∧ value < (squareRoot value + 1) * (squareRoot value + 1) := by
  apply squareRootOfDigits_bounds
  calc value < 2 ^ (value.log2 + 1) := Nat.lt_log2_self
    _ ≤ 2 ^ (2 * (value.log2 / 2 + 1)) := Nat.pow_le_pow_right (by decide) (by omega)
    _ = 4 ^ (value.log2 / 2 + 1) := by rw [Nat.pow_mul]

end EnergyTables
