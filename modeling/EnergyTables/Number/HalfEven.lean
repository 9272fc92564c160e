

namespace EnergyTables

/-- Nearest natural to `numerator / denominator`; halfway between two naturals, the even one. -/
def roundHalfEven (numerator denominator : Nat) : Nat :=
  let quotient := numerator / denominator
  let twice := 2 * (numerator % denominator)
  if twice < denominator then quotient
  else if denominator < twice then quotient + 1
  else quotient + quotient % 2

theorem roundHalfEven_mul_self (quotient denominator : Nat) (positive : 0 < denominator) :
    roundHalfEven (quotient * denominator) denominator = quotient := by
  simp [roundHalfEven, Nat.mul_div_cancel _ positive, positive]

theorem roundHalfEven_one (numerator : Nat) : roundHalfEven numerator 1 = numerator := by
  simp [roundHalfEven, Nat.mod_one]

theorem two_mul_roundHalfEven_le (numerator denominator : Nat) (positive : 0 < denominator) :
    2 * (roundHalfEven numerator denominator * denominator) ≤ 2 * numerator + denominator := by
  have division := Nat.div_add_mod numerator denominator
  have remainder := Nat.mod_lt numerator positive
  have parity : numerator / denominator % 2 ≤ 1 := by omega
  have product : numerator / denominator * denominator = denominator * (numerator / denominator) :=
    Nat.mul_comm _ _
  unfold roundHalfEven
  dsimp only
  split
  · omega
  · split
    · rw [Nat.add_mul]; omega
    · rw [Nat.add_mul]
      have : numerator / denominator % 2 * denominator ≤ denominator := by
        calc _ ≤ 1 * denominator := Nat.mul_le_mul_right _ parity
          _ = denominator := Nat.one_mul _
      omega

end EnergyTables
