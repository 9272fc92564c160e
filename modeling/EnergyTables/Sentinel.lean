import EnergyTables.Number.SquareRoot
import EnergyTables.Value.Conversion

namespace EnergyTables

namespace IntFormat

def sentinel (format : IntFormat) : Int := squareRoot format.greatest.toNat

theorem sentinel_nonneg (format : IntFormat) : 0 ≤ format.sentinel := Int.natCast_nonneg _

theorem sentinel_mul_self_le (format : IntFormat) : format.sentinel * format.sentinel ≤ format.greatest := by
  have square := (squareRoot_bounds format.greatest.toNat).1
  have positive : 0 ≤ format.greatest := by cases format <;> decide
  have bound := Int.ofNat_le.2 square
  rwa [Int.natCast_mul, Int.toNat_of_nonneg positive] at bound

end IntFormat

namespace Kind

/-- The energy that stands for a violated hard constraint. For words it is the root of the greatest word, for reals the
    greatest finite one; a kind that no format holds has an infinity of its own, or the infinity of floats. -/
def sentinel (kind : Kind) : Outcome Value :=
  match kind.energyKind with
  | stored (.word format) => .ok (.number (.ofWord format format.sentinel))
  | stored (.real format) => .ok (.number (.real format (.largest format)))
  | stored (.pair format) => .ok (.number (.pair format (.ofReal (.largest format))))
  | stored _ => .error .invalid
  | other =>
    match other.convert (.float (.infinite false)) with
    | .error .tooLarge | .error .invalid | .error .unsupported => .ok (.float (.infinite false))
    | outcome => outcome

end Kind

end EnergyTables
