import EnergyTables.Family.Qubo
import EnergyTables.Proofs.Value.Energies
import Mathlib.Algebra.Order.Ring.Int
import Mathlib.Data.Rat.Cast.Order
import Mathlib.Tactic.Ring

namespace EnergyTables

namespace BinaryFormat

theorem unity_pos (format : BinaryFormat) : 0 < format.unity := by
  rw [unity, Nat.one_shiftLeft]
  exact Nat.two_pow_pos _

theorem lastPlace_dvd (format : BinaryFormat) {number : Nat} (small : number ≤ 2 ^ format.precision) (zeros : Nat) :
    format.lastPlace (number * 2 ^ zeros) ∣ number * 2 ^ zeros := by
  rw [lastPlace, Nat.one_shiftLeft]
  rcases Nat.eq_zero_or_pos number with rfl | positive
  · rw [Nat.zero_mul]
    exact Nat.dvd_zero _
  rcases Nat.lt_or_eq_of_le small with below | rfl
  · have digits : (number * 2 ^ zeros).log2 < format.precision + zeros := by
      have nonzero : number * 2 ^ zeros ≠ 0 := (Nat.mul_pos positive (Nat.two_pow_pos zeros)).ne'
      rw [Nat.log2_lt nonzero, Nat.pow_add]
      exact Nat.mul_lt_mul_of_pos_right below (Nat.two_pow_pos zeros)
    have few : (number * 2 ^ zeros).log2 + 1 - format.precision ≤ zeros := by omega
    exact Nat.dvd_mul_left_of_dvd (Nat.pow_dvd_pow 2 few) number
  · rw [← Nat.pow_add, Nat.log2_two_pow]
    exact Nat.pow_dvd_pow 2 (by cases format <;> simp only [precision] <;> omega)

theorem representable_mul_unity {number : Nat} (small : number ≤ 2 ^ 53) :
    double.Representable (number * double.unity) := by
  have unity : double.unity = 2 ^ double.scale := by rw [BinaryFormat.unity, Nat.one_shiftLeft]
  constructor
  · rw [unity]
    exact Nat.mod_eq_zero_of_dvd (double.lastPlace_dvd small _)
  · have most : 2 ^ 53 * double.unity ≤ double.greatest := by decide +kernel
    exact (Nat.mul_le_mul_right _ small).trans most

end BinaryFormat

namespace Binary

variable {format : BinaryFormat}

def IsWhole (value : Binary format) (number : Int) : Prop := value.toRat? = some (number : Rat)

theorem isWhole_finite_iff {negative : Bool} {units : Nat} {representable : format.Representable units} {number : Int} :
    (finite negative units representable).IsWhole number ↔ signedUnits negative units = number * format.unity := by
  have unity : (format.unity : Int) ≠ 0 := Int.natCast_ne_zero.2 format.unity_pos.ne'
  have unityRat : (format.unity : Rat) ≠ 0 := Nat.cast_ne_zero.2 format.unity_pos.ne'
  rw [IsWhole, toRat?, Option.some_inj, Rat.mkRat_eq_div, div_eq_iff unityRat]
  norm_cast

theorem IsWhole.exists_finite {value : Binary format} {number : Int} (whole : value.IsWhole number) :
    ∃ negative units representable, value = finite negative units representable ∧
      signedUnits negative units = number * format.unity ∧ units = number.natAbs * format.unity := by
  cases value with
  | nan => cases whole
  | infinite => cases whole
  | finite negative units representable =>
    have signed := isWhole_finite_iff.1 whole
    refine ⟨negative, units, representable, rfl, signed, ?_⟩
    have magnitude := congrArg Int.natAbs signed
    rw [Int.natAbs_mul, Int.natAbs_natCast] at magnitude
    rw [← magnitude]
    cases negative <;> simp [signedUnits]

theorem signedUnits_mul (negative : Bool) (units factor : Nat) :
    signedUnits negative (units * factor) = signedUnits negative units * factor := by
  cases negative <;> simp [signedUnits]

theorem signedUnits_xor (left right : Bool) (leftUnits rightUnits : Nat) :
    signedUnits (left ^^ right) (leftUnits * rightUnits) = signedUnits left leftUnits * signedUnits right rightUnits := by
  cases left <;> cases right <;> simp [signedUnits]

theorem signedUnits_natAbs (number : Int) : signedUnits (decide (number < 0)) number.natAbs = number := by
  unfold signedUnits
  by_cases negative : number < 0
  · rw [decide_eq_true negative, if_pos rfl]
    omega
  · rw [decide_eq_false negative, if_neg Bool.false_ne_true]
    omega

theorem roundUnits_mul {units denominator : Nat} (representable : format.Representable units)
    (positive : 0 < denominator) : roundUnits format (denominator * units) denominator = units := by
  have whole : units / format.lastPlace units * format.lastPlace units = units :=
    Nat.div_mul_cancel (Nat.dvd_of_mod_eq_zero representable.1)
  have exact : denominator * units = units / format.lastPlace units * (denominator * format.lastPlace units) := by
    rw [Nat.mul_left_comm, whole]
  have rounded := roundHalfEven_mul_self (units / format.lastPlace units) _
    (Nat.mul_pos positive (format.lastPlace_pos units))
  rw [← exact] at rounded
  have quotient : denominator * units / denominator = units := Nat.mul_div_cancel_left units positive
  simp only [roundUnits, quotient, rounded, whole]

theorem natAbs_le {number : Int} (small : |number| ≤ 2 ^ 53) : number.natAbs ≤ 2 ^ 53 := by
  rw [Int.abs_eq_natAbs] at small
  exact_mod_cast small

theorem isWhole_ofUnits {negative : Bool} {number : Int} (small : |number| ≤ 2 ^ 53)
    (signed : signedUnits negative number.natAbs = number) :
    (ofUnits .double negative (number.natAbs * BinaryFormat.double.unity)).IsWhole number := by
  rw [ofUnits_of_representable negative (BinaryFormat.representable_mul_unity (natAbs_le small)), isWhole_finite_iff,
    signedUnits_mul, signed]

theorem isWhole_ofRatio {negative : Bool} {number : Int} {denominator : Nat} (small : |number| ≤ 2 ^ 53)
    (signed : signedUnits negative number.natAbs = number) (positive : 0 < denominator) :
    (ofRatio .double negative (number.natAbs * denominator) denominator).IsWhole number := by
  have representable := BinaryFormat.representable_mul_unity (natAbs_le small)
  have exact : number.natAbs * denominator * BinaryFormat.double.unity =
      denominator * (number.natAbs * BinaryFormat.double.unity) := by ring
  rw [ofRatio, exact, roundUnits_mul representable positive]
  exact isWhole_ofUnits small signed

theorem isWhole_ofInt {number : Int} (small : |number| ≤ 2 ^ 53) : (ofInt .double number).IsWhole number := by
  have whole := @isWhole_ofRatio _ _ 1 small (signedUnits_natAbs number) Nat.one_pos
  rwa [Nat.mul_one] at whole

theorem isWhole_zero (negative : Bool) : (ofUnits .double negative 0).IsWhole 0 := by
  have none := @isWhole_ofUnits negative 0 (by decide) (by cases negative <;> rfl)
  rwa [Int.natAbs_zero, Nat.zero_mul] at none

theorem signedUnits_natAbs_of_mul {negative : Bool} {units : Nat} {number : Int}
    (signed : signedUnits negative units = number * format.unity) (magnitude : units = number.natAbs * format.unity) :
    signedUnits negative number.natAbs = number := by
  have unity : (format.unity : Int) ≠ 0 := Int.natCast_ne_zero.2 format.unity_pos.ne'
  rw [magnitude, signedUnits_mul] at signed
  exact Int.eq_of_mul_eq_mul_right unity signed

theorem IsWhole.convert {value : Binary format} {number : Int} (whole : value.IsWhole number)
    (small : |number| ≤ 2 ^ 53) : (value.convert .double).IsWhole number := by
  by_cases same : format = .double
  · subst same
    rwa [convert_self]
  · obtain ⟨negative, units, representable, rfl, signed, rfl⟩ := whole.exists_finite
    simp only [Binary.convert, dif_neg same]
    exact isWhole_ofRatio small (signedUnits_natAbs_of_mul signed rfl) format.unity_pos

theorem IsWhole.add {left right : Binary .double} {first second : Int} (leftWhole : left.IsWhole first)
    (rightWhole : right.IsWhole second) (small : |first + second| ≤ 2 ^ 53) :
    (left.add right).IsWhole (first + second) := by
  obtain ⟨leftNegative, leftUnits, _, rfl, leftSigned, _⟩ := leftWhole.exists_finite
  obtain ⟨rightNegative, rightUnits, _, rfl, rightSigned, _⟩ := rightWhole.exists_finite
  have count : signedUnits leftNegative leftUnits + signedUnits rightNegative rightUnits =
      (first + second) * BinaryFormat.double.unity := by rw [leftSigned, rightSigned, Int.add_mul]
  have positive : (0 : Int) < BinaryFormat.double.unity := Int.natCast_pos.2 (BinaryFormat.unity_pos _)
  simp only [Binary.add, ofSignedUnits, count]
  by_cases none : (first + second) * BinaryFormat.double.unity = 0
  · rw [if_pos none, (Int.mul_eq_zero.1 none).resolve_right positive.ne']
    exact isWhole_zero _
  · have representable := BinaryFormat.representable_mul_unity (natAbs_le small)
    have sign : (first + second) * (BinaryFormat.double.unity : Int) < 0 ↔ first + second < 0 :=
      ⟨fun negative => neg_of_mul_neg_left negative positive.le, fun negative => mul_neg_of_neg_of_pos negative positive⟩
    rw [if_neg none, Int.natAbs_mul, Int.natAbs_natCast, roundUnits_of_representable representable,
      decide_eq_decide.2 sign]
    exact isWhole_ofUnits small (signedUnits_natAbs _)

theorem IsWhole.mul {left right : Binary .double} {first second : Int} (leftWhole : left.IsWhole first)
    (rightWhole : right.IsWhole second) (small : |first * second| ≤ 2 ^ 53) :
    (left.mul right).IsWhole (first * second) := by
  obtain ⟨leftNegative, leftUnits, _, rfl, leftSigned, rfl⟩ := leftWhole.exists_finite
  obtain ⟨rightNegative, rightUnits, _, rfl, rightSigned, rfl⟩ := rightWhole.exists_finite
  have representable := BinaryFormat.representable_mul_unity (natAbs_le small)
  have units : first.natAbs * BinaryFormat.double.unity * (second.natAbs * BinaryFormat.double.unity) =
      BinaryFormat.double.unity * ((first * second).natAbs * BinaryFormat.double.unity) := by
    rw [Int.natAbs_mul]
    ring
  have signed : signedUnits (leftNegative ^^ rightNegative) (first * second).natAbs = first * second := by
    rw [Int.natAbs_mul, signedUnits_xor, signedUnits_natAbs_of_mul leftSigned rfl, signedUnits_natAbs_of_mul rightSigned rfl]
  simp only [Binary.mul]
  rw [units, roundUnits_mul representable (BinaryFormat.unity_pos _)]
  exact isWhole_ofUnits small signed

theorem IsWhole.isFinite {value : Binary format} {number : Int} (whole : value.IsWhole number) :
    value.isFinite = true := by
  obtain ⟨_, _, _, rfl, _⟩ := whole.exists_finite
  rfl

end Binary

theorem Matrix.isZero_iff {value : Binary .double} {number : Int} (whole : value.IsWhole number) :
    isZero value = true ↔ number = 0 := by
  obtain ⟨negative, units, _, rfl, signed, _⟩ := whole.exists_finite
  have positive : (BinaryFormat.double.unity : Int) ≠ 0 := Int.natCast_ne_zero.2 (BinaryFormat.unity_pos _).ne'
  have compares : isZero (.finite negative units ‹_›) = (compare (Binary.signedUnits negative units) 0 == .eq) := rfl
  rw [compares, beq_iff_eq, compare_eq_iff_eq, signed, Int.mul_eq_zero, or_iff_left positive]

namespace Number

/-- The forms that an integer can take in a matrix or among coefficients. -/
inductive IsWhole : Number → Int → Prop
  | integer {number : Number} {value : Int} (found : number.integer? = some value) : IsWhole number value
  | float {real : Binary .double} {value : Int} (whole : real.IsWhole value) : IsWhole (.float real) value
  | real {format : BinaryFormat} {real : Binary format} {value : Int} (whole : real.IsWhole value) :
      IsWhole (.real format real) value

variable {number : Number} {value : Int}

theorem finiteReal_ofInt (small : |value| ≤ 2 ^ 53) :
    finiteReal (.ofInt .double value) = .ok (.ofInt .double value) := if_pos (Binary.isWhole_ofInt small).isFinite

theorem add_real (cell : Binary .double) {real : Binary .double}
    (meets : meeting (.real .double cell) number = .real .double) (found : number.inReal .double = .ok real) :
    (Matrix.real cell).add (.number number) = .ok (Matrix.real (cell.add real)) := by
  have stored : combine .add (.real .double cell) number = combineStored .add (.real .double cell) number := by
    simp only [combine, storage?, kind, Option.isSome_some, true_or, if_true]
  have own : inReal .double (.real .double cell) = .ok cell := by
    simp only [inReal, Binary.convert_self]
  rw [Matrix.real, Value.add_number, stored, combineStored, meets]
  dsimp only
  rw [own, Outcome.ok_bind, found]
  rfl

/-- A small integer in whatever form is stored as a real of the same value, and that real is what it adds to others. -/
theorem IsWhole.exists_real (whole : number.IsWhole value) (small : |value| ≤ 2 ^ 53) :
    ∃ real : Binary .double, real.IsWhole value ∧
      Value.store (.real .double) (.number number) = .ok (.number (.real .double real)) ∧
      ∀ cell : Binary .double, (Matrix.real cell).add (.number number) = .ok (Matrix.real (cell.add real)) := by
  cases whole with
  | @float real _ whole => exact ⟨real, whole, rfl, fun cell => add_real cell rfl rfl⟩
  | @real format real _ whole =>
    exact ⟨real.convert .double, whole.convert small, rfl, fun cell => add_real cell rfl rfl⟩
  | integer found =>
    refine ⟨.ofInt .double value, Binary.isWhole_ofInt small, ?_⟩
    cases number with
    | bool value =>
      cases found
      constructor
      · simp only [Value.store, storage?, kind, Option.isSome_none, Bool.false_eq_true, if_false, Value.store.plain,
          Value.toFloat, toFloat, floatPart, Outcome.ok_bind, Outcome.pure_eq_ok, Binary.convert_self]
      · intro cell
        exact add_real cell rfl rfl
    | flag | word =>
      cases found
      constructor
      · simp only [Value.store, storage?, kind, Option.isSome_some, if_true, cast, integer?, Option.getD_some]
      · intro cell
        exact add_real cell rfl rfl
    | int =>
      cases found
      constructor
      · simp only [Value.store, storage?, kind, Option.isSome_none, Bool.false_eq_true, if_false, Value.store.plain,
          Value.toFloat, toFloat, floatPart, finiteReal_ofInt small, Outcome.ok_bind, Outcome.pure_eq_ok, Binary.convert_self]
      · intro cell
        apply add_real cell rfl
        simp only [inReal, finiteReal_ofInt small, Outcome.ok_bind, Outcome.pure_eq_ok, Binary.convert_self]
    | _ => cases found

end Number

end EnergyTables
