import EnergyTables.Proofs.Outcome
import EnergyTables.Value.Order
import Mathlib.Algebra.Order.Ring.Cast
import Mathlib.Algebra.Order.Ring.Rat
import Mathlib.Order.WithBot

namespace EnergyTables

namespace Relation

def between {α : Type} [LinearOrder α] : Relation → α → α → Bool
  | equal, left, right => left = right
  | less, left, right => left < right
  | lessEqual, left, right => left ≤ right

theorem onExact_rational (relation : Relation) (left right : Rat) :
    relation.onExact (.rational left) (.rational right) = relation.between left right := by
  cases relation with
  | equal => simp [onExact, between, Exact.equal]
  | less => simp [onExact, between, Exact.less, Exact.ratLess, Rat.lt_iff]
  | lessEqual =>
    simp only [onExact, between, Exact.less, Exact.equal, Exact.ratLess, ← Rat.lt_iff, Exact.rational.injEq,
      le_iff_lt_or_eq, Bool.decide_or]

theorem between_intCast (relation : Relation) (left right : Int) :
    relation.between (left : Rat) (right : Rat) = relation.between left right := by
  cases relation <;> simp [between]

end Relation

instance (format : IntFormat) : LinearOrder (Word format) := LinearOrder.lift' Word.val fun _ _ => Word.ext

theorem Word.le_iff {format : IntFormat} {left right : Word format} : left ≤ right ↔ left.val ≤ right.val := Iff.rfl

theorem Word.lt_iff {format : IntFormat} {left right : Word format} : left < right ↔ left.val < right.val := Iff.rfl

namespace Number

/-- Numbers given by the elements of a linear order that compare as these do. -/
def Comparable {α : Type} [LinearOrder α] (number : α → Number) : Prop :=
  ∀ relation left right, (number left).relate relation (number right) = .ok (relation.between left right)

theorem comparable_word (format : IntFormat) : Comparable (word format) := by
  intro relation left right
  refine (relate_word relation format left right).trans (congrArg Except.ok ?_)
  cases relation with
  | equal => exact decide_eq_decide.2 Word.ext_iff.symm
  | less => rfl
  | lessEqual => rfl

theorem comparable_fraction : Comparable fraction := by
  intro relation left right
  rw [← Relation.onExact_rational]
  cases relation with
  | equal => simp [relate, storage?, kind, relatePlain, isSignaling, sameValue, exactRe, exactIm, Exact.ofInt,
      Relation.onExact, Exact.equal]
  | less => rfl
  | lessEqual => rfl

theorem comparable_int : Comparable int := by
  intro relation left right
  rw [← Relation.between_intCast, ← comparable_fraction]
  cases relation <;> rfl

/-- A rational or the infinity above all of them, which only floats have. -/
def ofExtended : WithTop Rat → Number
  | ⊤ => .float (.infinite false)
  | (rational : Rat) => .fraction rational

theorem ofExtended_top : ofExtended ⊤ = .float (.infinite false) := rfl

theorem comparable_ofExtended : Comparable ofExtended := by
  intro relation left right
  cases left with
  | top => cases right with
    | top => cases relation <;> rfl
    | coe right => cases relation <;> rfl
  | coe left => cases right with
    | top => cases relation <;> rfl
    | coe right =>
      refine (comparable_fraction relation left right).trans (congrArg Except.ok ?_)
      cases relation <;> simp [Relation.between]

section Comparable

variable {α : Type} [LinearOrder α] {number : α → Number}

theorem Comparable.less (comparable : Comparable number) (left right : α) :
    (Value.number (number left)).less (.number (number right)) = .ok (decide (left < right)) :=
  comparable .less left right

theorem Comparable.lessEqual (comparable : Comparable number) (left right : α) :
    (Value.number (number left)).lessEqual (.number (number right)) = .ok (decide (left ≤ right)) :=
  comparable .lessEqual left right

theorem Comparable.equal (comparable : Comparable number) (left right : α) :
    (Value.number (number left)).equal (.number (number right)) = .ok (decide (left = right)) :=
  comparable .equal left right

end Comparable

end Number

namespace Value

def whole : Value → Int
  | number value => value.integer?.getD 0
  | _ => 0

theorem less_int (left right : Int) : (int left).less (int right) = .ok (decide (left < right)) :=
  Number.comparable_int.less left right

theorem lessEqual_int (left right : Int) : (int left).lessEqual (int right) = .ok (decide (left ≤ right)) :=
  Number.comparable_int.lessEqual left right

theorem equal_int (left right : Int) : (int left).equal (int right) = .ok (decide (left = right)) :=
  Number.comparable_int.equal left right

theorem sameKey_int (left right : Int) : (int left).sameKey (.int right) = decide (left = right) := by
  simp [int, sameKey, Number.sameValue, Number.exactRe, Number.exactIm, Exact.equal, Exact.ofInt]

theorem between_int (low value high : Int) :
    between low (int value) high = .ok (decide (low ≤ value ∧ value ≤ high)) := by
  by_cases above : low ≤ value
  · simp [between, above, lessEqual_int]
  · simp [between, above, lessEqual_int]

theorem relateApart_of_plain {relation : Relation} {left right : Value}
    (plain : (left.isStored || right.isStored) = false) :
    relateApart relation left right = relateScalars relation left right := by
  rw [relateApart, meetAsArrays, plain, Bool.and_false, if_neg Bool.false_ne_true]

theorem equalItems_cons {left right : Value} {lefts rights : List Value} :
    equalItems (left :: lefts) (right :: rights) =
      (do if ← left.equal right then equalItems lefts rights else return false) := rfl

theorem equal_tuple {lefts rights : List Value} :
    (tuple lefts).equal (tuple rights) = if lefts.length = rights.length then equalItems lefts rights else .ok false :=
  rfl

end Value

end EnergyTables
