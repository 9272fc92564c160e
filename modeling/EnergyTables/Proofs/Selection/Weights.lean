import EnergyTables.Proofs.Evaluation.Lookup
import EnergyTables.Proofs.Value.Integers
import EnergyTables.Weights
import Mathlib.Algebra.Order.BigOperators.Group.List

namespace EnergyTables

namespace Weights

inductive Given : Value → IntFormat → List Int → Prop
  | absent (count : Nat) : Given .none .int64 (List.replicate count 1)
  | unit (count : Nat) : Given (.unitWeight (.int count)) .int64 (List.replicate count 1)
  | list (numbers : List Int) : Given (.list (numbers.map .int)) .int64 numbers
  | tuple (numbers : List Int) : Given (.tuple (numbers.map .int)) .int64 numbers
  | array {format : IntFormat} (writeable : Bool) (words : List (Word format)) :
      Given (.array (.word format) [words.length] writeable (words.map fun word => .number (.word format word))) format
        (words.map Word.val)

inductive Kept : Value → IntFormat → List Int → Prop
  | unit (count : Nat) : Kept (.unitWeight (.int count)) .int64 (List.replicate count 1)
  | tuple (numbers : List Int) : Kept (.tuple (numbers.map .int)) .int64 numbers
  | array {format : IntFormat} (writeable : Bool) (words : List (Word format)) :
      Kept (.array (.word format) [words.length] writeable (words.map fun word => .number (.word format word))) format
        (words.map Word.val)

inductive Weighs (format : IntFormat) : Value → Int → Prop
  | int (number : Int) : Weighs format (.int number) number
  | word (word : Word format) : Weighs format (.number (.word format word)) word.val

theorem Weighs.whole_eq {format : IntFormat} {weight : Value} {number : Int} (weighs : Weighs format weight number) :
    weight.whole = number := by
  cases weighs <;> rfl

/-- Weights that stand for the plain integers listed. A unit weight has a length that an index reaches. -/
inductive Plain : Value → List Int → Prop
  | absent (count : Nat) (small : (count : Int) < Value.sizeLimit) : Plain .none (List.replicate count 1)
  | unit (count : Nat) (small : (count : Int) < Value.sizeLimit) :
      Plain (.unitWeight (.int count)) (List.replicate count 1)
  | list (numbers : List Int) : Plain (.list (numbers.map .int)) numbers
  | tuple (numbers : List Int) : Plain (.tuple (numbers.map .int)) numbers

def AreUnits (weights : Value) : Prop := weights = .none ∨ ∃ length, weights = .unitWeight length

def AreInts (kept : Value) (numbers : List Int) : Prop :=
  ∀ index < numbers.length, kept.itemAt index = .ok (.int (numbers.getD index 0))

variable {weights kept : Value} {format : IntFormat} {numbers : List Int}

theorem ofLength_int (count : Nat) : UnitWeight.ofLength (.int count) = .ok (.int count) := by
  unfold UnitWeight.ofLength
  rw [Value.less_int, decide_eq_false (Int.not_lt.2 (Int.natCast_nonneg count)), Outcome.ok_bind,
    if_neg Bool.false_ne_true]
  rfl

/-- Bringing weights to the form in which they are kept changes no number. -/
theorem Given.kept_of_normalize (given : Given weights format numbers) {unit : String}
    (normalized : normalize weights numbers.length unit = .ok kept) : Kept kept format numbers := by
  cases given with
  | absent count =>
    rw [List.length_replicate, normalize, ofLength_int] at normalized
    cases normalized
    exact .unit count
  | unit count =>
    obtain ⟨length, _, rest⟩ := Outcome.bind_eq_ok_iff.1 normalized
    dsimp only at rest
    split at rest
    · cases rest
    · cases rest
      exact .unit count
  | list numbers =>
    obtain ⟨length, _, rest⟩ := Outcome.bind_eq_ok_iff.1 normalized
    dsimp only at rest
    split at rest
    · cases rest
    · cases rest
      exact .tuple numbers
  | tuple numbers =>
    obtain ⟨length, _, rest⟩ := Outcome.bind_eq_ok_iff.1 normalized
    dsimp only at rest
    split at rest
    · cases rest
    · cases rest
      exact .tuple numbers
  | array writeable words =>
    obtain ⟨length, _, rest⟩ := Outcome.bind_eq_ok_iff.1 normalized
    dsimp only at rest
    split at rest
    · cases rest
    · cases rest
      exact .array false words

theorem numbers_int (numbers : List Int) : Weights.numbers (numbers.map .int) = .ok (numbers.map .int) := by
  refine Outcome.mapM_eq_ok_iff.2 ?_
  rw [List.forall₂_map_left_iff, List.forall₂_map_right_iff, List.forall₂_same]
  exact fun _ _ => rfl

theorem Kept.kind_eq_ok (held : Kept kept format numbers) :
    ∃ kind, Weights.kind kept = .ok kind ∧ kind.energyKind = .stored (.word format) := by
  cases held with
  | unit count => exact ⟨.int, rfl, rfl⟩
  | tuple numbers =>
    refine ⟨.int, ?_, rfl⟩
    have whole : (numbers.map Number.int).all isWhole = true := by
      rw [List.all_map, List.all_eq_true]
      exact fun _ _ => rfl
    have listed : kind.listed (.tuple (numbers.map .int)) = .ok .int := by
      rw [kind.listed, (Value.Lists.tuple _).items_eq, Outcome.ok_bind, numbers_int, Outcome.ok_bind, if_pos whole]
      rfl
    exact listed
  | array writeable words => exact ⟨.stored (.word format), rfl, rfl⟩

theorem itemAt_unitWeight {count index : Nat} (bound : index < count) :
    (Value.unitWeight (.int count)).itemAt index = .ok (.int 1) := by
  have negated : (Value.number (.int count)).neg = .ok (.int (-count)) := rfl
  have below : (Value.int index).less (.number (.int count)) = .ok true := by
    refine (Value.less_int _ _).trans ?_
    rw [decide_eq_true (by omega)]
  show Value.unitAt (.int count) (.int index) = .ok (.int 1)
  rw [Value.unitAt, negated, Outcome.ok_bind, Value.lessEqual_int, decide_eq_true (by omega), Outcome.ok_bind,
    if_pos rfl, below]
  rfl

theorem getD_replicate_one {count index : Nat} (bound : index < count) :
    (List.replicate count (1 : Int)).getD index 0 = 1 := by
  rw [List.getD_eq_getElem _ _ (by rwa [List.length_replicate]), List.getElem_replicate]

theorem itemAt_tuple_int (numbers : List Int) {index : Nat} (bound : index < numbers.length) :
    (Value.tuple (numbers.map .int)).itemAt index = .ok (.int (numbers.getD index 0)) := by
  rw [(Value.Lists.tuple _).itemAt_eq, itemAt?_natCast, List.getElem?_map, List.getElem?_eq_getElem bound,
    List.getD_eq_getElem _ _ bound]
  rfl

theorem Kept.exists_weightAt (held : Kept kept format numbers) :
    ∃ weightAt : Nat → Value, ∀ index < numbers.length,
      kept.itemAt index = .ok (weightAt index) ∧ Weighs format (weightAt index) (numbers.getD index 0) := by
  cases held with
  | unit count =>
    refine ⟨fun _ => .int 1, fun index bound => ?_⟩
    rw [List.length_replicate] at bound
    rw [getD_replicate_one bound]
    exact ⟨itemAt_unitWeight bound, .int 1⟩
  | tuple numbers =>
    exact ⟨fun index => .int (numbers.getD index 0), fun index bound => ⟨itemAt_tuple_int numbers bound, .int _⟩⟩
  | array writeable words =>
    refine ⟨fun index => .number (.word format (words.getD index default)), fun index bound => ?_⟩
    rw [List.length_map] at bound
    constructor
    · show Value.orOutOfRange (itemAt? (words.map fun word => Value.number (.word format word)) index) = _
      rw [itemAt?_natCast, List.getElem?_map, List.getElem?_eq_getElem bound]
      dsimp only
      rw [List.getD_eq_getElem _ _ bound]
      rfl
    · dsimp only
      rw [List.getD_eq_getElem _ _ bound, List.getD_eq_getElem _ _ (by rw [List.length_map]; exact bound),
        List.getElem_map]
      exact .word _

theorem length_unitWeight {count : Nat} (small : (count : Int) < Value.sizeLimit) :
    (Value.unitWeight (.int count)).length = .ok count := by
  simp only [Value.length, Value.unitLength, Number.integer?]
  rw [if_pos small, Int.toNat_natCast]

theorem items_unitWeight {count : Nat} (small : (count : Int) < Value.sizeLimit) :
    (Value.unitWeight (.int count)).items = .ok (List.replicate count (.int 1)) :=
  Value.items_unitWeight_of_length (length_unitWeight small)

theorem Plain.given (plain : Plain weights numbers) : Given weights .int64 numbers := by
  cases plain with
  | absent count => exact .absent count
  | unit count => exact .unit count
  | list numbers => exact .list numbers
  | tuple numbers => exact .tuple numbers

theorem normalize_unitWeight {count : Nat} (small : (count : Int) < Value.sizeLimit) (unit : String) :
    normalize (.unitWeight (.int count)) count unit = .ok (.unitWeight (.int count)) := by
  rw [normalize, length_unitWeight small, Outcome.ok_bind, if_neg (not_not_intro rfl)]
  rfl

theorem normalize_lists {items : List Value} (lists : weights.Lists items) (unit : String) :
    normalize weights items.length unit = .ok (.tuple items) := by
  cases lists with
  | list => simp [normalize, Value.length, Value.items]
  | tuple => simp [normalize, Value.length, Value.items]

theorem Plain.exists_kept (plain : Plain weights numbers) (unit : String) :
    ∃ kept, normalize weights numbers.length unit = .ok kept ∧ kept.items = .ok (numbers.map .int) ∧
      AreInts kept numbers := by
  have unitInts (count : Nat) : AreInts (.unitWeight (.int count)) (List.replicate count 1) := by
    intro index bound
    rw [List.length_replicate] at bound
    rw [getD_replicate_one bound, itemAt_unitWeight bound]
  cases plain with
  | absent count small =>
    refine ⟨.unitWeight (.int count), ?_, ?_, unitInts count⟩
    · rw [List.length_replicate, normalize, ofLength_int]
      rfl
    · rw [items_unitWeight small, List.map_replicate]
  | unit count small =>
    refine ⟨.unitWeight (.int count), ?_, ?_, unitInts count⟩
    · rw [List.length_replicate, normalize_unitWeight small]
    · rw [items_unitWeight small, List.map_replicate]
  | list numbers =>
    have normalized := normalize_lists (.list (numbers.map .int)) unit
    rw [List.length_map] at normalized
    exact ⟨_, normalized, rfl, fun index => itemAt_tuple_int numbers⟩
  | tuple numbers =>
    have normalized := normalize_lists (.tuple (numbers.map .int)) unit
    rw [List.length_map] at normalized
    exact ⟨_, normalized, rfl, fun index => itemAt_tuple_int numbers⟩

theorem Plain.areInts_of_normalize (plain : Plain weights numbers) {unit : String}
    (normalized : normalize weights numbers.length unit = .ok kept) : AreInts kept numbers := by
  rcases plain.exists_kept unit with ⟨other, found, _, areInts⟩
  cases found.symm.trans normalized
  exact areInts

theorem Plain.of_areUnits (plain : Plain weights numbers) (units : AreUnits weights) :
    numbers = List.replicate numbers.length 1 ∧ (numbers.length : Int) < Value.sizeLimit := by
  cases plain with
  | absent count small => simpa using small
  | unit count small => simpa using small
  | list numbers => rcases units with none | ⟨length, unit⟩ <;> contradiction
  | tuple numbers => rcases units with none | ⟨length, unit⟩ <;> contradiction

theorem Plain.small_of_areUnits (plain : Plain weights numbers) (units : AreUnits weights) :
    (∀ number ∈ numbers, 0 < number) ∧ numbers.sum < 2 ^ 63 := by
  rcases plain.of_areUnits units with ⟨ones, small⟩
  have limit : Value.sizeLimit = 2 ^ 63 := by decide
  rw [limit] at small
  rw [ones]
  constructor
  · intro number member
    rw [List.eq_of_mem_replicate member]
    exact Int.one_pos
  · rw [List.sum_replicate, nsmul_eq_mul, mul_one]
    exact small

def marked (numbers : List Int) (marks : List Bool) : Int :=
  (List.zipWith (fun number mark => if mark then number else 0) numbers marks).sum

theorem marked_cons (number : Int) (numbers : List Int) (mark : Bool) (marks : List Bool) :
    marked (number :: numbers) (mark :: marks) = (if mark then number else 0) + marked numbers marks := by
  rw [marked, List.zipWith_cons_cons, List.sum_cons, marked]

theorem marked_map {α : Type} (mark : α → Bool) (items : List α) (numbers : List Int) :
    marked numbers (items.map mark) =
      ((items.zip numbers).map fun entry => if mark entry.1 then entry.2 else 0).sum := by
  induction items generalizing numbers with
  | nil => simp [marked]
  | cons item items ih =>
    cases numbers with
    | nil => simp [marked]
    | cons number numbers => rw [List.map_cons, marked_cons, List.zip_cons_cons, List.map_cons, List.sum_cons, ih]

theorem marked_bounds_of_nonneg (nonneg : ∀ number ∈ numbers, 0 ≤ number) (marks : List Bool) :
    0 ≤ marked numbers marks ∧ marked numbers marks ≤ numbers.sum := by
  induction numbers generalizing marks with
  | nil => simp [marked]
  | cons number numbers ih =>
    rcases List.forall_mem_cons.1 nonneg with ⟨first, rest⟩
    cases marks with
    | nil =>
      have sum : 0 ≤ numbers.sum := List.sum_nonneg rest
      simp only [marked, List.zipWith_nil_right, List.sum_nil, List.sum_cons]
      omega
    | cons mark marks =>
      have bounds := ih rest marks
      rw [marked_cons, List.sum_cons]
      by_cases set : mark = true
      · rw [if_pos set]
        omega
      · rw [if_neg set]
        omega

theorem marked_bounds (positive : ∀ number ∈ numbers, 0 < number) (marks : List Bool) :
    0 ≤ marked numbers marks ∧ marked numbers marks ≤ numbers.sum :=
  marked_bounds_of_nonneg (fun number member => (positive number member).le) marks

theorem val_wrap_marked (positive : ∀ number ∈ numbers, 0 < number) (small : numbers.sum < 2 ^ 63)
    (marks : List Bool) : (Word.wrap .int64 (marked numbers marks)).val = marked numbers marks := by
  have bounds := marked_bounds positive marks
  have greatest : IntFormat.int64.greatest = 2 ^ 63 - 1 := by decide
  apply Word.val_wrap_of_holds
  apply IntFormat.holds_of_abs_le rfl
  rw [abs_of_nonneg bounds.1]
  omega

/-- Positive weights add up to nothing only where none is marked. -/
theorem marked_eq_zero_iff (positive : ∀ number ∈ numbers, 0 < number) {marks : List Bool}
    (lengths : numbers.length = marks.length) : marked numbers marks = 0 ↔ ∀ mark ∈ marks, mark = false := by
  induction numbers generalizing marks with
  | nil =>
    cases marks with
    | nil => simp [marked]
    | cons mark marks => cases lengths
  | cons number numbers ih =>
    rcases List.forall_mem_cons.1 positive with ⟨first, rest⟩
    cases marks with
    | nil => cases lengths
    | cons mark marks =>
      have bounds := marked_bounds rest marks
      rw [marked_cons, List.forall_mem_cons, ← ih rest (Nat.succ.inj lengths)]
      by_cases set : mark = true
      · simp only [set, if_true, Bool.true_eq_false, false_and, iff_false]
        omega
      · simp [set]

theorem marked_replicate (marks : List Bool) :
    marked (List.replicate marks.length 1) marks = marks.count true := by
  induction marks with
  | nil => rfl
  | cons mark marks ih =>
    rw [List.length_cons, List.replicate_succ, marked_cons, ih, List.count_cons]
    cases mark with
    | true => simp [add_comm]
    | false => simp

end Weights

end EnergyTables
