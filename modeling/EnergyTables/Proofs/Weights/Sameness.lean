import EnergyTables.Proofs.Weights.Normalization
import EnergyTables.Proofs.Value.Rationals

namespace EnergyTables.Weights

/-- Weights that stand for the rationals listed: a unit weight whose items can be reached, or plain numbers. -/
inductive Bears : Value → List Rat → Prop
  | unit {length : Number} {count : Nat} (counted : (Value.unitWeight length).length = .ok count)
      (sign : length.hasSign = true) : Bears (.unitWeight length) (List.replicate count 1)
  | list {items : List Value} {numbers : List Rat} (each : List.Forall₂ Value.IsRational items numbers) :
      Bears (.list items) numbers
  | tuple {items : List Value} {numbers : List Rat} (each : List.Forall₂ Value.IsRational items numbers) :
      Bears (.tuple items) numbers

/-- Weights for so many items: none at all, for which a unit weight can stand, or ones that stand for rationals. -/
inductive Offered (count : Nat) : Value → Prop
  | absent (small : (count : Int) < Value.sizeLimit) : Offered count .none
  | given {weights : Value} {numbers : List Rat} (bears : Bears weights numbers) : Offered count weights

variable {weights kept left right : Value} {numbers others : List Rat} {count : Nat} {unit : String}

theorem forall₂_int (numbers : List Int) :
    List.Forall₂ Value.IsRational (numbers.map .int) (numbers.map fun (number : Int) => (number : Rat)) := by
  rw [List.forall₂_map_left_iff, List.forall₂_map_right_iff, List.forall₂_same]
  exact fun number _ => .int number

theorem Bears.length_eq_ok (bears : Bears weights numbers) : weights.length = .ok numbers.length := by
  cases bears with
  | unit counted => rw [counted, List.length_replicate]
  | list each => rw [(Value.Lists.list _).length_eq, each.length_eq]
  | tuple each => rw [(Value.Lists.tuple _).length_eq, each.length_eq]

theorem Bears.itemized (bears : Bears weights numbers) : Itemized weights := by
  cases bears with
  | unit _ sign => exact sign
  | list => trivial
  | tuple => trivial

theorem Bears.exists_items (bears : Bears weights numbers) :
    ∃ items, weights.items = .ok items ∧ List.Forall₂ Value.IsRational items numbers := by
  cases bears with
  | unit counted sign =>
    refine ⟨_, Value.items_unitWeight_of_length counted, ?_⟩
    rw [if_pos sign, List.forall₂_iff_get]
    refine ⟨by simp, fun index bound boundToo => ?_⟩
    simpa using Value.IsRational.int 1
  | list each => exact ⟨_, rfl, each⟩
  | tuple each => exact ⟨_, rfl, each⟩

theorem Bears.exists_itemAt (bears : Bears weights numbers) {index : Nat} (bound : index < numbers.length) :
    ∃ weight, weights.itemAt index = .ok weight ∧ weight.IsRational (numbers[index]) := by
  rcases bears.exists_items with ⟨items, held, each⟩
  rcases Weights.exists_items bears.itemized bears.length_eq_ok with ⟨others, heldToo, _, reads⟩
  cases held.symm.trans heldToo
  have within : index < items.length := each.length_eq ▸ bound
  exact ⟨items[index], reads index within, each.get within bound⟩

theorem Bears.exists_weightAt (bears : Bears weights numbers) : ∃ weightAt : Nat → Value, ∀ index < numbers.length,
    weights.itemAt index = .ok (weightAt index) ∧ (weightAt index).IsRational (numbers.getD index 0) := by
  refine ⟨fun index => (weights.itemAt index).toOption.getD .none, fun index bound => ?_⟩
  rcases bears.exists_itemAt bound with ⟨weight, found, isNumber⟩
  dsimp only
  rw [found, List.getD_eq_getElem _ _ bound]
  exact ⟨rfl, isNumber⟩

theorem Bears.ne_none (bears : Bears weights numbers) : weights ≠ .none := by
  rintro rfl
  cases bears

theorem Bears.of_keptForm (bears : Bears weights numbers) (formed : keptForm weights = .ok kept) :
    Bears kept numbers := by
  cases bears with
  | unit counted sign =>
    cases formed
    exact .unit counted sign
  | list each =>
    cases formed
    exact .tuple each
  | tuple each =>
    cases formed
    exact .tuple each

theorem Offered.exists_bears (offered : Offered count weights) (normalized : normalize weights count unit = .ok kept) :
    ∃ numbers, Bears kept numbers ∧ numbers.length = count := by
  cases offered with
  | absent small =>
    rw [normalize_none] at normalized
    cases normalized
    exact ⟨_, .unit (length_unitWeight small) rfl, List.length_replicate⟩
  | given bears =>
    rcases length_of_normalize bears.ne_none normalized with ⟨counted, formed⟩
    exact ⟨_, bears.of_keptForm formed, Except.ok.inj (bears.length_eq_ok.symm.trans counted)⟩

theorem allEqual_rational {items others : List Value} {numbers second : List Rat}
    (each : List.Forall₂ Value.IsRational items numbers) (eachToo : List.Forall₂ Value.IsRational others second)
    (lengths : numbers.length = second.length) :
    allEqual (items.zip others) = .ok (decide (numbers = second)) := by
  induction each generalizing others second with
  | nil =>
    cases eachToo with
    | nil => rfl
    | cons => cases lengths
  | @cons item number _ _ first _ ih =>
    cases eachToo with
    | nil => cases lengths
    | @cons otherItem otherNumber _ _ other rest =>
      rw [List.zip_cons_cons, allEqual, first.equal_eq_ok other, Outcome.ok_bind]
      by_cases same : number = otherNumber
      · rw [decide_eq_true same, if_pos rfl, ih rest (Nat.succ.inj lengths)]
        simp [same]
      · rw [decide_eq_false same, if_neg Bool.false_ne_true]
        simp [same]

/-- Weights are the same where they stand for the same rationals, in whatever form. -/
theorem Bears.same_eq_ok (bears : Bears left numbers) (bearsToo : Bears right others) :
    same left right = .ok (decide (numbers = others)) := by
  rcases bears.exists_items with ⟨items, found, each⟩
  rcases bearsToo.exists_items with ⟨otherItems, foundToo, eachToo⟩
  rw [same, bears.length_eq_ok, bearsToo.length_eq_ok, found, foundToo]
  simp only [Outcome.ok_bind]
  by_cases lengths : numbers.length = others.length
  · rw [if_neg (not_not_intro lengths)]
    exact allEqual_rational each eachToo lengths
  · have differ : numbers ≠ others := fun same => lengths (congrArg List.length same)
    rw [if_pos lengths, decide_eq_false differ]
    rfl

end EnergyTables.Weights
