import EnergyTables.Proofs.Value.Integers

namespace EnergyTables.Value

inductive IsRational : Value → Rat → Prop
  | int (number : Int) : IsRational (.int number) number
  | fraction (number : Rat) : IsRational (.fraction number) number

theorem isRational_zero : (int 0).IsRational 0 := by exact_mod_cast IsRational.int 0

def ratio : Value → Rat
  | number (.int whole) => whole
  | number (.fraction rational) => rational
  | _ => 0

namespace IsRational

variable {left right value : Value} {first second number : Rat}

theorem ratio_eq (isNumber : value.IsRational number) : value.ratio = number := by
  cases isNumber <;> rfl

theorem of_forall₂ {items : List Value} {numbers : List Rat} (each : List.Forall₂ IsRational items numbers) :
    numbers = items.map ratio ∧ ∀ item ∈ items, item.IsRational item.ratio := by
  induction each with
  | nil => simp
  | cons first _ ih =>
    rw [List.map_cons, first.ratio_eq, ← ih.1, List.forall_mem_cons, first.ratio_eq]
    exact ⟨rfl, first, ih.2⟩

theorem equal_eq_ok (isFirst : left.IsRational first) (isSecond : right.IsRational second) :
    left.equal right = .ok (decide (first = second)) := by
  have fractions := Number.comparable_fraction.equal first second
  cases isFirst with
  | int =>
    cases isSecond with
    | int => exact fractions
    | fraction => exact fractions
  | fraction =>
    cases isSecond with
    | int => exact fractions
    | fraction => exact fractions

theorem exists_add (isFirst : left.IsRational first) (isSecond : right.IsRational second) :
    ∃ total, left.add right = .ok total ∧ total.IsRational (first + second) := by
  cases isFirst with
  | int whole =>
    cases isSecond with
    | int other => exact ⟨.int (whole + other), rfl, by exact_mod_cast IsRational.int (whole + other)⟩
    | fraction => exact ⟨_, rfl, .fraction _⟩
  | fraction =>
    cases isSecond with
    | int => exact ⟨_, rfl, .fraction _⟩
    | fraction => exact ⟨_, rfl, .fraction _⟩

theorem exists_mul (isFirst : left.IsRational first) (isSecond : right.IsRational second) :
    ∃ product, left.mul right = .ok product ∧ product.IsRational (first * second) := by
  cases isFirst with
  | int whole =>
    cases isSecond with
    | int other => exact ⟨.int (whole * other), rfl, by exact_mod_cast IsRational.int (whole * other)⟩
    | fraction => exact ⟨_, rfl, .fraction _⟩
  | fraction =>
    cases isSecond with
    | int => exact ⟨_, rfl, .fraction _⟩
    | fraction => exact ⟨_, rfl, .fraction _⟩

theorem exists_neg (isNumber : value.IsRational number) :
    ∃ opposite, value.neg = .ok opposite ∧ opposite.IsRational (-number) := by
  cases isNumber with
  | int whole => exact ⟨.int (-whole), rfl, by exact_mod_cast IsRational.int (-whole)⟩
  | fraction => exact ⟨_, rfl, .fraction _⟩

theorem exists_sum {α : Type} {step : α → Outcome Value} {amount : α → Rat} {items : List α}
    (found : ∀ item ∈ items, ∃ value, step item = .ok value ∧ value.IsRational (amount item))
    (isNumber : value.IsRational number) :
    ∃ total, items.foldlM (fun (total : Value) item => do total.add (← step item)) value = .ok total ∧
      total.IsRational (number + (items.map amount).sum) := by
  induction items generalizing value number with
  | nil => exact ⟨value, rfl, by simpa using isNumber⟩
  | cons item items ih =>
    rcases List.forall_mem_cons.1 found with ⟨⟨term, priced, isTerm⟩, rest⟩
    rcases isNumber.exists_add isTerm with ⟨next, added, isNext⟩
    rcases ih rest isNext with ⟨total, summed, isTotal⟩
    refine ⟨total, ?_, ?_⟩
    · rw [List.foldlM_cons, priced, Outcome.ok_bind, added, Outcome.ok_bind, summed]
    · rwa [List.map_cons, List.sum_cons, ← add_assoc]

end IsRational

end EnergyTables.Value
