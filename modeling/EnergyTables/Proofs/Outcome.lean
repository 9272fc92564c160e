import EnergyTables.Fault
import Mathlib.Data.List.Forall2

namespace EnergyTables.Outcome

variable {α β γ : Type}

@[simp] theorem ok_bind (value : α) (next : α → Outcome β) :
    ((.ok value : Outcome α) >>= next) = next value := rfl

@[simp] theorem error_bind (fault : Fault) (next : α → Outcome β) :
    ((.error fault : Outcome α) >>= next) = .error fault := rfl

@[simp] theorem pure_eq_ok (value : α) : (pure value : Outcome α) = .ok value := rfl

@[simp] theorem refuse_bind (fault : Fault) (next : α → Outcome β) :
    ((refuse fault : Outcome α) >>= next) = .error fault.stated := rfl

@[simp] theorem refuse_ne_ok (fault : Fault) (value : α) : (refuse fault : Outcome α) ≠ .ok value := nofun

theorem eq_ok_of_toOption {outcome : Outcome α} {result : α} (found : outcome.toOption = some result) :
    outcome = .ok result := by
  cases outcome with
  | error fault => cases found
  | ok value => exact congrArg Except.ok (Option.some.inj found)

theorem bind_eq_ok_iff {outcome : Outcome α} {next : α → Outcome β} {result : β} :
    outcome >>= next = .ok result ↔ ∃ value, outcome = .ok value ∧ next value = .ok result := by
  cases outcome with
  | error fault => simp
  | ok value => simp

theorem map_eq_ok_iff {outcome : Outcome α} {function : α → β} {result : β} :
    (do return function (← outcome)) = Except.ok (ε := Fault) result ↔
      ∃ value, outcome = .ok value ∧ function value = result := by
  cases outcome with
  | error fault => simp
  | ok value => simp

theorem mapM_eq_ok_iff {step : α → Outcome β} {items : List α} {results : List β} :
    items.mapM step = .ok results ↔ List.Forall₂ (fun item result => step item = .ok result) items results := by
  induction items generalizing results with
  | nil => simp [eq_comm]
  | cons item items ih =>
    rw [List.mapM_cons, bind_eq_ok_iff, List.forall₂_cons_left_iff]
    constructor
    · rintro ⟨result, found, rest⟩
      obtain ⟨remaining, others, rfl⟩ := map_eq_ok_iff.1 rest
      exact ⟨result, remaining, found, ih.1 others, rfl⟩
    · rintro ⟨result, remaining, found, others, rfl⟩
      exact ⟨result, found, map_eq_ok_iff.2 ⟨remaining, ih.2 others, rfl⟩⟩

theorem exists_of_forall₂_right {relation : α → β → Prop} {lefts : List α} {rights : List β}
    (related : List.Forall₂ relation lefts rights) {right : β} (member : right ∈ rights) :
    ∃ left ∈ lefts, relation left right := by
  obtain ⟨index, bound, rfl⟩ := List.mem_iff_getElem.1 member
  obtain ⟨count, each⟩ := List.forall₂_iff_get.1 related
  exact ⟨_, List.getElem_mem (count ▸ bound), each index (count ▸ bound) bound⟩

theorem forall₂_imp_of_mem {relation implied : α → β → Prop} {lefts : List α} {rights : List β}
    (related : List.Forall₂ relation lefts rights)
    (implies : ∀ left ∈ lefts, ∀ right, relation left right → implied left right) :
    List.Forall₂ implied lefts rights :=
  ((List.forall₂_and_left _ _).2 ⟨implies, related⟩).imp fun _ right both => both.1 right both.2

theorem mapM_eq_map {step : α → Outcome β} {items : List α} (value : α → β)
    (found : ∀ item ∈ items, step item = .ok (value item)) : items.mapM step = .ok (items.map value) :=
  mapM_eq_ok_iff.2 (List.forall₂_map_right_iff.2 (List.forall₂_same.2 found))

theorem exists_mapM {step : α → Outcome β} {items : List α} (found : ∀ item ∈ items, ∃ result, step item = .ok result) :
    ∃ results, items.mapM step = .ok results := by
  induction items with
  | nil => exact ⟨[], rfl⟩
  | cons item items ih =>
    obtain ⟨result, first⟩ := found item (by simp)
    obtain ⟨results, rest⟩ := ih fun other member => found other (by simp [member])
    exact ⟨result :: results, by simp only [List.mapM_cons, first, rest, ok_bind, pure_eq_ok]⟩

theorem mapM_eq_error_iff {step : α → Outcome β} {items : List α} {fault : Fault} :
    items.mapM step = .error fault ↔ ∃ before item after, items = before ++ item :: after ∧
      (∀ earlier ∈ before, ∃ result, step earlier = .ok result) ∧ step item = .error fault := by
  induction items with
  | nil => simp
  | cons item items ih =>
    rw [List.mapM_cons]
    cases first : step item with
    | error other =>
      rw [error_bind]
      constructor
      · intro same
        cases same
        exact ⟨[], item, items, rfl, by simp, first⟩
      · rintro ⟨before, failing, after, split, goes, failed⟩
        cases before with
        | nil =>
          cases split
          rw [first] at failed
          cases failed
          rfl
        | cons _ before =>
          cases split
          obtain ⟨result, found⟩ := goes item (by simp)
          cases first.symm.trans found
    | ok result =>
      have rest : (do return result :: (← items.mapM step)) = (.error fault : Outcome (List β)) ↔
          items.mapM step = .error fault := by
        cases items.mapM step <;> simp
      rw [ok_bind, rest, ih]
      constructor
      · rintro ⟨before, failing, after, split, goes, failed⟩
        refine ⟨item :: before, failing, after, by rw [split, List.cons_append], ?_, failed⟩
        exact List.forall_mem_cons.2 ⟨⟨result, first⟩, goes⟩
      · rintro ⟨before, failing, after, split, goes, failed⟩
        cases before with
        | nil =>
          cases split
          cases first.symm.trans failed
        | cons _ before =>
          cases split
          exact ⟨before, failing, after, rfl, (List.forall_mem_cons.1 goes).2, failed⟩

/-- A traversal in which some step fails has the fault of one that does. -/
theorem exists_mapM_error {step : α → Outcome β} {items : List α}
    (failing : ∃ item ∈ items, ∃ fault, step item = .error fault) :
    ∃ item ∈ items, ∃ fault, step item = .error fault ∧ items.mapM step = .error fault := by
  cases outcome : items.mapM step with
  | ok results =>
    obtain ⟨item, member, fault, failed⟩ := failing
    obtain ⟨_, _, found⟩ := exists_of_forall₂_right (mapM_eq_ok_iff.1 outcome).flip member
    cases failed.symm.trans found
  | error fault =>
    obtain ⟨before, item, after, rfl, _, failed⟩ := mapM_eq_error_iff.1 outcome
    exact ⟨item, by simp, fault, failed, rfl⟩

theorem foldlM_congr {leftStep : γ → α → Outcome γ} {rightStep : γ → β → Outcome γ} {lefts : List α} {rights : List β}
    (related : List.Forall₂ (fun left right => ∀ state, leftStep state left = rightStep state right) lefts rights)
    (state : γ) : lefts.foldlM leftStep state = rights.foldlM rightStep state := by
  induction related generalizing state with
  | nil => rfl
  | cons same _ ih =>
    rw [List.foldlM_cons, List.foldlM_cons, same state]
    congr 1
    funext next
    exact ih next

theorem exists_step_of_foldlM {step : γ → α → Outcome γ} {items : List α} {start total : γ}
    (folded : items.foldlM step start = .ok total) : ∀ item ∈ items, ∃ state next, step state item = .ok next := by
  induction items generalizing start with
  | nil => simp
  | cons item items ih =>
    rw [List.foldlM_cons, bind_eq_ok_iff] at folded
    obtain ⟨next, stepped, rest⟩ := folded
    exact List.forall_mem_cons.2 ⟨⟨start, next, stepped⟩, ih rest⟩

/-- Two outcomes are the same fault or have related results. -/
inductive Agrees (related : α → β → Prop) : Outcome α → Outcome β → Prop
  | ok {left : α} {right : β} (results : related left right) : Agrees related (.ok left) (.ok right)
  | error (fault : Fault) : Agrees related (.error fault) (.error fault)

section Agrees

variable {δ : Type} {related : α → β → Prop} {leftOutcome : Outcome α} {rightOutcome : Outcome β}

theorem agrees_rfl (outcome : Outcome α) : Agrees Eq outcome outcome := by
  cases outcome with
  | error fault => exact .error fault
  | ok value => exact .ok rfl

theorem Agrees.eq {other : Outcome α} {outcome : Outcome α} (agrees : Agrees Eq outcome other) : outcome = other := by
  cases agrees with
  | error fault => rfl
  | ok same => rw [same]

theorem Agrees.bind {results : γ → δ → Prop} {next : α → Outcome γ} {others : β → Outcome δ}
    (agrees : Agrees related leftOutcome rightOutcome)
    (continues : ∀ left right, related left right → Agrees results (next left) (others right)) :
    Agrees results (leftOutcome >>= next) (rightOutcome >>= others) := by
  cases agrees with
  | error fault => exact .error fault
  | ok results => exact continues _ _ results

theorem Agrees.bind_eq {next : α → Outcome γ} {others : β → Outcome γ}
    (agrees : Agrees related leftOutcome rightOutcome)
    (same : ∀ left right, related left right → next left = others right) :
    leftOutcome >>= next = rightOutcome >>= others := by
  cases agrees with
  | error fault => rfl
  | ok results => exact same _ _ results

theorem mapM_agrees {leftStep : γ → Outcome α} {rightStep : δ → Outcome β} {lefts : List γ} {rights : List δ}
    (steps : List.Forall₂ (fun left right => Agrees related (leftStep left) (rightStep right)) lefts rights) :
    Agrees (List.Forall₂ related) (lefts.mapM leftStep) (rights.mapM rightStep) := by
  induction steps with
  | nil => exact .ok .nil
  | cons step _ ih =>
    rw [List.mapM_cons, List.mapM_cons]
    apply step.bind
    intro _ _ first
    apply ih.bind
    intro _ _ rest
    exact .ok (.cons first rest)

theorem mapM_congr {leftStep : α → Outcome γ} {rightStep : β → Outcome γ} {lefts : List α} {rights : List β}
    (same : List.Forall₂ (fun left right => leftStep left = rightStep right) lefts rights) :
    lefts.mapM leftStep = rights.mapM rightStep := by
  have steps : List.Forall₂ (fun left right => Agrees Eq (leftStep left) (rightStep right)) lefts rights := by
    apply same.imp
    intro left right step
    rw [step]
    exact agrees_rfl _
  have agrees := mapM_agrees steps
  rw [List.forall₂_eq_eq_eq] at agrees
  exact agrees.eq

end Agrees

end EnergyTables.Outcome
