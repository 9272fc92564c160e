import EnergyTables.Proofs.Selection.Weights

namespace EnergyTables.Weights

variable {weights kept : Value} {expected : Int} {count : Nat} {unit : String}

def keptForm : Value → Outcome Value
  | .unitWeight length => .ok (.unitWeight length)
  | .array storage shape _ entries => .ok (.array storage shape false entries)
  | weights => do return .tuple (← weights.items)

theorem counted_eq_ok_iff {length : Outcome Nat} {form : Outcome Value} :
    (do
      let given ← length
      if (given : Int) ≠ count then refuse (.weightCount unit count given)
      form) = .ok kept ↔ length = .ok count ∧ form = .ok kept := by
  constructor
  · intro found
    obtain ⟨given, counted, rest⟩ := Outcome.bind_eq_ok_iff.1 found
    by_cases same : (given : Int) = count
    · rw [if_neg (not_not_intro same)] at rest
      rw [← Int.natCast_inj.1 same]
      exact ⟨counted, rest⟩
    · rw [if_pos same] at rest
      exact absurd rest (Outcome.refuse_ne_ok _ _)
  · rintro ⟨counted, formed⟩
    rw [counted, Outcome.ok_bind, if_neg (not_not_intro rfl)]
    exact formed

theorem normalize_none (count : Nat) (unit : String) :
    normalize .none count unit = .ok (.unitWeight (.int count)) := by
  rw [normalize, ofLength_int]
  rfl

theorem normalize_eq (present : weights ≠ .none) (expected : Int) (unit : String) :
    normalize weights expected unit = (do
      let given ← weights.length
      if (given : Int) ≠ expected then refuse (.weightCount unit expected given)
      keptForm weights) := by
  cases weights with
  | none => exact absurd rfl present
  | _ => rfl

theorem normalize_eq_of_length (present : weights ≠ .none) (counted : weights.length = .ok count) (unit : String) :
    normalize weights count unit = keptForm weights := by
  rw [normalize_eq present, counted, Outcome.ok_bind, if_neg (not_not_intro rfl)]

theorem length_of_normalize (present : weights ≠ .none) (normalized : normalize weights count unit = .ok kept) :
    weights.length = .ok count ∧ keptForm weights = .ok kept := by
  rw [normalize_eq present] at normalized
  exact counted_eq_ok_iff.1 normalized

theorem exists_keptForm (counted : weights.length = .ok count) :
    ∃ kept, keptForm weights = .ok kept ∧ kept.length = .ok count := by
  cases weights with
  | none => cases counted
  | number => cases counted
  | text characters =>
    refine ⟨_, rfl, ?_⟩
    rw [← counted, (Value.Lists.tuple _).length_eq, List.length_map]
    rfl
  | list => exact ⟨_, rfl, counted⟩
  | tuple => exact ⟨_, rfl, counted⟩
  | unitWeight => exact ⟨_, rfl, counted⟩
  | array _ shape =>
    cases shape with
    | nil => cases counted
    | cons => exact ⟨_, rfl, counted⟩

theorem ne_none_of_length (counted : weights.length = .ok count) : weights ≠ .none := by
  rintro rfl
  cases counted

theorem exists_normalize_iff (unit : String) : (∃ kept, normalize weights count unit = .ok kept) ↔
    weights = .none ∨ weights.length = .ok count := by
  constructor
  · rintro ⟨kept, normalized⟩
    by_cases present : weights = .none
    · exact .inl present
    · exact .inr (length_of_normalize present normalized).1
  · rintro (rfl | counted)
    · exact ⟨_, normalize_none count unit⟩
    · rcases exists_keptForm counted with ⟨kept, formed, _⟩
      exact ⟨kept, (normalize_eq_of_length (ne_none_of_length counted) counted unit).trans formed⟩

theorem normalize_of_other_length {given : Nat} (counted : weights.length = .ok given) (differ : given ≠ count)
    (unit : String) : normalize weights count unit = refuse (.weightCount unit count given) := by
  rw [normalize_eq (ne_none_of_length counted), counted, Outcome.ok_bind, if_pos (by exact_mod_cast differ)]
  rfl

theorem normalize_of_no_length {fault : Fault} (present : weights ≠ .none) (failed : weights.length = .error fault)
    (unit : String) : normalize weights count unit = .error fault := by
  rw [normalize_eq present, failed, Outcome.error_bind]

def Itemized : Value → Prop
  | .unitWeight length => length.hasSign = true
  | .array _ shape _ entries => entries.length = shape.prod
  | _ => True

theorem itemized_of_keptForm (itemized : Itemized weights) (formed : keptForm weights = .ok kept) : Itemized kept := by
  cases weights with
  | none => cases formed
  | number => cases formed
  | text => cases formed; trivial
  | list => cases formed; trivial
  | tuple => cases formed; trivial
  | unitWeight => cases formed; exact itemized
  | array => cases formed; exact itemized

theorem kept_of_normalize (small : (count : Int) < Value.sizeLimit)
    (normalized : normalize weights count unit = .ok kept) :
    kept.length = .ok count ∧ (Itemized weights → Itemized kept) := by
  by_cases present : weights = .none
  · rw [present, normalize_none] at normalized
    cases normalized
    exact ⟨length_unitWeight small, fun _ => rfl⟩
  · rcases length_of_normalize present normalized with ⟨counted, formed⟩
    rcases exists_keptForm counted with ⟨other, formedToo, countedToo⟩
    cases formed.symm.trans formedToo
    exact ⟨countedToo, fun itemized => itemized_of_keptForm itemized formed⟩

theorem rows_length (storage : Storage) (shape : List Nat) (writeable : Bool) {entries : List Value}
    (shaped : entries.length = (count :: shape).prod) :
    (Value.rows storage count shape writeable entries).length = count := by
  cases shape with
  | nil => simpa [Value.rows] using shaped
  | cons => simp [Value.rows]

theorem exists_items (itemized : Itemized weights) (counted : weights.length = .ok count) :
    ∃ items, weights.items = .ok items ∧ items.length = count ∧
      ∀ (index : Nat) (bound : index < items.length), weights.itemAt index = .ok items[index] := by
  have found {items : List Value} {index : Nat} (bound : index < items.length) :
      Value.orOutOfRange (itemAt? items index) = .ok items[index] := by
    rw [itemAt?_natCast, List.getElem?_eq_getElem bound]
    rfl
  cases weights with
  | none => cases counted
  | number => cases counted
  | text characters =>
    refine ⟨_, rfl, ?_, fun index => found⟩
    rw [List.length_map]
    exact Except.ok.inj counted
  | list items => exact ⟨items, rfl, Except.ok.inj counted, fun index => found⟩
  | tuple items => exact ⟨items, rfl, Except.ok.inj counted, fun index => found⟩
  | unitWeight length =>
    have sign : length.hasSign = true := itemized
    have ones := Value.items_unitWeight_of_length counted
    rw [if_pos sign] at ones
    refine ⟨_, ones, List.length_replicate, fun index bound => ?_⟩
    rw [List.length_replicate] at bound
    rw [Value.itemAt_unitWeight_of_length counted sign bound, List.getElem_replicate]
  | array storage shape writeable entries =>
    cases shape with
    | nil => cases counted
    | cons size shape =>
      cases counted
      exact ⟨_, rfl, rows_length storage shape writeable itemized, fun index => found⟩

namespace Argument

variable {weights : Argument}

def length : Argument → Outcome Nat
  | given weights => weights.length
  | foreign length _ _ => length

/-- An object of another make gives as many items as its length says. -/
def Faithful : Argument → Prop
  | given _ => True
  | foreign length items _ => ∀ listed, items = .ok listed → length = .ok listed.length

/-- What is kept of the weights has as many items as their length says. -/
def Itemized (weights : Argument) : Prop :=
  weights.Faithful ∧ ∀ value, weights = given value → Weights.Itemized value

theorem normalize_foreign (length : Outcome Nat) (items : Outcome (List Value))
    (reals : Outcome (List Nat × List (Binary .double))) (expected : Int) (unit : String) :
    (foreign length items reals).normalize expected unit = (do
      let given ← length
      if (given : Int) ≠ expected then refuse (.weightCount unit expected given)
      (foreign length items reals).kept) := rfl

/-- Weights are accepted that are absent, or have the length expected and can be kept. -/
theorem exists_normalize_iff (unit : String) : (∃ kept, weights.normalize count unit = .ok kept) ↔
    weights = given .none ∨ weights.length = .ok count ∧ ∃ kept, weights.kept = .ok kept := by
  cases weights with
  | given weights =>
    rw [normalize_given, Weights.exists_normalize_iff, given.injEq]
    exact or_congr_right (and_iff_left ⟨weights, rfl⟩).symm
  | foreign length items reals =>
    simp only [normalize_foreign, counted_eq_ok_iff, exists_and_left, reduceCtorEq, false_or, Argument.length]

theorem normalize_of_other_length {told : Nat} (counted : weights.length = .ok told) (differ : told ≠ count)
    (unit : String) : weights.normalize count unit = refuse (.weightCount unit count told) := by
  cases weights with
  | given weights => exact Weights.normalize_of_other_length counted differ unit
  | foreign length items reals =>
    obtain rfl : length = .ok told := counted
    rw [normalize_foreign, Outcome.ok_bind, if_pos (by exact_mod_cast differ)]
    rfl

theorem normalize_of_no_length {fault : Fault} (present : weights ≠ given .none) (failed : weights.length = .error fault)
    (unit : String) : weights.normalize count unit = .error fault := by
  cases weights with
  | given weights => exact Weights.normalize_of_no_length (fun absent => present (congrArg given absent)) failed unit
  | foreign length items reals =>
    obtain rfl : length = .error fault := failed
    rw [normalize_foreign, Outcome.error_bind]

theorem normalize_of_not_kept {fault : Fault} (counted : weights.length = .ok count) (failed : weights.kept = .error fault)
    (unit : String) : weights.normalize count unit = .error fault := by
  cases weights with
  | given weights => cases failed
  | foreign length items reals =>
    obtain rfl : length = .ok count := counted
    rw [normalize_foreign, Outcome.ok_bind, if_neg (not_not_intro rfl), failed]

/-- Kept weights have the length expected where their items are as many as their length, and then also their items. -/
theorem kept_of_normalize (small : (count : Int) < Value.sizeLimit) (normalized : weights.normalize count unit = .ok kept) :
    (weights.Faithful → kept.length = .ok count) ∧ (weights.Itemized → Weights.Itemized kept) := by
  cases weights with
  | given weights =>
    obtain ⟨counted, keeps⟩ := Weights.kept_of_normalize small normalized
    exact ⟨fun _ => counted, fun itemized => keeps (itemized.2 weights rfl)⟩
  | foreign length items reals =>
    obtain ⟨counted, formed⟩ := counted_eq_ok_iff.1 normalized
    obtain ⟨listed, itemsFound, rfl⟩ := Outcome.map_eq_ok_iff.1 formed
    refine ⟨fun faithful => ?_, fun _ => trivial⟩
    rw [← counted, faithful listed itemsFound]
    rfl

theorem exists_items_of_normalize (small : (count : Int) < Value.sizeLimit)
    (normalized : weights.normalize count unit = .ok kept) : ∃ items, kept.items = .ok items := by
  cases weights with
  | given weights => exact Value.exists_items_of_length (Weights.kept_of_normalize small normalized).1
  | foreign length items reals =>
    obtain ⟨_, formed⟩ := counted_eq_ok_iff.1 normalized
    obtain ⟨listed, _, rfl⟩ := Outcome.map_eq_ok_iff.1 formed
    exact ⟨listed, rfl⟩

end Argument

end EnergyTables.Weights
