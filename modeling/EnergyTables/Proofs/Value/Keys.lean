import EnergyTables.Proofs.Value.Comparison

namespace EnergyTables

namespace Exact

theorem equal_iff {left right : Exact} : left.equal right = true ↔ left = right ∧ left ≠ .nan := by
  cases left <;> cases right <;> simp [equal]

end Exact

namespace Number

variable {left middle right : Number}

theorem sameValue_iff : left.sameValue right = true ↔
    (left.exactRe = right.exactRe ∧ left.exactIm = right.exactIm) ∧ left.exactRe ≠ .nan ∧ left.exactIm ≠ .nan := by
  simp only [sameValue, Bool.and_eq_true, Exact.equal_iff, and_and_and_comm]

theorem sameValue_comm (left right : Number) : left.sameValue right = right.sameValue left := by
  rw [Bool.eq_iff_iff, sameValue_iff, sameValue_iff]
  constructor
  · rintro ⟨⟨re, im⟩, present⟩
    exact ⟨⟨re.symm, im.symm⟩, re ▸ present.1, im ▸ present.2⟩
  · rintro ⟨⟨re, im⟩, present⟩
    exact ⟨⟨re.symm, im.symm⟩, re ▸ present.1, im ▸ present.2⟩

theorem sameValue_congr (same : left.sameValue middle = true) (right : Number) :
    left.sameValue right = middle.sameValue right := by
  rcases sameValue_iff.1 same with ⟨⟨re, im⟩, _⟩
  rw [Bool.eq_iff_iff, sameValue_iff, sameValue_iff, re, im]

end Number

namespace Value

theorem sameKeys_iff {lefts rights : List Value} :
    sameKeys lefts rights = true ↔ List.Forall₂ (fun left right => left.sameKey right = true) lefts rights := by
  induction lefts generalizing rights with
  | nil => cases rights <;> simp [sameKeys]
  | cons left lefts ih =>
    cases rights with
    | nil => simp [sameKeys]
    | cons right rights => simp [sameKeys, ih]

mutual

theorem sameKey_comm : (left right : Value) → left.sameKey right = right.sameKey left
  | .none, right => by cases right <;> rfl
  | .list _, right => by cases right <;> rfl
  | .array .., right => by cases right <;> rfl
  | .text left, right => by
    cases right with
    | text right => exact BEq.comm
    | _ => rfl
  | .number left, right => by
    cases right with
    | number right => exact Number.sameValue_comm left right
    | _ => rfl
  | .unitWeight left, right => by
    cases right with
    | unitWeight right => exact Number.sameValue_comm left right
    | _ => rfl
  | .tuple lefts, right => by
    cases right with
    | tuple rights => exact sameKeys_comm lefts rights
    | _ => rfl

theorem sameKeys_comm : (lefts rights : List Value) → sameKeys lefts rights = sameKeys rights lefts
  | [], [] => rfl
  | [], _ :: _ => rfl
  | _ :: _, [] => rfl
  | left :: lefts, right :: rights => by rw [sameKeys, sameKeys, sameKey_comm left right, sameKeys_comm lefts rights]

end

mutual

theorem sameKey_congr : (left middle : Value) → left.sameKey middle = true → (right : Value) →
    left.sameKey right = middle.sameKey right
  | .none, middle, same, right => by
    cases middle with
    | none => rfl
    | _ => cases same
  | .list _, middle, same, _ => by cases middle <;> cases same
  | .array .., middle, same, _ => by cases middle <;> cases same
  | .text left, middle, same, right => by
    cases middle with
    | text middle =>
      rw [eq_of_beq (show (left == middle) = true from same)]
    | _ => cases same
  | .number left, middle, same, right => by
    cases middle with
    | number middle =>
      cases right with
      | number right => exact Number.sameValue_congr same right
      | _ => rfl
    | _ => cases same
  | .unitWeight left, middle, same, right => by
    cases middle with
    | unitWeight middle =>
      cases right with
      | unitWeight right => exact Number.sameValue_congr same right
      | _ => rfl
    | _ => cases same
  | .tuple lefts, middle, same, right => by
    cases middle with
    | tuple middles =>
      cases right with
      | tuple rights => exact sameKeys_congr lefts middles same rights
      | _ => rfl
    | _ => cases same

theorem sameKeys_congr : (lefts middles : List Value) → sameKeys lefts middles = true → (rights : List Value) →
    sameKeys lefts rights = sameKeys middles rights
  | [], [], _, _ => rfl
  | [], _ :: _, same, _ => by cases same
  | _ :: _, [], same, _ => by cases same
  | left :: lefts, middle :: middles, same, rights => by
    have both : left.sameKey middle = true ∧ sameKeys lefts middles = true := by simpa [sameKeys] using same
    cases rights with
    | nil => rfl
    | cons right rights =>
      rw [sameKeys, sameKeys, sameKey_congr left middle both.1 right, sameKeys_congr lefts middles both.2 rights]

end

theorem sameKey_congr_right {left middle right : Value} (same : middle.sameKey right = true) :
    left.sameKey middle = left.sameKey right := by
  rw [sameKey_comm left, sameKey_comm left, sameKey_congr _ _ same]

theorem equalItems_cons_of_sameKey {left right : Value} {lefts rights : List Value}
    (first : left.equal right = .ok (left.sameKey right)) (rest : equalItems lefts rights = .ok (sameKeys lefts rights)) :
    equalItems (left :: lefts) (right :: rights) = .ok (sameKeys (left :: lefts) (right :: rights)) := by
  rw [equalItems_cons, first, Outcome.ok_bind, rest, sameKeys]
  cases left.sameKey right with
  | true => rfl
  | false => rfl

theorem equal_tuple_of_sameKeys {lefts rights : List Value}
    (items : lefts.length = rights.length → equalItems lefts rights = .ok (sameKeys lefts rights)) :
    (tuple lefts).equal (tuple rights) = .ok ((tuple lefts).sameKey (tuple rights)) := by
  rw [equal_tuple, sameKey]
  by_cases lengths : lefts.length = rights.length
  · rw [if_pos lengths, items lengths]
  · have differ : sameKeys lefts rights = false := by
      apply Bool.eq_false_of_not_eq_true
      exact fun same => lengths (sameKeys_iff.1 same).length_eq
    rw [if_neg lengths, differ]

/-- Keys of which any two are equal exactly where they are the same key, as each of them is to itself. -/
structure EqualAsKeys (among : Value → Prop) : Prop where
  keys : ∀ value, among value → value.isKey = true
  sameKey_self : ∀ value, among value → value.sameKey value = true
  equal_eq_ok : ∀ left right, among left → among right → left.equal right = .ok (left.sameKey right)

namespace EqualAsKeys

variable {among : Value → Prop}

theorem equalItems_eq_ok (equalAsKeys : EqualAsKeys among) {lefts rights : List Value}
    (within : ∀ left ∈ lefts, among left) (withinToo : ∀ right ∈ rights, among right)
    (lengths : lefts.length = rights.length) : equalItems lefts rights = .ok (sameKeys lefts rights) := by
  induction lefts generalizing rights with
  | nil =>
    cases rights with
    | nil => rfl
    | cons => cases lengths
  | cons left lefts ih =>
    cases rights with
    | nil => cases lengths
    | cons right rights =>
      rcases List.forall_mem_cons.1 within with ⟨first, rest⟩
      rcases List.forall_mem_cons.1 withinToo with ⟨firstToo, restToo⟩
      exact equalItems_cons_of_sameKey (equalAsKeys.equal_eq_ok left right first firstToo)
        (ih rest restToo (Nat.succ.inj lengths))

theorem areKeys_eq_true (equalAsKeys : EqualAsKeys among) {items : List Value} (within : ∀ item ∈ items, among item) :
    areKeys items = true := by
  induction items with
  | nil => rfl
  | cons item items ih =>
    rcases List.forall_mem_cons.1 within with ⟨first, rest⟩
    rw [areKeys, equalAsKeys.keys item first, ih rest, Bool.and_self]

theorem tuples (equalAsKeys : EqualAsKeys among) :
    EqualAsKeys fun value => ∃ items, value = .tuple items ∧ ∀ item ∈ items, among item where
  keys := by
    rintro _ ⟨items, rfl, within⟩
    exact equalAsKeys.areKeys_eq_true within
  sameKey_self := by
    rintro _ ⟨items, rfl, within⟩
    rw [sameKey, sameKeys_iff, List.forall₂_same]
    exact fun item member => equalAsKeys.sameKey_self item (within item member)
  equal_eq_ok := by
    rintro _ _ ⟨lefts, rfl, within⟩ ⟨rights, rfl, withinToo⟩
    exact equal_tuple_of_sameKeys (equalAsKeys.equalItems_eq_ok within withinToo)

end EqualAsKeys

end Value

theorem Number.isSignaling_of_sameValue {number : Number} (same : number.sameValue number = true) :
    number.isSignaling = false := by
  unfold isSignaling
  split
  · cases same
  · rfl

theorem Number.relate_plain {left right : Number} (plain : left.storage? = none) (plainToo : right.storage? = none)
    (same : left.sameValue left = true) (sameToo : right.sameValue right = true) :
    left.relate .equal right = .ok (left.sameValue right) := by
  rw [relate, plain, plainToo]
  simp [relatePlain, isSignaling_of_sameValue same, isSignaling_of_sameValue sameToo]

namespace Value

mutual

def isPlainKey : Value → Bool
  | .none | .text _ => true
  | .number scalar => scalar.storage?.isNone && scalar.sameValue scalar
  | .tuple items => arePlainKeys items
  | _ => false

def arePlainKeys : List Value → Bool
  | [] => true
  | item :: items => isPlainKey item && arePlainKeys items

end

theorem isKey_number {scalar : Number} (quiet : scalar.isSignaling = false) : (number scalar).isKey = true := by
  cases scalar with
  | decimal value =>
    cases value with
    | nan negative signaling payload =>
      cases signaling with
      | true => cases quiet
      | false => rfl
    | _ => rfl
  | _ => rfl

mutual

theorem isKey_of_isPlainKey : (value : Value) → value.isPlainKey = true → value.isKey = true
  | .none, _ | .text _, _ => rfl
  | .list _, plain | .array .., plain | .unitWeight _, plain => by cases plain
  | .number scalar, plain => by
    exact isKey_number (Number.isSignaling_of_sameValue (Bool.and_eq_true_iff.1 plain).2)
  | .tuple items, plain => areKeys_of_arePlainKeys items plain

theorem areKeys_of_arePlainKeys : (items : List Value) → arePlainKeys items = true → areKeys items = true
  | [], _ => rfl
  | item :: items, plain => by
    rw [arePlainKeys, Bool.and_eq_true] at plain
    rw [areKeys, isKey_of_isPlainKey item plain.1, areKeys_of_arePlainKeys items plain.2, Bool.and_self]

end

mutual

theorem sameKey_self_of_isPlainKey : (value : Value) → value.isPlainKey = true → value.sameKey value = true
  | .none, _ => rfl
  | .text characters, _ => beq_self_eq_true characters
  | .list _, plain | .array .., plain | .unitWeight _, plain => by cases plain
  | .number _, plain => (Bool.and_eq_true_iff.1 plain).2
  | .tuple items, plain => sameKeys_self_of_arePlainKeys items plain

theorem sameKeys_self_of_arePlainKeys : (items : List Value) → arePlainKeys items = true → sameKeys items items = true
  | [], _ => rfl
  | item :: items, plain => by
    rw [arePlainKeys, Bool.and_eq_true] at plain
    rw [sameKeys, sameKey_self_of_isPlainKey item plain.1, sameKeys_self_of_arePlainKeys items plain.2, Bool.and_self]

end

mutual

theorem equal_of_isPlainKey : (left right : Value) → left.isPlainKey = true → right.isPlainKey = true →
    left.equal right = .ok (left.sameKey right)
  | .list _, _, plain, _ | .array .., _, plain, _ | .unitWeight _, _, plain, _ => by cases plain
  | .none, right, _, plainToo => by
    cases right <;> first | rfl | cases plainToo
  | .text _, right, _, plainToo => by
    cases right <;> first | rfl | cases plainToo
  | .number left, right, plain, plainToo => by
    cases right with
    | number right =>
      have numbers := Bool.and_eq_true_iff.1 plain
      have numbersToo := Bool.and_eq_true_iff.1 plainToo
      exact Number.relate_plain (Option.isNone_iff_eq_none.1 numbers.1) (Option.isNone_iff_eq_none.1 numbersToo.1)
        numbers.2 numbersToo.2
    | tuple items =>
      exact relateApart_of_plain (by simp [isStored, Option.isNone_iff_eq_none.1 (Bool.and_eq_true_iff.1 plain).1])
    | list | array | unitWeight => cases plainToo
    | _ => rfl
  | .tuple lefts, right, plain, plainToo => by
    cases right with
    | tuple rights => exact equal_tuple_of_sameKeys (equalItems_of_arePlainKeys lefts rights plain plainToo)
    | number right =>
      exact relateApart_of_plain (by simp [isStored, Option.isNone_iff_eq_none.1 (Bool.and_eq_true_iff.1 plainToo).1])
    | list | array | unitWeight => cases plainToo
    | _ => rfl

theorem equalItems_of_arePlainKeys : (lefts rights : List Value) → arePlainKeys lefts = true →
    arePlainKeys rights = true → lefts.length = rights.length → equalItems lefts rights = .ok (sameKeys lefts rights)
  | [], [], _, _, _ => rfl
  | [], _ :: _, _, _, lengths => by cases lengths
  | _ :: _, [], _, _, lengths => by cases lengths
  | left :: lefts, right :: rights, plain, plainToo, lengths => by
    rw [arePlainKeys, Bool.and_eq_true] at plain plainToo
    exact equalItems_cons_of_sameKey (equal_of_isPlainKey left right plain.1 plainToo.1)
      (equalItems_of_arePlainKeys lefts rights plain.2 plainToo.2 (Nat.succ.inj lengths))

end

end Value

end EnergyTables
