import EnergyTables.Proofs.Selection.BestSelections

namespace EnergyTables

namespace SetPacking

open Selection

variable {sets : List (List Value)} {set seen : List Value} {bits : List Nat} {bit : Nat}

theorem selects_succ_iff {place : Nat} : Selects bits (place + 1) ↔ bits[place]? = some 1 := by
  constructor
  · rintro ⟨other, same, selected⟩
    have places : place = other := by omega
    rwa [places]
  · intro selected
    exact ⟨place, rfl, selected⟩

theorem intersect_eq_false_iff {left right : List Value} :
    intersect left right = false ↔ ∀ element ∈ left, ∀ other ∈ right, element.sameKey other = false := by
  simp [intersect]

def Clear (seen : List Value) (sets : List (List Value)) (bits : List Nat) : Prop :=
  ∀ (place : Nat) (set : List Value), sets[place]? = some set → bits[place]? = some 1 → intersect seen set = false

theorem clear_cons : Clear seen (set :: sets) (bit :: bits) ↔
    (bit = 1 → intersect seen set = false) ∧ Clear seen sets bits := by
  constructor
  · intro clear
    exact ⟨fun one => clear 0 set rfl (congrArg some one), fun place => clear (place + 1)⟩
  · rintro ⟨first, rest⟩ place other stands selected
    cases place with
    | zero =>
      cases stands
      exact first (Option.some.inj selected)
    | succ place => exact rest place other stands selected

theorem clear_append : Clear (seen ++ set) sets bits ↔ Clear seen sets bits ∧ Clear set sets bits := by
  simp only [Clear, intersect, List.any_append, Bool.or_eq_false_iff]
  constructor
  · intro clear
    exact ⟨fun place other stands selected => (clear place other stands selected).1,
      fun place other stands selected => (clear place other stands selected).2⟩
  · rintro ⟨before, now⟩ place other stands selected
    exact ⟨before place other stands selected, now place other stands selected⟩

theorem packs_cons : Packs (set :: sets) (bit :: bits) ↔ (bit = 1 → Clear set sets bits) ∧ Packs sets bits := by
  simp only [Packs, selects_succ_iff, ← intersect_eq_false_iff]
  constructor
  · intro packs
    constructor
    · intro one place other stands selected
      exact packs 0 (place + 1) set other place.succ_pos rfl stands (congrArg some one) selected
    · intro front back left right before
      exact packs (front + 1) (back + 1) left right (Nat.succ_lt_succ before)
  · rintro ⟨first, rest⟩ front back left right before frontStands backStands frontSelected backSelected
    rcases Nat.exists_eq_succ_of_ne_zero (Nat.ne_zero_of_lt before) with ⟨back, rfl⟩
    cases front with
    | zero =>
      cases frontStands
      exact first (Option.some.inj frontSelected) back right backStands backSelected
    | succ front =>
      exact rest front back left right (Nat.lt_of_succ_lt_succ before) frontStands backStands frontSelected backSelected

theorem isOne_int (bit : Nat) : isOne (.int bit) = .ok (decide (bit = 1)) := by
  rw [isOne, Value.equal_int]
  exact congrArg Except.ok (decide_eq_decide.2 (by omega))

/-- The pass over the sets succeeds where the selected ones are clear of all that was seen and of each other. -/
theorem exists_packs (keys : ∀ set ∈ sets, Value.areKeys set = true) (lengths : bits.length = sets.length)
    (seen : List Value) :
    ∃ disjoint, packs seen ((bits.map fun (bit : Nat) => Value.int bit).zip sets) = .ok disjoint ∧
      (disjoint = true ↔ Clear seen sets bits ∧ Packs sets bits) := by
  induction sets generalizing bits seen with
  | nil =>
    cases bits with
    | nil => exact ⟨true, rfl, by simp [Clear, Packs]⟩
    | cons bit bits => cases lengths
  | cons set sets ih =>
    cases bits with
    | nil => cases lengths
    | cons bit bits =>
      rcases List.forall_mem_cons.1 keys with ⟨first, rest⟩
      have lengths := Nat.succ.inj lengths
      have checked : checkKeys set = .ok () := if_pos first
      rw [List.map_cons, List.zip_cons_cons, packs, isOne_int, Outcome.ok_bind, clear_cons, packs_cons]
      by_cases one : bit = 1
      · rw [decide_eq_true one, if_pos rfl, checked, Outcome.ok_bind]
        by_cases meets : intersect seen set = true
        · exact ⟨false, by rw [if_pos meets]; rfl, by simp [one, meets]⟩
        · -- what was seen grows by the set, so that later sets are compared with it as well
          rcases ih rest lengths (seen ++ set) with ⟨disjoint, found, disjoint_iff⟩
          rw [clear_append] at disjoint_iff
          rw [if_neg meets]
          exact ⟨disjoint, found, by simp [one, meets, disjoint_iff, and_assoc]⟩
      · rcases ih rest lengths seen with ⟨disjoint, found, disjoint_iff⟩
        rw [decide_eq_false one, if_neg Bool.false_ne_true]
        exact ⟨disjoint, found, by simp [one, disjoint_iff]⟩

theorem exists_isPacking {packing : SetPacking} (keys : ∀ set ∈ packing.sets, Value.areKeys set = true)
    (lengths : bits.length = packing.sets.length) {configuration : Value}
    (lists : configuration.Lists (bits.map fun (bit : Nat) => .int bit)) :
    ∃ disjoint, packing.isPacking configuration = .ok disjoint ∧ (disjoint = true ↔ Packs packing.sets bits) := by
  rcases exists_packs keys lengths [] with ⟨disjoint, found, disjoint_iff⟩
  have counted : (bits.map fun (bit : Nat) => Value.int bit).length = packing.sets.length := by
    rw [List.length_map, lengths]
  refine ⟨disjoint, ?_, disjoint_iff.trans (and_iff_right fun _ _ _ _ => rfl)⟩
  rw [isPacking, lists.length_eq, Outcome.ok_bind, if_neg (not_not_intro counted), lists.items_eq]
  exact found

theorem pairwise_pairs (first : Nat) (sets : List (List Value)) :
    (pairs first sets).Pairwise fun left right => toLex (variablesOf left) < toLex (variablesOf right) := by
  induction sets generalizing first with
  | nil => exact List.Pairwise.nil
  | cons set sets ih =>
    rw [pairs, List.pairwise_append, List.pairwise_map]
    refine ⟨?_, ih (first + 1), ?_⟩
    · apply (Graph.pairwise_zipIdx sets (first + 1)).imp
      intro left right before
      exact Prod.Lex.toLex_lt_toLex.2 (.inr ⟨rfl, by simpa [variablesOf] using before⟩)
    · intro left leftMember right rightMember
      rcases List.mem_map.1 leftMember with ⟨_, _, rfl⟩
      rcases mem_pairs.1 rightMember with ⟨front, _, _, _, _, place, _⟩
      refine Prod.Lex.toLex_lt_toLex.2 (.inl ?_)
      simp only [variablesOf, place]
      omega

theorem pairwise_meetings (sets : List (List Value)) :
    (meetings sets).Pairwise fun left right => toLex left < toLex right := by
  rw [meetings, List.pairwise_map]
  exact (pairwise_pairs 0 sets).filter _

theorem bitAt_succ_eq_one_iff (within : bits ∈ Vectors sets.length) {place : Nat} (bound : place < sets.length) :
    bitAt bits ((place : Int) + 1) = 1 ↔ Selects bits (place + 1) :=
  (selects_iff within (by omega)).symm

/-- The violated constraints are on the selected sets that have a key in common, in lexicographic order; a configuration
    is feasible as it is a packing, where no key is in two selected sets. -/
theorem violatedConstraints_meetings (packing : SetPacking)
    (keys : ∀ set ∈ packing.sets, Value.areKeys set = true) (within : bits ∈ Vectors packing.sets.length) {configuration : Value}
    (lists : configuration.Lists (bits.map fun (bit : Nat) => .int bit)) :
    (∃ pairs : List (Int × Int), packing.problem.violatedConstraints configuration =
        .ok (pairs.map (onPair "disjoint" someUnselected)) ∧
      pairs.Pairwise (fun left right => toLex left < toLex right) ∧
      ∀ pair, pair ∈ pairs ↔ ∃ (front back : Nat) (left right : List Value), front < back ∧
        packing.sets[front]? = some left ∧ packing.sets[back]? = some right ∧
        Selects bits (front + 1) ∧ Selects bits (back + 1) ∧
        (∃ element ∈ left, ∃ other ∈ right, element.sameKey other = true) ∧
        pair = ((front : Int) + 1, (back : Int) + 1)) ∧
    ∃ disjoint, packing.isPacking configuration = .ok disjoint ∧ packing.problem.isFeasible configuration = .ok disjoint ∧
      (disjoint = true ↔ Packs packing.sets bits) := by
  have restricts := SetPacking.restricts (comparable_of_keys fun _ => keys)
  constructor
  · refine ⟨_, restricts.violatedConstraints_eq_ok within lists, (pairwise_meetings _).filter _, fun pair => ?_⟩
    rw [List.mem_filter, mem_meetings, decide_eq_true_iff]
    constructor
    · rintro ⟨⟨front, back, left, right, before, frontStands, backStands, meet, rfl⟩, frontSelected, backSelected⟩
      have bound := (List.getElem?_eq_some_iff.1 backStands).1
      exact ⟨front, back, left, right, before, frontStands, backStands,
        (bitAt_succ_eq_one_iff within (by omega)).1 frontSelected, (bitAt_succ_eq_one_iff within bound).1 backSelected,
        meet, rfl⟩
    · rintro ⟨front, back, left, right, before, frontStands, backStands, frontSelected, backSelected, meet, rfl⟩
      have bound := (List.getElem?_eq_some_iff.1 backStands).1
      exact ⟨⟨front, back, left, right, before, frontStands, backStands, meet, rfl⟩,
        (bitAt_succ_eq_one_iff within (by omega)).2 frontSelected, (bitAt_succ_eq_one_iff within bound).2 backSelected⟩
  · rcases exists_isPacking keys within.1 lists with ⟨disjoint, found, disjoint_iff⟩
    refine ⟨disjoint, found, ?_, disjoint_iff⟩
    rw [restricts.isFeasible_eq_ok within lists]
    apply congrArg Except.ok
    rw [Bool.eq_iff_iff, disjoint_iff, ← packs_iff, ← avoids_one_iff within restricts.inside]
    simp only [Avoids, List.all_eq_true, Bool.not_eq_true', decide_eq_false_iff_not]

def meeting : SetPacking := ⟨[[], [.int 1, .int 1], [], [.int 2, .int 1]], .unitWeight (.int 4)⟩

theorem violatedConstraints_meetings_meeting :
    make (.list (meeting.sets.map .list)) .none = .ok meeting ∧
      (∃ pairs : List (Int × Int),
        meeting.problem.violatedConstraints (.list ([1, 1, 1, 1].map fun (bit : Nat) => .int bit)) =
          .ok (pairs.map (onPair "disjoint" someUnselected)) ∧ (2, 4) ∈ pairs) ∧
      meeting.isPacking (.list ([1, 1, 1, 1].map fun (bit : Nat) => .int bit)) = .ok false := by
  have common : (Value.int 1).sameKey (.int 1) = true := by decide +kernel
  have second : Selects [1, 1, 1, 1] ((1 : Nat) + 1) := ⟨1, rfl, rfl⟩
  have fourth : Selects [1, 1, 1, 1] ((3 : Nat) + 1) := ⟨3, rfl, rfl⟩
  rcases violatedConstraints_meetings meeting (by decide) (⟨rfl, by decide⟩ : [1, 1, 1, 1] ∈ Vectors 4) (.list _) with
    ⟨⟨pairs, violated, _, members⟩, disjoint, checked, _, disjoint_iff⟩
  have meets : disjoint = false := by
    apply Bool.eq_false_of_not_eq_true
    intro packs
    have apart := disjoint_iff.1 packs 1 3 _ _ (by decide) rfl rfl second fourth (.int 1) (by simp) (.int 1) (by simp)
    rw [common] at apart
    cases apart
  subst meets
  have listed : (2, 4) ∈ pairs := (members _).2 ⟨1, 3, _, _, by decide, rfl, rfl, second, fourth,
    ⟨.int 1, by simp, .int 1, by simp, common⟩, rfl⟩
  exact ⟨rfl, ⟨pairs, violated, listed⟩, checked⟩

end SetPacking

end EnergyTables
