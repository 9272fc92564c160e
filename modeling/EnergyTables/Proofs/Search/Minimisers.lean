import EnergyTables.Proofs.Search.Enumeration
import EnergyTables.Proofs.Codec
import Mathlib.Data.List.Induction
import Mathlib.Data.List.MinMax

namespace EnergyTables

namespace Search

variable {ι α : Type} [LinearOrder α]

def minimisers (cost : ι → α) (items : List ι) : List ι :=
  items.filter fun item => ∀ other ∈ items, cost item ≤ cost other

theorem mem_minimisers {cost : ι → α} {items : List ι} {item : ι} :
    item ∈ minimisers cost items ↔ item ∈ items ∧ ∀ other ∈ items, cost item ≤ cost other := by
  rw [minimisers, List.mem_filter, decide_eq_true_iff]

theorem minimisers_eq_nil_iff {cost : ι → α} {items : List ι} : minimisers cost items = [] ↔ items = [] := by
  constructor
  · intro empty
    by_contra some
    obtain ⟨item, found⟩ := Option.ne_none_iff_exists'.1 (mt (List.argmin_eq_none (f := cost)).1 some)
    have least : item ∈ minimisers cost items :=
      mem_minimisers.2 ⟨List.argmin_mem found, fun other member => List.le_of_mem_argmin member found⟩
    rw [empty] at least
    cases least
  · rintro rfl
    rfl

theorem minimisers_congr {β : Type} [LinearOrder β] {cost : ι → α} {other : ι → β} {items : List ι}
    (same : ∀ left ∈ items, ∀ right ∈ items, cost left ≤ cost right ↔ other left ≤ other right) :
    minimisers cost items = minimisers other items :=
  List.filter_congr fun item member => decide_eq_decide.2
    (forall₂_congr fun right rightMember => same item member right rightMember)

theorem minimisers_map {κ : Type} (cost : ι → α) (function : κ → ι) (items : List κ) :
    minimisers cost (items.map function) = (minimisers (cost ∘ function) items).map function := by
  rw [minimisers, List.filter_map, minimisers]
  congr 1
  exact List.filter_congr fun item _ => decide_eq_decide.2 List.forall_mem_map

/-- The best of the items seen: nothing yet, or their least cost with all that have it. -/
inductive Best.Minimises (number : α → Number) (cost : ι → α) (encode : ι → Value) : Best → List ι → Prop
  | start : Minimises number cost encode ⟨none, []⟩ []
  | reached {least : α} {ids : List Value} {seen : List ι} (attained : ∃ item ∈ seen, cost item = least)
      (lower : ∀ item ∈ seen, least ≤ cost item)
      (tied : ids.reverse = (seen.filter fun item => cost item = least).map encode) :
      Minimises number cost encode ⟨some (.number (number least)), ids⟩ seen

variable {number : α → Number} {cost : ι → α} {encode : ι → Value}

theorem Best.Minimises.improve (comparable : Number.Comparable number) {best : Best} {seen : List ι}
    (minimises : best.Minimises number cost encode seen) (item : ι) :
    ∃ next, best.improve (encode item) (.number (number (cost item))) = .ok next ∧
      next.Minimises number cost encode (seen ++ [item]) := by
  cases minimises with
  | start => exact ⟨_, rfl, .reached ⟨item, by simp, rfl⟩ (by simp) (by simp)⟩
  | @reached least ids _ attained lower tied =>
    -- a lower cost begins the ids anew, an equal one joins them, a higher one is passed over
    rcases lt_trichotomy (cost item) least with lower' | same | higher
    · refine ⟨⟨some (.number (number (cost item))), [encode item]⟩, ?_, .reached ⟨item, by simp, rfl⟩ ?_ ?_⟩
      · simp only [Best.improve, comparable.less, lower', decide_true, Outcome.ok_bind, if_true, Outcome.pure_eq_ok]
      · intro other member
        rcases List.mem_append.1 member with member | member
        · exact (lower'.trans_le (lower other member)).le
        · rw [List.mem_singleton.1 member]
      · have none : seen.filter (fun other => cost other = cost item) = [] := by
          apply List.filter_eq_nil_iff.2
          intro other member
          simpa using (lower'.trans_le (lower other member)).ne'
        rw [List.filter_append, none]
        simp
    · refine ⟨⟨some (.number (number least)), encode item :: ids⟩, ?_, .reached ⟨item, by simp, same⟩ ?_ ?_⟩
      · simp only [Best.improve, comparable.less, comparable.equal, same, lt_irrefl, decide_false, decide_true,
          Outcome.ok_bind, Bool.false_eq_true, if_false, if_true, Outcome.pure_eq_ok]
      · intro other member
        rcases List.mem_append.1 member with member | member
        · exact lower other member
        · rw [List.mem_singleton.1 member, same]
      · rw [List.reverse_cons, tied, List.filter_append, List.map_append]
        simp [same]
    · rcases attained with ⟨found, member, attains⟩
      refine ⟨⟨some (.number (number least)), ids⟩, ?_, .reached ⟨found, by simp [member], attains⟩ ?_ ?_⟩
      · simp only [Best.improve, comparable.less, comparable.equal, higher.not_gt, higher.ne', decide_false,
          Outcome.ok_bind, Bool.false_eq_true, if_false, Outcome.pure_eq_ok]
      · intro other member
        rcases List.mem_append.1 member with member | member
        · exact lower other member
        · rw [List.mem_singleton.1 member]
          exact higher.le
      · rw [tied, List.filter_append]
        simp [higher.ne']

theorem Best.Minimises.reverse_ids {best : Best} {items : List ι}
    (minimises : best.Minimises number cost encode items) :
    best.ids.reverse = (minimisers cost items).map encode := by
  cases minimises with
  | start => rfl
  | @reached least ids _ attained lower tied =>
    rcases attained with ⟨found, member, attains⟩
    refine tied.trans (congrArg (List.map encode) (List.filter_congr fun item itemMember => decide_eq_decide.2 ?_))
    constructor
    · rintro rfl other otherMember
      exact lower other otherMember
    · intro undercuts
      exact le_antisymm (attains ▸ undercuts found member) (lower item itemMember)

theorem best_minimises (comparable : Number.Comparable number) (energy : Value → Outcome Value) {items : List ι}
    (found : ∀ item ∈ items, energy (encode item) = .ok (.number (number (cost item)))) :
    ∃ result, best energy (items.map encode) = .ok result ∧ result.Minimises number cost encode items := by
  induction items using List.reverseRecOn with
  | nil => exact ⟨_, rfl, .start⟩
  | append_singleton items item ih =>
    obtain ⟨result, searched, minimises⟩ := ih fun other member => found other (by simp [member])
    rcases minimises.improve comparable item with ⟨next, improved, minimises⟩
    refine ⟨next, ?_, minimises⟩
    rw [best] at searched
    rw [best, List.map_append, List.foldlM_append, searched, Outcome.ok_bind, List.map_singleton,
      List.foldlM_cons, found item (by simp), Outcome.ok_bind, improved]
    rfl

theorem power_eq (base exponent : Nat) : power base exponent = base ^ exponent := by
  rw [power]
  split
  next small =>
    obtain rfl | rfl : base = 0 ∨ base = 1 := by omega
    · exact (Nat.zero_pow (Nat.pos_of_ne_zero small.2)).symm
    · exact (Nat.one_pow exponent).symm
  next => rfl

end Search

namespace Problem

open Flavor

theorem stateCount_natCast (flavorCount count : Nat) :
    Search.stateCount flavorCount count = .ok (.int (flavorCount ^ count : Nat)) := by
  rw [Search.stateCount, if_pos (Int.natCast_nonneg _), Search.power_eq, Int.toNat_natCast]

/-- The states are not so few that nothing bounds the number of variables. -/
def Countable (flavorCount count : Nat) : Prop := ¬ (flavorCount ≤ 1 ∧ Search.repeatLimit ≤ (count : Int))

theorem countable_of_two_le {flavorCount : Nat} (several : 2 ≤ flavorCount) (count : Nat) : Countable flavorCount count :=
  fun few => by omega

theorem checkStates_int {problem : Problem} {count : Nat} (counted : problem.variableCount = count) (limit : Int) :
    (limit < (problem.flavorCount ^ count : Nat) → problem.checkStates (.int limit) =
      refuse (.tooManyStates (.int (problem.flavorCount ^ count : Nat)) (.int limit))) ∧
    ((problem.flavorCount ^ count : Nat) ≤ limit →
      (Countable problem.flavorCount count →
        problem.checkStates (.int limit) = .ok (.int (problem.flavorCount ^ count : Nat))) ∧
      (¬ Countable problem.flavorCount count → problem.checkStates (.int limit) = .error .tooLarge)) := by
  have natural : ¬ (count : Int) < 0 := Int.not_lt.2 (Int.natCast_nonneg count)
  rw [checkStates, counted, stateCount_natCast, Outcome.ok_bind, Value.less_int, Outcome.ok_bind]
  refine ⟨fun many => ?_, fun enough => ⟨fun countable => ?_, fun uncountable => ?_⟩⟩
  · rw [decide_eq_true many]
    rfl
  · rw [decide_eq_false (Int.not_lt.2 enough), if_neg Bool.false_ne_true, if_neg natural, if_neg countable]
    rfl
  · rw [decide_eq_false (Int.not_lt.2 enough), if_neg Bool.false_ne_true, if_neg natural, if_pos (not_not.1 uncountable)]
    rfl

/-- Going through all ids ends with those of the positions that no others undercut. -/
theorem exists_best {α : Type} [LinearOrder α] {number : α → Number} (comparable : Number.Comparable number)
    {problem : Problem} {tables : Tables} {kind : Kind} {count : Nat} {cost : List Nat → α}
    (counted : problem.variableCount = count)
    (energies : ∀ positions ∈ Positions problem.flavorCount count,
      energyById tables.terms (.idOf positions) (some kind) = .ok (.number (number (cost positions)))) :
    ∃ best, Search.best (energyById tables.terms · (some kind)) problem.allIds = .ok best ∧
      best.ids.reverse.mapM problem.configurationOf =
        .ok ((Search.minimisers cost (Search.enumeration problem.flavorCount count)).map
          (List.map (ofPosition problem.flavors))) := by
  obtain ⟨best, searched, minimises⟩ := Search.best_minimises comparable (energyById tables.terms · (some kind))
    fun positions member => energies positions (Search.mem_enumeration.1 member)
  rw [← allIds_eq counted] at searched
  refine ⟨best, searched, ?_⟩
  rw [minimises.reverse_ids, Outcome.mapM_eq_ok_iff, List.forall₂_map_left_iff, List.forall₂_map_right_iff,
    List.forall₂_same]
  intro positions member
  exact configurationOf_eq_ok (Value.isId_idOf positions)
    (Search.mem_enumeration.1 (Search.mem_minimisers.1 member).1)

theorem findBest_eq_ok {α : Type} [LinearOrder α] {number : α → Number} (comparable : Number.Comparable number)
    {problem : Problem} {tables : Tables} {kind : Kind} {count : Nat} {limit : Int} {cost : List Nat → α}
    (compiled : problem.tables = .ok tables) (energyKind : problem.energyKind = .ok kind)
    (counted : problem.variableCount = count) (countable : Countable problem.flavorCount count)
    (enough : (problem.flavorCount ^ count : Nat) ≤ limit)
    (energies : ∀ positions ∈ Positions problem.flavorCount count,
      energyById tables.terms (.idOf positions) (some kind) = .ok (.number (number (cost positions)))) :
    problem.findBest (.int limit) = .ok ((Search.minimisers cost (Search.enumeration problem.flavorCount count)).map
      (List.map (ofPosition problem.flavors))) := by
  obtain ⟨best, searched, decoded⟩ := exists_best comparable counted energies
  rw [findBest, bruteForce, ((checkStates_int counted limit).2 enough).1 countable, Outcome.ok_bind, compiled,
    Outcome.ok_bind, energyKind, Outcome.ok_bind, searched, Outcome.ok_bind, decoded]
  rfl

end Problem

end EnergyTables
