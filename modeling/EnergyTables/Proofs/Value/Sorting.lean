import EnergyTables.Proofs.Value.Comparison
import EnergyTables.Value.Sort
import Mathlib.Data.List.Sort

namespace EnergyTables

namespace Value

variable {α β : Type} {less : β → β → Outcome Bool} {wrap : α → β} {unwrap : β → α} {notAfter : α → α → Prop}
  [DecidableRel notAfter] [Std.Total notAfter] [IsTrans α notAfter]

theorem total_of_decides (unwraps : Function.LeftInverse unwrap wrap)
    (decides : ∀ left right, less (wrap left) (wrap right) = .ok (!decide (notAfter right left))) :
    Total (fun value => ∃ item, value = wrap item) less
      fun left right => !decide (notAfter (unwrap right) (unwrap left)) where
  decides := by
    rintro _ _ ⟨left, rfl⟩ ⟨right, rfl⟩
    rw [decides, unwraps, unwraps]
  asymm left right before := by
    have before : ¬ notAfter (unwrap right) (unwrap left) := by simpa using before
    simpa using (Std.Total.total (unwrap left) (unwrap right)).resolve_right before
  trans left middle right first second := by
    have first : notAfter (unwrap left) (unwrap middle) := by simpa using first
    have second : notAfter (unwrap middle) (unwrap right) := by simpa using second
    simpa using IsTrans.trans _ _ _ first second

theorem sort_map_eq_ok [Std.Antisymm notAfter] (unwraps : Function.LeftInverse unwrap wrap)
    (decides : ∀ left right, less (wrap left) (wrap right) = .ok (!decide (notAfter right left))) (items : List α) :
    sort less (items.map wrap) = .ok ((items.insertionSort notAfter).map wrap) := by
  have wrapped : ∀ value ∈ items.map wrap, ∃ item, value = wrap item := by
    intro value member
    rcases List.mem_map.1 member with ⟨item, _, rfl⟩
    exact ⟨item, rfl⟩
  rcases sort_eq_ok (total_of_decides unwraps decides) _ wrapped with ⟨sorted, found, permuted, ordered⟩
  have whole : sorted = (sorted.map unwrap).map wrap := by
    rw [List.map_map]
    refine (List.map_id sorted).symm.trans (List.map_congr_left fun value member => ?_)
    rcases wrapped value (permuted.mem_iff.1 member) with ⟨item, rfl⟩
    rw [Function.comp_apply, unwraps, id]
  have same : (sorted.map unwrap).Perm items := by
    have unwrapped := permuted.map unwrap
    rwa [List.map_map, unwraps.comp_eq_id, List.map_id] at unwrapped
  have ascending : (sorted.map unwrap).Pairwise notAfter := by
    rw [List.pairwise_map]
    exact ordered.imp fun later => by simpa using later
  have sorts : sorted.map unwrap = items.insertionSort notAfter :=
    (same.trans (List.perm_insertionSort notAfter items).symm).eq_of_pairwise' ascending
      (List.pairwise_insertionSort notAfter items)
  rw [found, whole, sorts]

theorem sort_int (numbers : List Int) :
    sort Value.less (numbers.map int) = .ok ((numbers.insertionSort (· ≤ ·)).map int) := by
  apply sort_map_eq_ok (fun _ => rfl : Function.LeftInverse whole int)
  intro left right
  rw [less_int]
  simp only [← not_lt, decide_not, Bool.not_not]

end Value

end EnergyTables
