import EnergyTables.Proofs.Evaluation.Meaning
import EnergyTables.Proofs.Tables.WordTables
import Mathlib.Algebra.Order.BigOperators.Group.List
import Mathlib.Algebra.Order.Ring.Abs

namespace EnergyTables

open Flavor Constraint

theorem Value.whole_ofWord {format : IntFormat} {value : Int} (held : format.Holds value) :
    (Value.number (.ofWord format value)).whole = value := Word.val_wrap_of_holds held

namespace Term

def selected (positions : List Nat) (term : Term) : Int :=
  (term.energies.getD (strided term.strides (localPositions term.scope positions)).toNat .none).whole

def selection (positions : List Nat) (terms : List Term) : Int := (terms.map (selected positions)).sum

theorem selection_cons (positions : List Nat) (term : Term) (terms : List Term) :
    selection positions (term :: terms) = term.selected positions + selection positions terms := by
  rw [selection, List.map_cons, List.sum_cons, selection]

def magnitude (term : Term) : Nat := (term.energies.toList.map fun energy => energy.whole.natAbs).foldr max 0

def magnitudes (terms : List Term) : Int := (terms.map fun term => (term.magnitude : Int)).sum

theorem abs_selected_le (positions : List Nat) (term : Term) : |term.selected positions| ≤ term.magnitude := by
  unfold selected
  rw [Array.getD_eq_getD_getElem?]
  cases found : term.energies[(strided term.strides (localPositions term.scope positions)).toNat]? with
  | none => exact Int.natCast_nonneg _
  | some energy =>
    have member : energy ∈ term.energies.toList := Array.mem_toList_iff.2 (Array.mem_of_getElem? found)
    have listed : energy.whole.natAbs ∈ term.energies.toList.map fun energy => energy.whole.natAbs :=
      List.mem_map_of_mem member
    have bound : energy.whole.natAbs ≤ term.magnitude := List.le_max_of_le listed le_rfl
    rw [Option.getD_some, Int.abs_eq_natAbs]
    exact Int.ofNat_le.2 bound

theorem abs_selection_le (positions : List Nat) (terms : List Term) :
    |selection positions terms| ≤ (terms.map fun term => |term.selected positions|).sum := by
  induction terms with
  | nil => exact le_rfl
  | cons term terms ih =>
    have apart := abs_add_le (term.selected positions) (selection positions terms)
    rw [selection_cons, List.map_cons, List.sum_cons]
    omega

variable {term : Term} {format : IntFormat} {flavors : List Value} {count : Nat} {positions : List Nat} {id : Value}

theorem HoldsWords.lookUp_selected (holds : term.HoldsWords format flavors count) (isId : id.IsId positions)
    (within : positions ∈ Positions flavors.length count) :
    format.Holds (term.selected positions) ∧
      term.lookUp id = .ok (.number (.ofWord format (term.selected positions))) := by
  have reads : ∀ index ∈ term.scope,
      term.positionOf id index = .ok (.int (positions.getD (index.toNat - 1) 0 : Nat)) := by
    intro index member
    exact positionOf_eq_ok isId (by rwa [holds.flavors_eq]) (holds.inside index member)
  have among := localPositions_mem within holds.inside
  obtain ⟨place, word, address, _, stored, _, found⟩ :=
    holds.exists_lookUp reads fun index member => among.2 _ (List.mem_map_of_mem member)
  have selects : term.selected positions = word.val := by
    unfold selected localPositions
    rw [address, Int.toNat_natCast, Array.getD_eq_getD_getElem?, stored]
    rfl
  rw [selects, found, Number.ofWord_val]
  exact ⟨word.held, rfl⟩

theorem selected_eq {energy : Int} (held : format.Holds (term.selected positions)) (energyHeld : format.Holds energy)
    (same : Except.ok (ε := Fault) (Value.number (.ofWord format (term.selected positions))) =
      .ok (.number (.ofWord format energy))) : term.selected positions = energy := by
  have entry := congrArg Value.whole (Except.ok.inj same)
  rwa [Value.whole_ofWord held, Value.whole_ofWord energyHeld] at entry

theorem energyById_selection {terms : List Term} (holds : ∀ term ∈ terms, term.HoldsWords format flavors count)
    (isId : id.IsId positions) (within : positions ∈ Positions flavors.length count) :
    energyById terms id (some (.stored (.word format))) =
      .ok (.number (.ofWord format (selection positions terms))) := by
  have reads : List.Forall₂ (fun (item term : Term) =>
      term.lookUp id = .ok (.number (.ofWord format (item.selected positions)))) terms terms := by
    rw [List.forall₂_same]
    exact fun term member => ((holds term member).lookUp_selected isId within).2
  have sums := addReads_words reads 0
  rw [zero_add] at sums
  exact (energyById_some id terms (Kind.zero_word format)).trans sums

end Term

open Term

namespace Problem

def violationCount (problem : Problem) (id : Value) : Outcome Nat := do
  let configuration ← problem.configurationOf id
  return (← keepViolated (.list configuration) (← problem.hardConstraints)).length

theorem Violates.selection_eq {format : IntFormat} {id : Value} {positions : List Nat} {violated : List HardConstraint}
    {terms : List Term}
    (violates : Violates (.number (.ofWord format 0)) (.number (.ofWord format format.sentinel)) id violated terms)
    (selects : ∀ term ∈ terms, format.Holds (term.selected positions) ∧
      term.lookUp id = .ok (.number (.ofWord format (term.selected positions)))) :
    selection positions terms = violated.length * format.sentinel ∧
      ∀ term ∈ terms, |term.selected positions| ≤ format.sentinel := by
  induction violates with
  | nil => exact ⟨by simp [selection], by simp⟩
  | satisfied read _ ih =>
    obtain ⟨⟨held, found⟩, rest⟩ := List.forall_mem_cons.1 selects
    obtain ⟨sum, small⟩ := ih rest
    have entry := selected_eq held format.holds_zero (found.symm.trans read)
    constructor
    · rw [selection_cons, entry, sum, zero_add]
    · refine List.forall_mem_cons.2 ⟨?_, small⟩
      rw [entry, abs_zero]
      exact format.sentinel_nonneg
  | violated read _ ih =>
    obtain ⟨⟨held, found⟩, rest⟩ := List.forall_mem_cons.1 selects
    obtain ⟨sum, small⟩ := ih rest
    have entry := selected_eq held format.holds_sentinel (found.symm.trans read)
    constructor
    · rw [selection_cons, entry, sum, List.length_cons]
      push_cast
      ring
    · refine List.forall_mem_cons.2 ⟨?_, small⟩
      rw [entry, abs_of_nonneg format.sentinel_nonneg]

theorem Compilation.exists_violations {problem : Problem} {format : IntFormat} (compilation : problem.Compilation)
    (isWord : compilation.kind = .stored (.word format)) {count : Nat} (counted : problem.variableCount = count)
    {positions : List Nat} (within : positions ∈ Positions problem.flavorCount count) {id : Value}
    (isId : id.IsId positions) :
    ∃ violations, problem.violationCount id = .ok violations ∧
      selection positions compilation.tables.hard = violations * format.sentinel ∧
      ∀ term ∈ compilation.tables.hard, |term.selected positions| ≤ format.sentinel := by
  have tables := compilation.holdsWords isWord
  rw [counted] at tables
  have reads := compilation.hard_reads_of_kind isWord (Kind.zero_word format) (Kind.sentinel_word format) counted
    within isId
  have selects : ∀ term ∈ compilation.tables.hard, format.Holds (term.selected positions) ∧
      term.lookUp id = .ok (.number (.ofWord format (term.selected positions))) :=
    fun term member => (tables term (List.mem_append_left _ member)).lookUp_selected isId within
  obtain ⟨violated, kept, violates⟩ := exists_violates reads
  refine ⟨violated.length, ?_, violates.selection_eq selects⟩
  rw [violationCount, configurationOf_eq_ok isId within, Outcome.ok_bind, compilation.hard_eq, Outcome.ok_bind, kept]
  rfl

end Problem

/-- The room that so many sentinels and the greatest soft energies take. -/
def IntFormat.headroom (format : IntFormat) (hardCount : Nat) (softTerms : List Term) : Int :=
  hardCount * format.sentinel + magnitudes softTerms

theorem IntFormat.headroom_le_greatest (format : IntFormat) {hardCount : Nat} {softTerms : List Term}
    (few : hardCount < format.sentinel) (small : magnitudes softTerms ≤ format.sentinel) :
    format.headroom hardCount softTerms ≤ format.greatest := by
  have nonneg := format.sentinel_nonneg
  have most : (hardCount + 1 : Int) * format.sentinel ≤ format.sentinel * format.sentinel :=
    mul_le_mul_of_nonneg_right few nonneg
  calc format.headroom hardCount softTerms
      ≤ hardCount * format.sentinel + format.sentinel := Int.add_le_add_left small _
    _ = (hardCount + 1) * format.sentinel := by rw [add_mul, one_mul]
    _ ≤ format.sentinel * format.sentinel := most
    _ ≤ format.greatest := format.sentinel_mul_self_le

namespace Term

theorem abs_selection_le_magnitudes (positions : List Nat) (terms : List Term) :
    |selection positions terms| ≤ magnitudes terms :=
  (abs_selection_le positions terms).trans (List.sum_le_sum fun term _ => abs_selected_le positions term)

theorem abs_selection_le_headroom {format : IntFormat} {positions : List Nat} {hardTerms softTerms front : List Term}
    (small : ∀ term ∈ hardTerms, |term.selected positions| ≤ format.sentinel)
    (part : front <+: hardTerms ++ softTerms) :
    |selection positions front| ≤ format.headroom hardTerms.length softTerms := by
  have nonneg : ∀ term ∈ hardTerms ++ softTerms, 0 ≤ |term.selected positions| := fun _ _ => abs_nonneg _
  have hard : (hardTerms.map fun term => |term.selected positions|).sum ≤ hardTerms.length * format.sentinel := by
    have bound := List.sum_le_card_nsmul (hardTerms.map fun term => |term.selected positions|) format.sentinel
      (List.forall_mem_map.2 small)
    rwa [List.length_map, nsmul_eq_mul] at bound
  have soft : (softTerms.map fun term => |term.selected positions|).sum ≤ magnitudes softTerms :=
    List.sum_le_sum fun term _ => abs_selected_le positions term
  -- soft energies of either sign can make a partial sum exceed the whole one, so that absolute values are compared
  calc |selection positions front|
      ≤ (front.map fun term => |term.selected positions|).sum := abs_selection_le positions front
    _ ≤ ((hardTerms ++ softTerms).map fun term => |term.selected positions|).sum :=
        (part.sublist.map _).sum_le_sum (List.forall_mem_map.2 nonneg)
    _ = (hardTerms.map fun term => |term.selected positions|).sum +
          (softTerms.map fun term => |term.selected positions|).sum := by rw [List.map_append, List.sum_append]
    _ ≤ format.headroom hardTerms.length softTerms := add_le_add hard soft

theorem violations_dominate {sentinel bound left right : Int} {fewer more : Nat} (less : fewer < more)
    (low : |left| ≤ bound) (high : |right| ≤ bound) (small : 2 * bound < sentinel) :
    fewer * sentinel + left < more * sentinel + right := by
  have lowBounds := abs_le.1 low
  have highBounds := abs_le.1 high
  have nonneg : 0 ≤ sentinel := by omega
  have step : (fewer + 1 : Int) * sentinel ≤ more * sentinel := mul_le_mul_of_nonneg_right (by omega) nonneg
  rw [add_mul, one_mul] at step
  omega

end Term

theorem Value.less_ofWord {format : IntFormat} {left right : Int} (leftHeld : format.Holds left)
    (rightHeld : format.Holds right) :
    (Value.number (.ofWord format left)).less (.number (.ofWord format right)) = .ok (decide (left < right)) := by
  have same : Word.wrap format left < Word.wrap format right ↔ left < right := by
    rw [Word.lt_iff, Word.val_wrap_of_holds leftHeld, Word.val_wrap_of_holds rightHeld]
  have compared := (Number.comparable_word format).less (Word.wrap format left) (Word.wrap format right)
  rw [decide_eq_decide.2 same] at compared
  exact compared

namespace Problem

def Undercuts (terms : List Term) (kind : Kind) (first second : Value) : Prop :=
  ∃ low high, energyById terms first (some kind) = .ok low ∧ energyById terms second (some kind) = .ok high ∧
    low.less high = .ok true

theorem exists_violationCount_of_isFeasible {problem : Problem} {id : Value} {configuration : List Value}
    {feasible : Bool} (decoded : problem.configurationOf id = .ok configuration)
    (told : problem.isFeasible (.list configuration) = .ok feasible) :
    ∃ violations, problem.violationCount id = .ok violations ∧ (feasible = true ↔ violations = 0) := by
  obtain ⟨violated, found, rfl⟩ := Outcome.map_eq_ok_iff.1 told
  obtain ⟨_, _, found⟩ := Outcome.bind_eq_ok_iff.1 found
  obtain ⟨hard, hardFound, kept⟩ := Outcome.bind_eq_ok_iff.1 found
  refine ⟨violated.length, ?_, ?_⟩
  · rw [violationCount, decoded, Outcome.ok_bind, hardFound, Outcome.ok_bind, kept]
    rfl
  · rw [List.isEmpty_iff, List.length_eq_zero_iff]

namespace Compilation

variable {problem : Problem} {format : IntFormat} {count : Nat}

/-- Where there is room for all of them, the sum of what an id reads up to any table is exact. -/
theorem exact_selection (compilation : problem.Compilation) (isWord : compilation.kind = .stored (.word format))
    (signed : format.signed = true) (counted : problem.variableCount = count)
    (fits : format.headroom compilation.hard.length compilation.tables.soft ≤ format.greatest) {positions : List Nat}
    (within : positions ∈ Positions problem.flavorCount count) {id : Value} (isId : id.IsId positions) :
    (∀ front, front <+: compilation.tables.terms → format.Holds (selection positions front) ∧
      energyById front id (some (.stored (.word format))) =
        .ok (.number (.ofWord format (selection positions front)))) ∧
    ∃ violations, problem.violationCount id = .ok violations ∧ selection positions compilation.tables.terms =
      violations * format.sentinel + selection positions compilation.tables.soft := by
  have tables := compilation.holdsWords isWord
  rw [counted] at tables
  obtain ⟨violations, counts, sum, small⟩ := compilation.exists_violations isWord counted within isId
  constructor
  · intro front part
    -- sums modulo two to the width are exact as soon as the exact ones fit, hence the bound on every prefix
    have bound := abs_selection_le_headroom small part
    rw [← compilation.hard_compiled.length_eq] at bound
    exact ⟨IntFormat.holds_of_abs_le signed (bound.trans fits),
      energyById_selection (fun term member => tables term (part.subset member)) isId within⟩
  · refine ⟨violations, counts, ?_⟩
    rw [← sum, Tables.terms, selection, List.map_append, List.sum_append]
    rfl

theorem undercuts (compilation : problem.Compilation) (isWord : compilation.kind = .stored (.word format))
    (signed : format.signed = true) (counted : problem.variableCount = count)
    (fits : format.headroom compilation.hard.length compilation.tables.soft ≤ format.greatest)
    (small : 2 * magnitudes compilation.tables.soft < format.sentinel) {left right : List Nat}
    (leftWithin : left ∈ Positions problem.flavorCount count) (rightWithin : right ∈ Positions problem.flavorCount count)
    {leftId rightId : Value} (isLeft : leftId.IsId left) (isRight : rightId.IsId right) {fewer more : Nat}
    (leftCounts : problem.violationCount leftId = .ok fewer) (rightCounts : problem.violationCount rightId = .ok more)
    (less : fewer < more) : Undercuts compilation.tables.terms (.stored (.word format)) leftId rightId := by
  obtain ⟨leftSums, _, counts, leftSum⟩ := compilation.exact_selection isWord signed counted fits leftWithin isLeft
  cases counts.symm.trans leftCounts
  obtain ⟨rightSums, _, counts, rightSum⟩ := compilation.exact_selection isWord signed counted fits rightWithin isRight
  cases counts.symm.trans rightCounts
  obtain ⟨leftHeld, low⟩ := leftSums _ (List.prefix_refl _)
  obtain ⟨rightHeld, high⟩ := rightSums _ (List.prefix_refl _)
  have below : selection left compilation.tables.terms < selection right compilation.tables.terms := by
    rw [leftSum, rightSum]
    exact violations_dominate less (abs_selection_le_magnitudes left _) (abs_selection_le_magnitudes right _) small
  exact ⟨_, _, low, high, (Value.less_ofWord leftHeld rightHeld).trans (congrArg Except.ok (decide_eq_true below))⟩

end Compilation

/-- Where a sentinel for every hard constraint and the greatest soft energies fit into a signed word, as they do with
    fewer hard constraints than a sentinel and soft energies of at most one, an evaluation keeps every sum on its way
    exact and ends with the violations in sentinels plus the soft energies. Where a sentinel is more than the soft
    energies can differ by, the id with fewer violations has less energy, hence a feasible one less than another. -/
theorem energyById_headroom {problem : Problem} {format : IntFormat} {terms : List Term} {count : Nat}
    (energyKind : problem.energyKind = .ok (.stored (.word format))) (signed : format.signed = true)
    (compiled : problem.energyTerms = .ok terms) (counted : problem.variableCount = count) :
    ∃ (hard : List HardConstraint) (hardTerms softTerms : List Term), problem.hardConstraints = .ok hard ∧
      terms = hardTerms ++ softTerms ∧ hardTerms.length = hard.length ∧
      (hard.length < format.sentinel → magnitudes softTerms ≤ format.sentinel →
        format.headroom hard.length softTerms ≤ format.greatest) ∧
      (format.headroom hard.length softTerms ≤ format.greatest →
        (∀ positions ∈ Positions problem.flavorCount count, ∀ id : Value, id.IsId positions →
          (∀ front, front <+: terms → format.Holds (selection positions front) ∧
            energyById front id (some (.stored (.word format))) =
              .ok (.number (.ofWord format (selection positions front)))) ∧
          ∃ violations, problem.violationCount id = .ok violations ∧
            selection positions terms = violations * format.sentinel + selection positions softTerms) ∧
        (2 * magnitudes softTerms < format.sentinel →
          ∀ left ∈ Positions problem.flavorCount count, ∀ right ∈ Positions problem.flavorCount count,
          ∀ leftId rightId : Value, leftId.IsId left → rightId.IsId right →
          (∀ fewer more, problem.violationCount leftId = .ok fewer → problem.violationCount rightId = .ok more →
            fewer < more → Undercuts terms (.stored (.word format)) leftId rightId) ∧
          ∀ feasible infeasible, problem.configurationOf leftId = .ok feasible →
            problem.configurationOf rightId = .ok infeasible → problem.isFeasible (.list feasible) = .ok true →
            problem.isFeasible (.list infeasible) = .ok false →
            Undercuts terms (.stored (.word format)) leftId rightId)) := by
  obtain ⟨compilation, rfl⟩ := exists_compilation_of_terms compiled
  have isWord : compilation.kind = .stored (.word format) :=
    Except.ok.inj (compilation.energyKind_eq.symm.trans energyKind)
  refine ⟨compilation.hard, compilation.tables.hard, compilation.tables.soft, compilation.hard_eq, rfl,
    compilation.hard_compiled.length_eq.symm, format.headroom_le_greatest, fun fits => ⟨?exact, ?dominates⟩⟩
  case exact =>
    intro positions within id isId
    exact compilation.exact_selection isWord signed counted fits within isId
  case dominates =>
    intro small left leftWithin right rightWithin leftId rightId isLeft isRight
    have undercuts : ∀ fewer more, problem.violationCount leftId = .ok fewer →
        problem.violationCount rightId = .ok more → fewer < more →
        Undercuts compilation.tables.terms (.stored (.word format)) leftId rightId := fun _ _ =>
      compilation.undercuts isWord signed counted fits small leftWithin rightWithin isLeft isRight
    refine ⟨undercuts, fun feasible infeasible leftDecoded rightDecoded leftTold rightTold => ?_⟩
    obtain ⟨none, leftCounts, leftFree⟩ := exists_violationCount_of_isFeasible leftDecoded leftTold
    obtain ⟨some, rightCounts, rightViolates⟩ := exists_violationCount_of_isFeasible rightDecoded rightTold
    have free : none = 0 := leftFree.1 rfl
    have violates : some ≠ 0 := fun noneViolated => Bool.false_ne_true (rightViolates.2 noneViolated)
    exact undercuts none some leftCounts rightCounts (by omega)

theorem energyById_headroom_ascending : ∃ terms, ascending.energyTerms = .ok terms ∧
    energyById terms (.list [.int 1, .int 3]) (some (.stored (.word .int64))) = .ok (.number (.ofWord .int64 3)) ∧
    Undercuts terms (.stored (.word .int64)) (.list [.int 1, .int 3]) (.list [.int 3, .int 1]) := by
  obtain ⟨terms, compiled, soft, sum⟩ : ∃ terms, ascending.energyTerms = .ok terms ∧
      magnitudes (terms.drop 1) = 3 ∧ selection [1, 3] terms = 3 := ⟨_, rfl, rfl, rfl⟩
  obtain ⟨hard, hardTerms, softTerms, hardFound, rfl, lengths, room, exact⟩ :=
    @energyById_headroom _ _ _ 2 rfl rfl compiled rfl
  have single : hard.length = 1 := by
    cases hardFound
    rfl
  rw [single] at room exact lengths
  rw [List.drop_left' lengths] at soft
  have sentinel : IntFormat.int64.sentinel = 3037000499 := by decide +kernel
  obtain ⟨sums, dominates⟩ := exact (room (by rw [sentinel]; decide) (by rw [sentinel, soft]; decide))
  have low : [1, 3] ∈ Positions ascending.flavorCount 2 := ⟨rfl, by decide⟩
  have high : [3, 1] ∈ Positions ascending.flavorCount 2 := ⟨rfl, by decide⟩
  have whole := (sums [1, 3] low _ (Value.isId_idOf _)).1 _ (List.prefix_refl _)
  rw [sum] at whole
  have undercuts := (dominates (by rw [sentinel, soft]; decide) _ low _ high _ _ (Value.isId_idOf _)
    (Value.isId_idOf _)).1 0 1 rfl rfl Nat.one_pos
  exact ⟨_, compiled, whole.2, undercuts⟩

end Problem

end EnergyTables
