import EnergyTables.Proofs.Evaluation.Refinement
import EnergyTables.Proofs.Search.Minimisers
import Mathlib.Data.Int.ModEq
import Mathlib.Tactic.Ring

namespace EnergyTables

open Flavor Constraint

theorem Word.val_wrap_modEq {format : IntFormat} (value : Int) :
    (Word.wrap format value).val ≡ value [ZMOD format.modulus] := format.reduce_emod value

theorem Number.ofWord_congr {format : IntFormat} {left right : Int} (same : left ≡ right [ZMOD format.modulus]) :
    ofWord format left = ofWord format right :=
  congrArg (word format) (Word.ext ((format.reduce_eq_reduce_iff left right).2 same))

/-- The constraint tells the assignments of flavors that it allows from the others. -/
def HardConstraint.Decides (flavors : List Value) (allowed : List Nat → Bool) (constraint : HardConstraint) : Prop :=
  ∀ positions ∈ Positions flavors.length constraint.scope.length,
    constraint.satisfied (.list (positions.map (ofPosition flavors))) = .ok (allowed positions)

def SoftConstraint.Costs (format : IntFormat) (flavors : List Value) (cost : List Nat → Int)
    (constraint : SoftConstraint) : Prop :=
  ∀ positions ∈ Positions flavors.length constraint.scope.length,
    constraint.tabled (.stored (.word format)) (positions.map (ofPosition flavors)) =
      .ok (.number (.ofWord format (cost positions)))

namespace Term

theorem exists_compile {scope : List Int} {flavors : List Value} {storage : Storage}
    {energy : List Value → Outcome Value}
    (found : ∀ positions ∈ Positions flavors.length scope.length, ∃ value,
      (do cell storage (← energy (positions.map (ofPosition flavors)))) = .ok value) :
    ∃ term, compile scope flavors storage energy = .ok term := by
  obtain ⟨energies, computed⟩ : ∃ energies, (List.range (flavors.length.pow scope.length)).mapM (fun address => do
      cell storage (← energy (assignment flavors scope.length address))) = .ok energies := by
    apply Outcome.exists_mapM
    intro address member
    obtain ⟨positions, within, rfl⟩ := exists_numeral_eq (List.mem_range.1 member)
    rw [assignment_numeral within]
    exact found positions within
  exact ⟨_, by rw [compile, computed]; rfl⟩

theorem cell_number (storage : Storage) (number : Number) : cell storage (.number number) = .ok (.number number) := by
  cases storage <;> rfl

theorem addReads_words {ι : Type} {format : IntFormat} {id : Value} {items : List ι} {terms : List Term}
    {word : ι → Int}
    (reads : List.Forall₂ (fun item (term : Term) => term.lookUp id = .ok (.number (.ofWord format (word item)))) items
      terms) (start : Int) : addReads id terms (.number (.ofWord format start)) =
        .ok (.number (.ofWord format (start + (items.map word).sum))) := by
  induction reads generalizing start with
  | nil => rw [List.map_nil, List.sum_nil, add_zero]; rfl
  | cons read _ ih =>
    rw [addReads_cons read, Value.add_ofWord, Outcome.ok_bind, ih, List.map_cons, List.sum_cons, add_assoc]

end Term

namespace Problem

/-- The meaning of the constraints of a problem over words. -/
structure Meaning (problem : Problem) (format : IntFormat) (count : Nat) where
  hard : List HardConstraint
  soft : List SoftConstraint
  allowed : HardConstraint → List Nat → Bool
  cost : SoftConstraint → List Nat → Int
  energyKind_eq : problem.energyKind = .ok (.stored (.word format))
  counted : problem.variableCount = count
  hard_eq : problem.hardConstraints = .ok hard
  soft_eq : problem.softConstraints = .ok soft
  hard_inside : ∀ constraint ∈ hard, ∀ index ∈ constraint.scope, 1 ≤ index ∧ index ≤ count
  soft_inside : ∀ constraint ∈ soft, ∀ index ∈ constraint.scope, 1 ≤ index ∧ index ≤ count
  decides : ∀ constraint ∈ hard, constraint.Decides problem.flavors (allowed constraint)
  costs : ∀ constraint ∈ soft, constraint.Costs format problem.flavors (cost constraint)

namespace Meaning

variable {problem : Problem} {format : IntFormat} {count : Nat}

def violations (meaning : problem.Meaning format count) (positions : List Nat) : Nat :=
  meaning.hard.countP fun constraint => !meaning.allowed constraint (localPositions constraint.scope positions)

def softCost (meaning : problem.Meaning format count) (positions : List Nat) : Int :=
  (meaning.soft.map fun constraint => meaning.cost constraint (localPositions constraint.scope positions)).sum

def energy (meaning : problem.Meaning format count) (positions : List Nat) : Int :=
  meaning.violations positions * format.sentinel + meaning.softCost positions

theorem exists_hardTerm (meaning : problem.Meaning format count) {constraint : HardConstraint}
    (member : constraint ∈ meaning.hard) :
    ∃ term, problem.hardTerm (.word format) (.number (.ofWord format 0)) (.number (.ofWord format format.sentinel))
      constraint = .ok term := by
  have inside := checkVariables_eq_ok_iff.2 (meaning.hard_inside constraint member)
  rw [hardTerm, meaning.counted, inside, Outcome.ok_bind]
  apply Term.exists_compile
  intro positions within
  rw [meaning.decides constraint member positions within, Outcome.ok_bind, Outcome.pure_eq_ok, Outcome.ok_bind]
  split
  · exact ⟨_, Term.cell_number _ _⟩
  · exact ⟨_, Term.cell_number _ _⟩

theorem exists_softTerm (meaning : problem.Meaning format count) {constraint : SoftConstraint}
    (member : constraint ∈ meaning.soft) :
    ∃ term, problem.softTerm (.stored (.word format)) constraint = .ok term := by
  have inside := checkVariables_eq_ok_iff.2 (meaning.soft_inside constraint member)
  rw [softTerm, meaning.counted, inside, Outcome.ok_bind]
  apply Term.exists_compile
  intro positions within
  have cost := meaning.costs constraint member positions within
  rw [SoftConstraint.tabled] at cost
  rw [cost, Outcome.ok_bind]
  exact ⟨_, Term.cell_number _ _⟩

theorem exists_tables (meaning : problem.Meaning format count) : ∃ tables, problem.tables = .ok tables := by
  obtain ⟨hard, hardCompiled⟩ := Outcome.exists_mapM fun _ => meaning.exists_hardTerm
  obtain ⟨soft, softCompiled⟩ := Outcome.exists_mapM fun _ => meaning.exists_softTerm
  refine ⟨⟨hard, soft⟩, ?_⟩
  rw [tables, meaning.energyKind_eq, Outcome.ok_bind, Kind.zero_word, Outcome.ok_bind, Kind.sentinel_word,
    Outcome.ok_bind, meaning.hard_eq, Outcome.ok_bind]
  simp only [Term.storageOf]
  rw [hardCompiled, Outcome.ok_bind, meaning.soft_eq, Outcome.ok_bind, softCompiled]
  rfl

theorem sum_violations (meaning : problem.Meaning format count) (positions : List Nat) :
    (meaning.hard.map fun constraint =>
      if meaning.allowed constraint (localPositions constraint.scope positions) then 0 else format.sentinel).sum =
      meaning.violations positions * format.sentinel := by
  rw [violations]
  induction meaning.hard with
  | nil => simp
  | cons constraint hard ih =>
    rw [List.map_cons, List.sum_cons, ih, List.countP_cons]
    cases meaning.allowed constraint (localPositions constraint.scope positions) with
    | true => simp
    | false => simp; ring

theorem hard_words (meaning : problem.Meaning format count) {terms : List Term} {id : Value} {positions : List Nat}
    (within : positions ∈ Positions problem.flavorCount count)
    (reads : List.Forall₂ (HardConstraint.Reads (.number (.ofWord format 0)) (.number (.ofWord format format.sentinel))
      (.list (positions.map (ofPosition problem.flavors))) id) meaning.hard terms) :
    List.Forall₂ (fun (constraint : HardConstraint) (term : Term) => term.lookUp id = .ok (.number (.ofWord format
      (if meaning.allowed constraint (localPositions constraint.scope positions) then 0 else format.sentinel))))
      meaning.hard terms := by
  apply Outcome.forall₂_imp_of_mem reads
  intro constraint member term read
  rcases read with ⟨values, satisfied, found, checked, read⟩
  have inside := meaning.hard_inside constraint member
  rw [localValues_eq_ok _ within inside] at found
  cases found
  rw [meaning.decides constraint member _ (localPositions_mem within inside)] at checked
  cases checked
  rw [read]
  split
  · rfl
  · rfl

theorem soft_words (meaning : problem.Meaning format count) {terms : List Term} {id : Value} {positions : List Nat}
    (within : positions ∈ Positions problem.flavorCount count)
    (reads : List.Forall₂ (SoftConstraint.Reads (.stored (.word format))
      (.list (positions.map (ofPosition problem.flavors))) id) meaning.soft terms) :
    List.Forall₂ (fun (constraint : SoftConstraint) (term : Term) => term.lookUp id = .ok (.number (.ofWord format
      (meaning.cost constraint (localPositions constraint.scope positions))))) meaning.soft terms := by
  apply Outcome.forall₂_imp_of_mem reads
  intro constraint member term read
  rcases read with ⟨value, energy, found, converts, _, read⟩
  have inside := meaning.soft_inside constraint member
  have cost := meaning.costs constraint member _ (localPositions_mem within inside)
  rw [localEnergy, localValues_eq_ok _ within inside, Outcome.ok_bind] at found
  rw [SoftConstraint.tabled, found, Outcome.ok_bind, converts] at cost
  rw [read, cost]

theorem compilation_eq (meaning : problem.Meaning format count) (compilation : problem.Compilation) :
    compilation.kind = .stored (.word format) ∧ compilation.zero = .number (.ofWord format 0) ∧
      compilation.sentinel = .number (.ofWord format format.sentinel) ∧ compilation.hard = meaning.hard ∧
      compilation.soft = meaning.soft := by
  have kind : compilation.kind = .stored (.word format) :=
    Except.ok.inj (compilation.energyKind_eq.symm.trans meaning.energyKind_eq)
  have isZero := compilation.zero_eq
  have isSentinel := compilation.sentinel_eq
  rw [kind, Kind.zero_word] at isZero
  rw [kind, Kind.sentinel_word] at isSentinel
  exact ⟨kind, (Except.ok.inj isZero).symm, (Except.ok.inj isSentinel).symm,
    Except.ok.inj (compilation.hard_eq.symm.trans meaning.hard_eq),
    Except.ok.inj (compilation.soft_eq.symm.trans meaning.soft_eq)⟩

theorem energyById_eq_ok (meaning : problem.Meaning format count) {tables : Tables}
    (compiled : problem.tables = .ok tables) {id : Value} {positions : List Nat}
    (within : positions ∈ Positions problem.flavorCount count) (isId : id.IsId positions) :
    energyById tables.terms id (some (.stored (.word format))) =
      .ok (.number (.ofWord format (meaning.energy positions))) := by
  obtain ⟨compilation, rfl⟩ := exists_compilation compiled
  obtain ⟨kind, zero, sentinel, hard, soft⟩ := meaning.compilation_eq compilation
  have hardReads := compilation.hard_reads meaning.counted within isId
  have softReads := compilation.soft_reads meaning.counted within isId
  rw [hard, zero, sentinel] at hardReads
  rw [soft, kind] at softReads
  rw [energyById_some id _ (Kind.zero_word format), Tables.terms, Term.addReads_append,
    Term.addReads_words (meaning.hard_words within hardReads), Outcome.ok_bind,
    Term.addReads_words (meaning.soft_words within softReads), sum_violations, zero_add]
  rfl

/-- A search finds the positions of least energy, each energy as the word that it leaves. -/
theorem findBest_eq_ok (meaning : problem.Meaning format count) {limit : Int}
    (countable : Countable problem.flavorCount count) (enough : (problem.flavorCount ^ count : Nat) ≤ limit) :
    problem.findBest (.int limit) =
      .ok ((Search.minimisers (fun positions => Word.wrap format (meaning.energy positions))
        (Search.enumeration problem.flavorCount count)).map (List.map (ofPosition problem.flavors))) := by
  obtain ⟨tables, compiled⟩ := meaning.exists_tables
  exact Problem.findBest_eq_ok (Number.comparable_word format) compiled meaning.energyKind_eq meaning.counted
    countable enough fun positions within => meaning.energyById_eq_ok compiled within (Value.isId_idOf positions)

end Meaning

end Problem

end EnergyTables
