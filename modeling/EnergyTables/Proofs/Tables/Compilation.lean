import EnergyTables.Proofs.Outcome
import EnergyTables.Proofs.Tables.Addressing
import EnergyTables.Proofs.Value.Energies

namespace EnergyTables

open Flavor

namespace Constraint

theorem checkVariables_eq_ok_iff {variableCount : Int} {scope : List Int} :
    checkVariables variableCount scope = .ok () ↔ ∀ index ∈ scope, 1 ≤ index ∧ index ≤ variableCount := by
  induction scope with
  | nil => simp [checkVariables]
  | cons index scope ih =>
    simp only [checkVariables, List.forM_eq_forM] at ih
    by_cases inside : 1 ≤ index ∧ index ≤ variableCount
    · simp [checkVariables, List.forM_cons, inside, ih]
    · simp [checkVariables, List.forM_cons, inside]

end Constraint

namespace Term

/-- A table over a scope that holds the energy of every assignment of flavors at its strided address. -/
structure Tabulates (term : Term) (scope : List Int) (flavors : List Value) (storage : Storage)
    (energy : List Value → Outcome Value) : Prop where
  scope_eq : term.scope = scope
  flavors_eq : term.flavors = flavors
  storage_eq : term.storage = storage
  strides_eq : term.strides = (List.range scope.length).map fun index => (flavors.length : Int) ^ index
  size_eq : term.energies.size = flavors.length ^ scope.length
  entry : ∀ positions ∈ Positions flavors.length scope.length,
    ∃ value, energy (positions.map (ofPosition flavors)) = .ok value ∧
      term.energies[(strided term.strides positions).toNat]? = some value

theorem powers_eq_map_pow (flavorCount arity : Nat) :
    powers flavorCount arity = (List.range arity).map fun index => (flavorCount : Int) ^ index := by
  apply List.map_congr_left
  intro index _
  simp

theorem cell_eq_ok {storage : Storage} {value kept : Value} (found : cell storage value = .ok kept) :
    kept = value := by
  unfold cell at found
  split at found
  · cases found; rfl
  · cases found
  · cases found
  · cases found; rfl

theorem tabulates_of_compile {scope : List Int} {flavors : List Value} {storage : Storage}
    {energy : List Value → Outcome Value} {term : Term} (compiled : compile scope flavors storage energy = .ok term) :
    term.Tabulates scope flavors storage (fun values => do cell storage (← energy values)) := by
  obtain ⟨entries, computed, same⟩ := Outcome.bind_eq_ok_iff.1 compiled
  cases same
  obtain ⟨count, each⟩ := List.forall₂_iff_get.1 (Outcome.mapM_eq_ok_iff.1 computed)
  simp only [List.length_range, Nat.pow_eq] at count
  refine ⟨rfl, rfl, rfl, powers_eq_map_pow _ _, by simpa using count.symm, fun positions within => ?_⟩
  have bound : numeral flavors.length positions < entries.length := count ▸ numeral_lt within
  have found := each (numeral flavors.length positions) (by simpa [count] using bound) bound
  simp only [List.get_eq_getElem, List.getElem_range, assignment_numeral within] at found
  refine ⟨_, found, ?_⟩
  rw [strided_powers within, Int.toNat_natCast]
  simp [bound]

theorem Tabulates.of_cell {term : Term} {scope : List Int} {flavors : List Value} {storage : Storage}
    {energy : List Value → Outcome Value}
    (tabulates : term.Tabulates scope flavors storage (fun values => do cell storage (← energy values))) :
    term.Tabulates scope flavors storage energy := by
  refine { tabulates with entry := fun positions within => ?_ }
  rcases tabulates.entry positions within with ⟨value, computed, stored⟩
  obtain ⟨kept, found, taken⟩ := Outcome.bind_eq_ok_iff.1 computed
  obtain rfl := cell_eq_ok taken
  exact ⟨value, found, stored⟩

theorem Tabulates.bijOn {term : Term} {scope : List Int} {flavors : List Value} {storage : Storage}
    {energy : List Value → Outcome Value} (tabulates : term.Tabulates scope flavors storage energy) :
    Set.BijOn (strided term.strides) (Positions flavors.length term.scope.length)
      (Set.Ico 0 ((flavors.length : Int) ^ term.scope.length)) := by
  have bijOn := strided_bijOn flavors.length scope.length
  rw [powers_eq_map_pow] at bijOn
  rw [tabulates.strides_eq, tabulates.scope_eq]
  exact bijOn

end Term

def HardConstraint.tabled (zero sentinel : Value) (constraint : HardConstraint) (values : List Value) :
    Outcome Value := do
  return if ← constraint.satisfied (.list values) then zero else sentinel

def SoftConstraint.tabled (kind : Kind) (constraint : SoftConstraint) (values : List Value) : Outcome Value := do
  kind.convert (← constraint.energy (.list values))

namespace Problem

/-- All that compiling a problem finds, with what makes its tables. -/
structure Compilation (problem : Problem) where
  kind : Kind
  zero : Value
  sentinel : Value
  hard : List HardConstraint
  soft : List SoftConstraint
  tables : Tables
  energyKind_eq : problem.energyKind = .ok kind
  zero_eq : kind.zero = .ok zero
  sentinel_eq : kind.sentinel = .ok sentinel
  hard_eq : problem.hardConstraints = .ok hard
  soft_eq : problem.softConstraints = .ok soft
  hard_compiled : List.Forall₂ (fun constraint term =>
    problem.hardTerm (Term.storageOf kind) zero sentinel constraint = .ok term) hard tables.hard
  soft_compiled : List.Forall₂ (fun constraint term => problem.softTerm kind constraint = .ok term) soft tables.soft

theorem exists_compilation {problem : Problem} {tables : Tables} (compiled : problem.tables = .ok tables) :
    ∃ compilation : problem.Compilation, compilation.tables = tables := by
  obtain ⟨kind, energyKind, rest⟩ := Outcome.bind_eq_ok_iff.1 compiled
  obtain ⟨zero, isZero, rest⟩ := Outcome.bind_eq_ok_iff.1 rest
  obtain ⟨sentinel, isSentinel, rest⟩ := Outcome.bind_eq_ok_iff.1 rest
  obtain ⟨hard, hardFound, rest⟩ := Outcome.bind_eq_ok_iff.1 rest
  obtain ⟨hardTerms, hardCompiled, rest⟩ := Outcome.bind_eq_ok_iff.1 rest
  obtain ⟨soft, softFound, rest⟩ := Outcome.bind_eq_ok_iff.1 rest
  obtain ⟨softTerms, softCompiled, rest⟩ := Outcome.bind_eq_ok_iff.1 rest
  exact ⟨⟨kind, zero, sentinel, hard, soft, tables, energyKind, isZero, isSentinel, hardFound, softFound,
    by cases rest; exact Outcome.mapM_eq_ok_iff.1 hardCompiled,
    by cases rest; exact Outcome.mapM_eq_ok_iff.1 softCompiled⟩, rfl⟩

theorem tabulates_of_hardTerm {problem : Problem} {storage : Storage} {zero sentinel : Value}
    {constraint : HardConstraint} {term : Term}
    (compiled : problem.hardTerm storage zero sentinel constraint = .ok term) :
    (∀ index ∈ constraint.scope, 1 ≤ index ∧ index ≤ problem.variableCount) ∧
      term.Tabulates constraint.scope problem.flavors storage
        (fun values => do Term.cell storage (← constraint.tabled zero sentinel values)) := by
  obtain ⟨_, inside, compiled⟩ := Outcome.bind_eq_ok_iff.1 compiled
  exact ⟨Constraint.checkVariables_eq_ok_iff.1 inside, Term.tabulates_of_compile compiled⟩

theorem tabulates_of_softTerm {problem : Problem} {kind : Kind} {constraint : SoftConstraint} {term : Term}
    (compiled : problem.softTerm kind constraint = .ok term) :
    (∀ index ∈ constraint.scope, 1 ≤ index ∧ index ≤ problem.variableCount) ∧
      term.Tabulates constraint.scope problem.flavors (Term.storageOf kind)
        (fun values => do Term.cell (Term.storageOf kind) (← constraint.tabled kind values)) := by
  obtain ⟨_, inside, compiled⟩ := Outcome.bind_eq_ok_iff.1 compiled
  exact ⟨Constraint.checkVariables_eq_ok_iff.1 inside, Term.tabulates_of_compile compiled⟩

theorem exists_compilation_of_terms {problem : Problem} {terms : List Term}
    (compiled : problem.energyTerms = .ok terms) :
    ∃ compilation : problem.Compilation, compilation.tables.hard ++ compilation.tables.soft = terms := by
  obtain ⟨tables, found, same⟩ := Outcome.map_eq_ok_iff.1 compiled
  obtain ⟨compilation, rfl⟩ := exists_compilation found
  exact ⟨compilation, same⟩

/-- A problem that compiles has a table for every constraint, the hard ones first, and each holds the energy of every
    assignment at its strided address, which is the address of no other assignment. -/
theorem energyTerms_tabulate {problem : Problem} {terms : List Term} (compiled : problem.energyTerms = .ok terms) :
    ∃ kind zero sentinel hard soft hardTerms softTerms,
      problem.energyKind = .ok kind ∧ kind.convert (.int 0) = .ok zero ∧ kind.sentinel = .ok sentinel ∧
      problem.hardConstraints = .ok hard ∧ problem.softConstraints = .ok soft ∧ terms = hardTerms ++ softTerms ∧
      List.Forall₂ (fun constraint term => term.Tabulates constraint.scope problem.flavors (Term.storageOf kind)
        (constraint.tabled zero sentinel)) hard hardTerms ∧
      List.Forall₂ (fun constraint term => term.Tabulates constraint.scope problem.flavors (Term.storageOf kind)
        (constraint.tabled kind)) soft softTerms ∧
      ∀ term ∈ terms, Set.BijOn (Term.strided term.strides) (Positions problem.flavorCount term.scope.length)
        (Set.Ico 0 ((problem.flavorCount : Int) ^ term.scope.length)) := by
  obtain ⟨compilation, rfl⟩ := exists_compilation_of_terms compiled
  have hard := compilation.hard_compiled.imp fun _ _ made => (tabulates_of_hardTerm made).2.of_cell
  have soft := compilation.soft_compiled.imp fun _ _ made => (tabulates_of_softTerm made).2.of_cell
  refine ⟨compilation.kind, compilation.zero, compilation.sentinel, compilation.hard, compilation.soft, _, _,
    compilation.energyKind_eq, ?_, compilation.sentinel_eq, compilation.hard_eq, compilation.soft_eq, rfl, hard, soft,
    ?_⟩
  · rw [← Kind.zero_eq_convert]
    exact compilation.zero_eq
  · intro term member
    rcases List.mem_append.1 member with member | member
    · obtain ⟨_, _, tabulates⟩ := Outcome.exists_of_forall₂_right hard member
      exact tabulates.bijOn
    · obtain ⟨_, _, tabulates⟩ := Outcome.exists_of_forall₂_right soft member
      exact tabulates.bijOn

def ascending : Problem where
  className := "Ascending"
  sense := .minimize
  variableCount := 2
  flavors := [.int 1, .int 2, .int 3]
  weights? := none
  size := .error .absentPart
  hardConstraints := .ok [⟨[1, 2], "ascend", fun values => do (← values.itemAt 0).less (← values.itemAt 1)⟩]
  softConstraints := .ok [⟨[2], "height", .int 1, fun values => values.itemAt 0⟩]

theorem energyTerms_tabulate_ascending : ∃ terms, ascending.energyTerms = .ok terms ∧ terms.length = 2 ∧
    ∀ term ∈ terms, Set.BijOn (Term.strided term.strides) (Positions 3 term.scope.length)
      (Set.Ico 0 ((3 : Int) ^ term.scope.length)) := by
  obtain ⟨terms, compiled⟩ : ∃ terms, ascending.energyTerms = .ok terms := ⟨_, rfl⟩
  obtain ⟨_, _, _, hard, soft, hardTerms, softTerms, _, _, _, hardFound, softFound, rfl, hardTables, softTables,
    addresses⟩ := energyTerms_tabulate compiled
  refine ⟨_, compiled, ?_, addresses⟩
  cases hardFound
  cases softFound
  rw [List.length_append, ← hardTables.length_eq, ← softTables.length_eq]
  rfl

end Problem

end EnergyTables
