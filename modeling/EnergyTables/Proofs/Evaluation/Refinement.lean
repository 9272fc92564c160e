import EnergyTables.Feasibility
import EnergyTables.Proofs.Codec

namespace EnergyTables

open Flavor

namespace Kind

inductive Tally : Kind → Value → Prop
  | word {format : IntFormat} (word : Word format) : Tally (.stored (.word format)) (.number (.word format word))
  | zero : Tally .fraction (.number (.ofExtended 0))
  | infinite : Tally .fraction (.number (.ofExtended ⊤))

theorem IsExact.tally_zero {kind : Kind} (exact : kind.IsExact) {zero : Value} (isZero : kind.zero = .ok zero) :
    kind.Tally zero := by
  cases exact with
  | word format =>
    cases (zero_word format).symm.trans isZero
    exact .word _
  | fraction =>
    cases zero_fraction.symm.trans isZero
    exact .zero

theorem Tally.holds {kind : Kind} {total : Value} (tally : kind.Tally total) : kind.Holds total := by
  cases tally with
  | word word => exact .word word
  | zero => exact Kind.holds_extended 0
  | infinite => exact .infinite

theorem Tally.add_zero {kind : Kind} {total zero : Value} (tally : kind.Tally total) (isZero : kind.zero = .ok zero) :
    total.add zero = .ok total := by
  cases tally with
  | word word =>
    cases (zero_word _).symm.trans isZero
    exact Value.add_word_zero word
  | zero =>
    cases zero_fraction.symm.trans isZero
    exact Value.extended_add_zero 0
  | infinite =>
    cases zero_fraction.symm.trans isZero
    exact Value.extended_add_zero ⊤

theorem Tally.add_sentinel {kind : Kind} {total sentinel : Value} (tally : kind.Tally total)
    (isSentinel : kind.sentinel = .ok sentinel) : ∃ next, total.add sentinel = .ok next ∧ kind.Tally next := by
  cases tally with
  | word word =>
    cases (sentinel_word _).symm.trans isSentinel
    exact ⟨_, Value.add_word _ _, .word _⟩
  | zero =>
    cases sentinel_fraction.symm.trans isSentinel
    refine ⟨_, (Value.fraction_add_top 0).trans ?_, .infinite⟩
    rw [Number.floatPart_zero.2]
    rfl
  | infinite =>
    cases sentinel_fraction.symm.trans isSentinel
    exact ⟨_, Value.top_add_top, .infinite⟩

end Kind

def Term.addReads (id : Value) (terms : List Term) (start : Value) : Outcome Value :=
  terms.foldlM (fun total term => do total.add (← term.lookUp id)) start

namespace Term

theorem addReads_cons {id energy : Value} {term : Term} (read : term.lookUp id = .ok energy) (terms : List Term)
    (start : Value) : addReads id (term :: terms) start = (do addReads id terms (← start.add energy)) := by
  rw [addReads, List.foldlM_cons, read, Outcome.ok_bind]
  rfl

theorem addReads_append (id : Value) (front back : List Term) (start : Value) :
    addReads id (front ++ back) start = (do addReads id back (← addReads id front start)) := List.foldlM_append

theorem holds_addReads {kind : Kind} {id start total : Value} {terms : List Term}
    (reads : ∀ term ∈ terms, ∃ energy, term.lookUp id = .ok energy ∧ kind.Holds energy) (held : kind.Holds start)
    (found : addReads id terms start = .ok total) : kind.Holds total := by
  induction terms generalizing start with
  | nil =>
    cases found
    exact held
  | cons term terms ih =>
    obtain ⟨⟨energy, read, energyHeld⟩, rest⟩ := List.forall_mem_cons.1 reads
    rw [addReads_cons read] at found
    obtain ⟨next, added, found⟩ := Outcome.bind_eq_ok_iff.1 found
    exact ih rest (held.add energyHeld added) found

theorem exists_addReads {format : IntFormat} {id start : Value} {terms : List Term}
    (reads : ∀ term ∈ terms, ∃ energy, term.lookUp id = .ok energy ∧ (Kind.stored (.word format)).Holds energy)
    (held : (Kind.stored (.word format)).Holds start) :
    ∃ total, addReads id terms start = .ok total ∧ (Kind.stored (.word format)).Holds total := by
  induction terms generalizing start with
  | nil => exact ⟨start, rfl, held⟩
  | cons term terms ih =>
    obtain ⟨⟨energy, read, energyHeld⟩, rest⟩ := List.forall_mem_cons.1 reads
    obtain ⟨next, added⟩ := held.exists_add energyHeld
    obtain ⟨total, found, totalHeld⟩ := ih rest (held.add energyHeld added)
    exact ⟨total, by rw [addReads_cons read, added]; exact found, totalHeld⟩

end Term

theorem energyById_some {kind : Kind} {zero : Value} (id : Value) (terms : List Term) (isZero : kind.zero = .ok zero) :
    energyById terms id (some kind) = Term.addReads id terms zero := by
  rw [energyById]
  simp only [isZero, Outcome.ok_bind]
  rfl

theorem energyById_none {kind : Kind} (exact : kind.IsExact) {id : Value} {terms : List Term} (some : terms ≠ [])
    (storage : ∀ term ∈ terms, term.storage = Term.storageOf kind)
    (reads : ∀ term ∈ terms, ∃ energy, term.lookUp id = .ok energy ∧ kind.Holds energy) :
    energyById terms id none = energyById terms id (.some kind) := by
  cases terms with
  | nil => exact absurd rfl some
  | cons term terms =>
    have stored := storage term (by simp)
    cases exact with
    | word format =>
      simp only [energyById, stored]
      rfl
    | fraction =>
      obtain ⟨energy, read, held⟩ := reads term (by simp)
      have start : (Kind.stored term.storage).zero = .ok (.int 0) := by rw [stored]; rfl
      have first : energyById (term :: terms) id none = Term.addReads id (term :: terms) (.int 0) := by
        simp only [energyById, start, Outcome.ok_bind]
        rfl
      rw [first, energyById_some id _ Kind.zero_fraction, Term.addReads_cons read, Term.addReads_cons read,
        held.int_zero_add]
      rfl

/-- What an id reads in the table of a hard constraint is what the constraint says of a configuration. -/
def HardConstraint.Reads (zero sentinel configuration id : Value) (constraint : HardConstraint) (term : Term) : Prop :=
  ∃ values satisfied, Constraint.localValues configuration constraint.scope = .ok values ∧
    constraint.satisfied (.list values) = .ok satisfied ∧
    term.lookUp id = .ok (if satisfied then zero else sentinel)

def SoftConstraint.Reads (kind : Kind) (configuration id : Value) (constraint : SoftConstraint) (term : Term) : Prop :=
  ∃ value energy, Problem.localEnergy configuration constraint = .ok value ∧ kind.convert value = .ok energy ∧
    Term.cell (Term.storageOf kind) energy = .ok energy ∧ term.lookUp id = .ok energy

namespace Problem

namespace Compilation

variable {problem : Problem} {count : Nat} {positions : List Nat} {id : Value}

theorem hard_reads (compilation : problem.Compilation) (counted : problem.variableCount = count)
    (within : positions ∈ Positions problem.flavorCount count) (isId : id.IsId positions) :
    List.Forall₂ (HardConstraint.Reads compilation.zero compilation.sentinel
      (.list (positions.map (ofPosition problem.flavors))) id) compilation.hard compilation.tables.hard := by
  apply compilation.hard_compiled.imp
  intro constraint term made
  obtain ⟨inside, tabulates⟩ := tabulates_of_hardTerm made
  rw [counted] at inside
  obtain ⟨energy, tabled, read⟩ := tabulates.of_cell.lookUp_eq_ok isId within inside
  obtain ⟨satisfied, checked, rfl⟩ := Outcome.map_eq_ok_iff.1 tabled
  exact ⟨_, satisfied, Constraint.localValues_eq_ok _ within inside, checked, read⟩

theorem soft_reads (compilation : problem.Compilation) (counted : problem.variableCount = count)
    (within : positions ∈ Positions problem.flavorCount count) (isId : id.IsId positions) :
    List.Forall₂ (SoftConstraint.Reads compilation.kind (.list (positions.map (ofPosition problem.flavors))) id)
      compilation.soft compilation.tables.soft := by
  apply compilation.soft_compiled.imp
  intro constraint term made
  obtain ⟨inside, tabulates⟩ := tabulates_of_softTerm made
  rw [counted] at inside
  obtain ⟨energy, tabled, read⟩ := tabulates.lookUp_eq_ok isId within inside
  obtain ⟨converted, tabled, kept⟩ := Outcome.bind_eq_ok_iff.1 tabled
  obtain rfl := Term.cell_eq_ok kept
  obtain ⟨value, found, converts⟩ := Outcome.bind_eq_ok_iff.1 tabled
  refine ⟨value, energy, ?_, converts, kept, read⟩
  rw [localEnergy, Constraint.localValues_eq_ok _ within inside]
  exact found

theorem hard_reads_of_kind (compilation : problem.Compilation) {kind : Kind} {zero sentinel : Value}
    (same : compilation.kind = kind) (isZero : kind.zero = .ok zero) (isSentinel : kind.sentinel = .ok sentinel)
    (counted : problem.variableCount = count) (within : positions ∈ Positions problem.flavorCount count)
    (isId : id.IsId positions) :
    List.Forall₂ (HardConstraint.Reads zero sentinel (.list (positions.map (ofPosition problem.flavors))) id)
      compilation.hard compilation.tables.hard := by
  subst same
  have reads := compilation.hard_reads counted within isId
  rwa [Except.ok.inj (compilation.zero_eq.symm.trans isZero),
    Except.ok.inj (compilation.sentinel_eq.symm.trans isSentinel)] at reads

theorem reads (compilation : problem.Compilation) (exact : compilation.kind.IsExact)
    (counted : problem.variableCount = count) (within : positions ∈ Positions problem.flavorCount count)
    (isId : id.IsId positions) :
    ∀ term ∈ compilation.tables.terms, ∃ energy, term.lookUp id = .ok energy ∧ compilation.kind.Holds energy := by
  intro term member
  rcases List.mem_append.1 member with member | member
  · obtain ⟨_, _, _, satisfied, _, _, read⟩ :=
      Outcome.exists_of_forall₂_right (compilation.hard_reads counted within isId) member
    refine ⟨_, read, ?_⟩
    cases satisfied with
    | true => exact (exact.tally_zero compilation.zero_eq).holds
    | false => exact exact.holds_sentinel compilation.sentinel_eq
  · obtain ⟨_, _, _, energy, _, converts, kept, read⟩ :=
      Outcome.exists_of_forall₂_right (compilation.soft_reads counted within isId) member
    exact ⟨energy, read, exact.holds_cell converts kept⟩

theorem storage_eq (compilation : problem.Compilation) :
    ∀ term ∈ compilation.tables.terms, term.storage = Term.storageOf compilation.kind := by
  intro term member
  rcases List.mem_append.1 member with member | member
  · obtain ⟨_, _, made⟩ := Outcome.exists_of_forall₂_right compilation.hard_compiled member
    exact (tabulates_of_hardTerm made).2.storage_eq
  · obtain ⟨_, _, made⟩ := Outcome.exists_of_forall₂_right compilation.soft_compiled member
    exact (tabulates_of_softTerm made).2.storage_eq

end Compilation

/-- An id reads the sentinel in the tables of violated constraints and zero in the others. -/
inductive Violates (zero sentinel id : Value) : List HardConstraint → List Term → Prop
  | nil : Violates zero sentinel id [] []
  | satisfied {term : Term} {violated : List HardConstraint} {terms : List Term} (read : term.lookUp id = .ok zero)
      (rest : Violates zero sentinel id violated terms) : Violates zero sentinel id violated (term :: terms)
  | violated {constraint : HardConstraint} {term : Term} {violated : List HardConstraint} {terms : List Term}
      (read : term.lookUp id = .ok sentinel) (rest : Violates zero sentinel id violated terms) :
      Violates zero sentinel id (constraint :: violated) (term :: terms)

theorem exists_violates {zero sentinel id configuration : Value} {hard : List HardConstraint} {terms : List Term}
    (reads : List.Forall₂ (HardConstraint.Reads zero sentinel configuration id) hard terms) :
    ∃ violated, keepViolated configuration hard = .ok violated ∧ Violates zero sentinel id violated terms := by
  induction reads with
  | nil => exact ⟨[], rfl, .nil⟩
  | @cons constraint term hard terms read _ ih =>
    rcases read with ⟨values, satisfied, found, checked, read⟩
    rcases ih with ⟨violated, kept, violates⟩
    cases satisfied with
    | true =>
      refine ⟨violated, ?_, .satisfied read violates⟩
      simp only [keepViolated, found, checked, Outcome.ok_bind, if_true, kept]
    | false =>
      refine ⟨constraint :: violated, ?_, .violated read violates⟩
      simp only [keepViolated, found, checked, Outcome.ok_bind, Bool.false_eq_true, if_false, kept,
        Outcome.pure_eq_ok]

theorem Violates.exists_total {kind : Kind} {zero sentinel id : Value} {violated : List HardConstraint}
    {terms : List Term} (isZero : kind.zero = .ok zero) (isSentinel : kind.sentinel = .ok sentinel)
    (violates : Violates zero sentinel id violated terms) {start : Value} (tally : kind.Tally start) :
    ∃ total, violated.foldlM (fun total _ => total.add sentinel) start = .ok total ∧
      Term.addReads id terms start = .ok total := by
  -- the start stays general: a violated constraint moves both sums on, a satisfied one neither
  induction violates generalizing start with
  | nil => exact ⟨start, rfl, rfl⟩
  | satisfied read _ ih =>
    obtain ⟨total, direct, tabled⟩ := ih tally
    refine ⟨total, direct, ?_⟩
    rw [Term.addReads_cons read, tally.add_zero isZero]
    exact tabled
  | violated read _ ih =>
    obtain ⟨next, added, tally⟩ := tally.add_sentinel isSentinel
    obtain ⟨total, direct, tabled⟩ := ih tally
    refine ⟨total, ?_, ?_⟩
    · rw [List.foldlM_cons, added]
      exact direct
    · rw [Term.addReads_cons read, added]
      exact tabled

theorem foldlM_localEnergy {kind : Kind} {configuration id : Value} {soft : List SoftConstraint} {terms : List Term}
    (reads : List.Forall₂ (SoftConstraint.Reads kind configuration id) soft terms) (start : Value) :
    soft.foldlM (fun (total : Value) constraint => do
      total.add (← kind.convert (← localEnergy configuration constraint))) start = Term.addReads id terms start := by
  refine Outcome.foldlM_congr (reads.imp fun constraint term read total => ?_) start
  rcases read with ⟨value, energy, found, converts, _, read⟩
  rw [found, Outcome.ok_bind, converts, Outcome.ok_bind, read, Outcome.ok_bind]

theorem Compilation.directEnergy_eq {problem : Problem} (compilation : problem.Compilation)
    (exact : compilation.kind.IsExact) {count : Nat} {positions : List Nat} {id : Value}
    (counted : problem.variableCount = count) (within : positions ∈ Positions problem.flavorCount count)
    (isId : id.IsId positions) :
    problem.directEnergy (.list (positions.map (ofPosition problem.flavors))) = (do
      let _ ← problem.configurationId (.list (positions.map (ofPosition problem.flavors)))
      Term.addReads id compilation.tables.terms compilation.zero) := by
  obtain ⟨violated, kept, violates⟩ := exists_violates (compilation.hard_reads counted within isId)
  obtain ⟨total, direct, tabled⟩ :=
    violates.exists_total compilation.zero_eq compilation.sentinel_eq (exact.tally_zero compilation.zero_eq)
  rw [directEnergy, compilation.energyKind_eq, Outcome.ok_bind, compilation.zero_eq, Outcome.ok_bind,
    compilation.sentinel_eq, Outcome.ok_bind, violatedConstraints]
  cases problem.configurationId (.list (positions.map (ofPosition problem.flavors))) with
  | error fault => rfl
  | ok known =>
    rw [Outcome.ok_bind, compilation.hard_eq, Outcome.ok_bind, kept, Outcome.ok_bind, direct, Outcome.ok_bind,
      compilation.soft_eq, Outcome.ok_bind, foldlM_localEnergy (compilation.soft_reads counted within isId), Outcome.ok_bind,
      Tables.terms, Term.addReads_append, tabled, Outcome.ok_bind]

theorem Compilation.exists_energy {problem : Problem} (compilation : problem.Compilation)
    (exact : compilation.kind.IsExact) {count : Nat} {positions : List Nat} {id : Value}
    (counted : problem.variableCount = count) (within : positions ∈ Positions problem.flavorCount count)
    (isId : id.IsId positions)
    (evaluates : compilation.kind = .fraction →
      ∃ energy, energyById compilation.tables.terms id (some compilation.kind) = .ok energy) :
    ∃ energy, energyById compilation.tables.terms id (some compilation.kind) = .ok energy ∧
      compilation.kind.Holds energy := by
  have reads := compilation.reads exact counted within isId
  have zeroHeld := (exact.tally_zero compilation.zero_eq).holds
  have tabled := energyById_some id compilation.tables.terms compilation.zero_eq
  cases kind : compilation.kind with
  | stored storage =>
    rw [kind] at exact
    cases exact
    rw [kind] at reads zeroHeld
    obtain ⟨energy, sums, held⟩ := Term.exists_addReads reads zeroHeld
    exact ⟨energy, by rw [← kind]; exact tabled.trans sums, held⟩
  | fraction =>
    rcases evaluates kind with ⟨energy, found⟩
    rw [← kind]
    exact ⟨energy, found, Term.holds_addReads reads zeroHeld (tabled.symm.trans found)⟩
  | _ =>
    rw [kind] at exact
    cases exact

/-- Evaluation by tables has the outcome of evaluation without them, unless that refuses the configuration: flavors that
    cannot be compared with each other stand in tables as others do, but have no position. For words there is always a
    word, and where there is a table the kind need not be given. -/
theorem energyById_eq_directEnergy {problem : Problem} {kind : Kind} {terms : List Term} {count : Nat}
    {positions : List Nat} {id : Value} (energyKind : problem.energyKind = .ok kind) (exact : kind.IsExact)
    (compiled : problem.energyTerms = .ok terms) (counted : problem.variableCount = count)
    (within : positions ∈ Positions problem.flavorCount count) (isId : id.IsId positions) :
    ∃ configuration, problem.configurationOf id = .ok configuration ∧
      problem.directEnergy (.list configuration) = (do
        let _ ← problem.configurationId (.list configuration)
        energyById terms id (some kind)) ∧
      ((∀ flavor ∈ problem.flavors, flavor.equal flavor = .ok true) →
        (∀ flavor ∈ problem.flavors, Answers problem.flavors flavor) →
          energyById terms id (some kind) = problem.directEnergy (.list configuration)) ∧
      (terms ≠ [] → energyById terms id none = energyById terms id (some kind)) ∧
      ∀ format, kind = .stored (.word format) →
        ∃ word : Word format, energyById terms id (some kind) = .ok (.number (.word format word)) := by
  obtain ⟨compilation, rfl⟩ := exists_compilation_of_terms compiled
  obtain rfl : compilation.kind = kind := Except.ok.inj (compilation.energyKind_eq.symm.trans energyKind)
  have direct := compilation.directEnergy_eq exact counted within isId
  have reads := compilation.reads exact counted within isId
  rw [← energyById_some id compilation.tables.terms compilation.zero_eq] at direct
  refine ⟨_, configurationOf_eq_ok isId within, direct, fun reflexive answer => ?_, fun some => ?_, fun format isWord => ?_⟩
  · obtain ⟨known, found⟩ := exists_configurationId counted within reflexive answer
    exact (direct.trans (by rw [found]; rfl)).symm
  · exact energyById_none exact some compilation.storage_eq reads
  · obtain ⟨energy, found, held⟩ := compilation.exists_energy exact counted within isId fun isFraction => by
      rw [isWord] at isFraction
      cases isFraction
    rw [isWord] at held
    cases held with
    | word word => exact ⟨word, found⟩

theorem energyById_eq_directEnergy_ascending : ∃ terms configuration, ascending.energyTerms = .ok terms ∧
    ascending.configurationOf (.list [.int 2, .int 1]) = .ok configuration ∧
    energyById terms (.list [.int 2, .int 1]) (some (.stored (.word .int64))) =
      ascending.directEnergy (.list configuration) ∧
    energyById terms (.list [.int 2, .int 1]) none = ascending.directEnergy (.list configuration) := by
  obtain ⟨terms, compiled⟩ : ∃ terms, ascending.energyTerms = .ok terms := ⟨_, rfl⟩
  have tabled : terms ≠ [] := by rintro rfl; cases compiled
  have isId : (Value.list [.int 2, .int 1]).IsId [2, 1] := .list [.int 2, .int 1]
  have within : [2, 1] ∈ Positions ascending.flavorCount 2 := ⟨rfl, by decide⟩
  obtain ⟨configuration, decoded, _, same, untyped, _⟩ :=
    energyById_eq_directEnergy rfl (.word .int64) compiled rfl within isId
  have same := same (reflexive_ints [1, 2, 3]) (answers_ints [1, 2, 3])
  exact ⟨terms, configuration, compiled, decoded, same, (untyped tabled).trans same⟩

/-- The table gives the second flavor the energy zero, and the direct evaluation refuses it. -/
theorem exists_directEnergy_refused : ∃ terms configuration, incomparable.problem.energyTerms = .ok terms ∧
    incomparable.problem.energyKind = .ok (.stored (.word .int64)) ∧
    (∀ flavor ∈ incomparable.problem.flavors, flavor.equal flavor = .ok true) ∧
    incomparable.problem.configurationOf (.list [.int 2]) = .ok configuration ∧
    energyById terms (.list [.int 2]) (some (.stored (.word .int64))) = .ok (.number (.ofWord .int64 0)) ∧
    incomparable.problem.directEnergy (.list configuration) = .error .invalid := by
  refine ⟨_, _, rfl, rfl, ?_, rfl, rfl, rfl⟩
  exact List.forall_mem_cons.2 ⟨rfl, List.forall_mem_cons.2 ⟨rfl, List.forall_mem_nil _⟩⟩

end Problem

end EnergyTables
