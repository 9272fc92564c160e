import EnergyTables.Proofs.Search.BestConfigurations

namespace EnergyTables

open Flavor

def Search.costOf {ι : Type} (feasible : ι → Bool) (total : ι → Rat) (item : ι) : WithTop Rat :=
  if feasible item then total item else ⊤

namespace Problem

def softEnergy (configuration : Value) (constraint : SoftConstraint) : Outcome Rat := do
  let energy ← (← localEnergy configuration constraint).toFraction
  return energy.exactRe.toRat?.getD 0

def softTotal (problem : Problem) (configuration : Value) : Outcome Rat := do
  return (← (← problem.softConstraints).mapM (softEnergy configuration)).sum

def meetsHard (problem : Problem) (configuration : Value) : Outcome Bool := do
  return (← keepViolated configuration (← problem.hardConstraints)).isEmpty

def configurationAt (problem : Problem) (positions : List Nat) : Value :=
  .list (positions.map (ofPosition problem.flavors))

/-- No soft energy of a configuration over the flavors is a word, or a fraction with one for a numerator. -/
def WordFree (problem : Problem) : Prop :=
  ∀ soft, problem.softConstraints = .ok soft → ∀ constraint ∈ soft,
    ∀ positions ∈ Positions problem.flavorCount problem.variableCount.toNat, ∀ energy,
      localEnergy (problem.configurationAt positions) constraint = .ok (.number energy) → energy.holdsWord = false

/-- Over the hard constraints a sum of fractions stays, or becomes infinite for one that is violated. -/
theorem Violates.total_eq {id total : Value} {violated : List HardConstraint} {terms : List Term}
    (violates : Violates (.number (.ofExtended 0)) (.number (.ofExtended ⊤)) id violated terms) {start : WithTop Rat}
    (found : Term.addReads id terms (.number (.ofExtended start)) = .ok total) :
    total = .number (.ofExtended (if violated.isEmpty then start else ⊤)) := by
  induction violates generalizing start with
  | nil =>
    cases found
    rfl
  | satisfied read _ ih =>
    rw [Term.addReads_cons read] at found
    obtain ⟨next, added, found⟩ := Outcome.bind_eq_ok_iff.1 found
    obtain rfl := Value.add_extended added
    rw [ih found, add_zero]
  | violated read _ ih =>
    rw [Term.addReads_cons read] at found
    obtain ⟨next, added, found⟩ := Outcome.bind_eq_ok_iff.1 found
    obtain rfl := Value.add_extended added
    rw [ih found, add_top, ite_self]
    rfl

theorem addReads_soft {id configuration total : Value} {soft : List SoftConstraint} {terms : List Term}
    (reads : List.Forall₂ (SoftConstraint.Reads .fraction configuration id) soft terms)
    (wordFree : ∀ constraint ∈ soft, ∀ energy, localEnergy configuration constraint = .ok (.number energy) →
      energy.holdsWord = false) {start : WithTop Rat}
    (found : Term.addReads id terms (.number (.ofExtended start)) = .ok total) :
    ∃ energies, soft.mapM (softEnergy configuration) = .ok energies ∧
      total = .number (.ofExtended (start + (energies.sum : Rat))) := by
  induction reads generalizing start with
  | nil =>
    cases found
    exact ⟨[], rfl, by simp⟩
  | @cons constraint term soft terms read _ ih =>
    obtain ⟨firstFree, restFree⟩ := List.forall_mem_cons.1 wordFree
    obtain ⟨value, energy, computed, converts, _, read⟩ := read
    obtain ⟨number, exact, rfl⟩ := Outcome.map_eq_ok_iff.1 converts
    obtain ⟨rational, rfl⟩ := Kind.exists_fraction_of_holdsWord exact fun given same => firstFree given (same ▸ computed)
    have known : softEnergy configuration constraint = .ok rational := by
      rw [softEnergy, computed, Outcome.ok_bind, exact]
      rfl
    rw [Term.addReads_cons read] at found
    obtain ⟨next, added, found⟩ := Outcome.bind_eq_ok_iff.1 found
    obtain rfl : next = .number (.ofExtended (start + (rational : WithTop Rat))) := Value.add_extended added
    obtain ⟨energies, rest, rfl⟩ := ih restFree found
    refine ⟨rational :: energies, ?_, ?_⟩
    · simp only [List.mapM_cons, known, rest, Outcome.ok_bind, Outcome.pure_eq_ok]
    · rw [List.sum_cons, WithTop.coe_add, add_assoc]

/-- An evaluation over fractions that gives a result gives the exact soft energies, or infinity for a violation. -/
theorem Compilation.exists_extended {problem : Problem} (compilation : problem.Compilation)
    (isFraction : compilation.kind = .fraction) (wordFree : problem.WordFree) {count : Nat}
    (counted : problem.variableCount = count) {positions : List Nat}
    (within : positions ∈ Positions problem.flavorCount count) {energy : Value}
    (found : energyById compilation.tables.terms (.idOf positions) (some .fraction) = .ok energy) :
    ∃ (feasible : Bool) (total : Rat), problem.meetsHard (problem.configurationAt positions) = .ok feasible ∧
      problem.softTotal (problem.configurationAt positions) = .ok total ∧
      energy = .number (.ofExtended (if feasible then total else ⊤)) := by
  have hardReads := compilation.hard_reads_of_kind isFraction Kind.zero_fraction Kind.sentinel_fraction counted within
    (Value.isId_idOf positions)
  have softReads := compilation.soft_reads counted within (Value.isId_idOf positions)
  have softFree := fun constraint member =>
    wordFree _ compilation.soft_eq constraint member positions (by rwa [counted, Int.toNat_natCast])
  rw [isFraction] at softReads
  rw [energyById_some _ _ Kind.zero_fraction, Tables.terms, Term.addReads_append] at found
  obtain ⟨subtotal, hardFound, softFound⟩ := Outcome.bind_eq_ok_iff.1 found
  obtain ⟨violated, kept, violates⟩ := exists_violates hardReads
  obtain rfl := violates.total_eq hardFound
  obtain ⟨energies, computed, rfl⟩ := addReads_soft softReads softFree softFound
  refine ⟨violated.isEmpty, energies.sum, ?_, ?_, ?_⟩
  · rw [meetsHard, compilation.hard_eq, Outcome.ok_bind, configurationAt, kept]
    rfl
  · rw [softTotal, compilation.soft_eq, Outcome.ok_bind, configurationAt, computed]
    rfl
  · cases violated with
    | nil =>
      rw [List.isEmpty_nil, if_pos rfl, if_pos rfl, zero_add]
    | cons => rfl

/-- Where the flavors can be compared, a configuration over them is feasible exactly where it meets the constraints. -/
theorem isFeasible_configurationAt {problem : Problem} {count : Nat} (counted : problem.variableCount = count)
    (reflexive : ∀ flavor ∈ problem.flavors, flavor.equal flavor = .ok true)
    (answer : ∀ flavor ∈ problem.flavors, Answers problem.flavors flavor) {positions : List Nat}
    (within : positions ∈ Positions problem.flavorCount count) :
    problem.isFeasible (problem.configurationAt positions) = problem.meetsHard (problem.configurationAt positions) := by
  obtain ⟨known, encoded⟩ := exists_configurationId counted within reflexive answer
  rw [isFeasible, violatedConstraints, meetsHard, configurationAt, encoded, Outcome.ok_bind]
  cases problem.hardConstraints <;> rfl

end Problem

namespace Search

theorem mem_minimisers_feasible {ι : Type} {items : List ι} {feasible : ι → Bool} {total : ι → Rat}
    (some : ∃ item ∈ items, feasible item) (item : ι) :
    item ∈ minimisers (costOf feasible total) items ↔
      item ∈ items ∧ feasible item ∧ ∀ other ∈ items, feasible other → total item ≤ total other := by
  rw [mem_minimisers]
  apply and_congr_right
  intro member
  constructor
  · intro least
    -- an infinite cost would have to be at most that of the feasible item
    have finite : feasible item := by
      obtain ⟨free, freeMember, isFree⟩ := some
      by_contra infeasible
      have below := least free freeMember
      rw [costOf, costOf, if_neg infeasible, if_pos isFree] at below
      exact absurd (top_le_iff.1 below) WithTop.coe_ne_top
    refine ⟨finite, fun other otherMember otherFinite => ?_⟩
    have below := least other otherMember
    rw [costOf, costOf, if_pos finite, if_pos otherFinite] at below
    exact WithTop.coe_le_coe.1 below
  · rintro ⟨finite, least⟩ other otherMember
    rw [costOf, costOf, if_pos finite]
    by_cases otherFinite : feasible other
    · rw [if_pos otherFinite]
      exact WithTop.coe_le_coe.2 (least other otherMember otherFinite)
    · rw [if_neg otherFinite]
      exact le_top

theorem minimisers_infeasible {ι : Type} {items : List ι} {feasible : ι → Bool} {total : ι → Rat}
    (none : ∀ item ∈ items, ¬ feasible item) :
    minimisers (costOf feasible total) items = items := by
  apply List.filter_eq_self.2
  intro item _
  apply decide_eq_true
  intro other member
  rw [costOf, costOf, if_neg (none other member)]
  exact le_top

theorem exists_energy_of_best {energy : Value → Outcome Value} {ids : List Value} {result : Best}
    (searched : best energy ids = .ok result) : ∀ id ∈ ids, ∃ value, energy id = .ok value := by
  unfold best at searched
  generalize (⟨none, []⟩ : Best) = start at searched
  induction ids generalizing start with
  | nil => simp
  | cons id ids ih =>
    rw [List.foldlM_cons] at searched
    obtain ⟨next, improved, rest⟩ := Outcome.bind_eq_ok_iff.1 searched
    obtain ⟨value, found, _⟩ := Outcome.bind_eq_ok_iff.1 improved
    exact List.forall_mem_cons.2 ⟨⟨value, found⟩, ih next rest⟩

end Search

namespace Problem

theorem exists_of_findBest {problem : Problem} {kind : Kind} {limit : Value} {configurations : List (List Value)}
    (energyKind : problem.energyKind = .ok kind) (found : problem.findBest limit = .ok configurations) :
    ∃ (count : Nat) (tables : Tables) (best : Search.Best), problem.variableCount = count ∧
      problem.tables = .ok tables ∧
      Search.best (energyById tables.terms · (some kind)) problem.allIds = .ok best ∧
      best.ids.reverse.mapM problem.configurationOf = .ok configurations := by
  obtain ⟨result, searched, rfl⟩ := Outcome.map_eq_ok_iff.1 found
  obtain ⟨states, checked, searched⟩ := Outcome.bind_eq_ok_iff.1 searched
  obtain ⟨tables, compiled, searched⟩ := Outcome.bind_eq_ok_iff.1 searched
  obtain ⟨kind', known, searched⟩ := Outcome.bind_eq_ok_iff.1 searched
  obtain ⟨best, went, searched⟩ := Outcome.bind_eq_ok_iff.1 searched
  obtain ⟨configurations, decoded, same⟩ := Outcome.bind_eq_ok_iff.1 searched
  cases same
  cases energyKind.symm.trans known
  have counted : 0 ≤ problem.variableCount := by
    obtain ⟨_, _, checked⟩ := Outcome.bind_eq_ok_iff.1 checked
    obtain ⟨many, _, checked⟩ := Outcome.bind_eq_ok_iff.1 checked
    by_contra negative
    rw [if_pos (Int.not_le.1 negative)] at checked
    cases many <;> cases checked
  obtain ⟨count, counted⟩ := Int.eq_ofNat_of_zero_le counted
  exact ⟨count, tables, best, counted, compiled, went, decoded⟩

/-- Over fractions a search that gives an answer, whatever its limit, gives the feasible configurations whose exact
    soft energies are least among those of the feasible ones; where there is none it gives all configurations. A word
    among the soft energies would do its sums in its own format. -/
theorem findBest_feasible {problem : Problem} {limit : Value} {configurations : List (List Value)}
    (energyKind : problem.energyKind = .ok .fraction) (wordFree : problem.WordFree)
    (found : problem.findBest limit = .ok configurations) :
    ∃ (count : Nat) (feasible : List Nat → Bool) (total : List Nat → Rat) (best : List (List Nat)),
      problem.variableCount = count ∧
      (∀ positions ∈ Positions problem.flavorCount count,
        problem.meetsHard (problem.configurationAt positions) = .ok (feasible positions) ∧
        problem.softTotal (problem.configurationAt positions) = .ok (total positions)) ∧
      ((∀ flavor ∈ problem.flavors, flavor.equal flavor = .ok true) →
        (∀ flavor ∈ problem.flavors, Answers problem.flavors flavor) →
        ∀ positions ∈ Positions problem.flavorCount count,
          problem.isFeasible (problem.configurationAt positions) = .ok (feasible positions)) ∧
      best.Pairwise (· < ·) ∧ configurations = best.map (List.map (ofPosition problem.flavors)) ∧
      ((∃ positions ∈ Positions problem.flavorCount count, feasible positions) → ∀ positions, positions ∈ best ↔
        positions ∈ Positions problem.flavorCount count ∧ feasible positions ∧
          ∀ others ∈ Positions problem.flavorCount count, feasible others → total positions ≤ total others) ∧
      ((¬ ∃ positions ∈ Positions problem.flavorCount count, feasible positions) →
        (∀ positions, positions ∈ best ↔ positions ∈ Positions problem.flavorCount count) ∧
        configurations.length = problem.flavorCount ^ count) := by
  obtain ⟨count, tables, best, counted, tabled, searched, decoded⟩ := exists_of_findBest energyKind found
  obtain ⟨compilation, rfl⟩ := exists_compilation tabled
  have isFraction : compilation.kind = .fraction :=
    Except.ok.inj (compilation.energyKind_eq.symm.trans energyKind)
  have extended : ∀ positions ∈ Positions problem.flavorCount count, ∃ (feasible : Bool) (total : Rat),
      (problem.meetsHard (problem.configurationAt positions) = .ok feasible ∧
        problem.softTotal (problem.configurationAt positions) = .ok total) ∧
      energyById compilation.tables.terms (.idOf positions) (some .fraction) =
        .ok (.number (.ofExtended (if feasible then total else ⊤))) := by
    intro positions within
    have listed : Value.idOf positions ∈ problem.allIds := by
      rw [allIds_eq counted]
      exact List.mem_map_of_mem (Search.mem_enumeration.2 within)
    obtain ⟨energy, evaluated⟩ := Search.exists_energy_of_best searched _ listed
    obtain ⟨feasible, total, told, summed, rfl⟩ :=
      compilation.exists_extended isFraction wordFree counted within evaluated
    exact ⟨feasible, total, ⟨told, summed⟩, evaluated⟩
  choose! feasible total meaning energies using extended
  obtain ⟨_, again, minimal⟩ :=
    @exists_best _ _ _ Number.comparable_ofExtended _ _ _ _ (Search.costOf feasible total) counted energies
  cases again.symm.trans searched
  cases minimal.symm.trans decoded
  refine ⟨count, feasible, total,
    Search.minimisers (Search.costOf feasible total) (Search.enumeration problem.flavorCount count), counted, meaning,
    ?told, (Search.enumeration_increases _ _).filter _, rfl, ?least, ?all⟩
  case told =>
    intro reflexive answer positions within
    rw [isFeasible_configurationAt counted reflexive answer within, (meaning positions within).1]
  case least =>
    rintro ⟨free, within, isFree⟩ positions
    rw [Search.mem_minimisers_feasible ⟨free, Search.mem_enumeration.2 within, isFree⟩ positions]
    simp only [Search.mem_enumeration]
  case all =>
    intro none
    have infeasible : ∀ positions ∈ Search.enumeration problem.flavorCount count, ¬ feasible positions :=
      fun positions member isFree => none ⟨positions, Search.mem_enumeration.1 member, isFree⟩
    rw [Search.minimisers_infeasible infeasible, List.length_map, Search.length_enumeration]
    exact ⟨fun positions => Search.mem_enumeration, rfl⟩

def twoItems (first second : Number) (take : Bool) : Problem where
  className := "TwoItems"
  sense := .minimize
  variableCount := 2
  flavors := [.int 0, .int 1]
  weights? := some (.list [.number first, .number second])
  size := .error .absentPart
  hardConstraints := .ok (if take then [⟨[1, 2], "take", fun values => do
    (Value.int 0).less (← (← values.itemAt 0).add (← values.itemAt 1))⟩] else [])
  softConstraints := .ok [
    ⟨[1], "price", .number first, fun values => do (Value.number first).mul (← values.itemAt 0)⟩,
    ⟨[2], "price", .number second, fun values => do (Value.number second).mul (← values.itemAt 0)⟩]

theorem twoItems_wordFree (first second : Rat) (take : Bool) :
    (twoItems (.fraction first) (.fraction second) take).WordFree := by
  rintro soft ⟨⟩ constraint member positions ⟨length, among⟩ energy found
  obtain ⟨front, back, rfl⟩ := List.length_eq_two.1 length
  have flavorCount : (twoItems (.fraction first) (.fraction second) take).flavorCount = 2 := rfl
  rw [flavorCount] at among
  have frontAmong := among front (by simp)
  have backAmong := among back (by simp)
  obtain rfl | rfl : front = 1 ∨ front = 2 := by omega
  all_goals obtain rfl | rfl : back = 1 ∨ back = 2 := by omega
  all_goals
    rcases List.mem_pair.1 member with rfl | rfl
    all_goals
      cases found
      rfl

theorem findBest_feasible_dear : ∃ (configurations : List (List Value)) (best : List (List Nat)),
    (twoItems (.fraction (10 ^ 30 / 3)) (.fraction (10 ^ 30 / 7)) true).findBest (.int 4) = .ok configurations ∧
    configurations = best.map (List.map (ofPosition [.int 0, .int 1])) ∧ [1, 1] ∉ best ∧
    ∀ positions ∈ best, (twoItems (.fraction (10 ^ 30 / 3)) (.fraction (10 ^ 30 / 7)) true).isFeasible
      (.list (positions.map (ofPosition [.int 0, .int 1]))) = .ok true := by
  have answers : ((twoItems (.fraction (10 ^ 30 / 3)) (.fraction (10 ^ 30 / 7)) true).findBest (.int 4)).isOk = true := by
    decide +kernel
  cases found : (twoItems (.fraction (10 ^ 30 / 3)) (.fraction (10 ^ 30 / 7)) true).findBest (.int 4) with
  | error fault =>
    rw [found] at answers
    cases answers
  | ok configurations =>
    obtain ⟨count, feasible, total, best, counted, meaning, told, _, same, least, _⟩ :=
      findBest_feasible rfl (twoItems_wordFree _ _ _) found
    obtain rfl : 2 = count := Int.ofNat.inj counted
    have told := told (reflexive_ints [0, 1]) (answers_ints [0, 1])
    have taken : [1, 2] ∈ Positions 2 2 := ⟨rfl, by decide⟩
    have free : feasible [1, 2] = true := (Except.ok.inj (meaning _ taken).1).symm
    have best_iff := least ⟨_, taken, free⟩
    have feasibleBest : ∀ positions ∈ best, (twoItems (.fraction (10 ^ 30 / 3)) (.fraction (10 ^ 30 / 7)) true).isFeasible
        (.list (positions.map (ofPosition [.int 0, .int 1]))) = .ok true := by
      intro positions member
      obtain ⟨within, isFeasible, _⟩ := (best_iff positions).1 member
      exact (told positions within).trans (congrArg Except.ok isFeasible)
    refine ⟨configurations, best, rfl, same, fun member => ?_, feasibleBest⟩
    cases feasibleBest _ member

/-- A word among the weights adds up in its own format: one half and a hundred come out below nothing at all, and the
    dearest selection is the one that is found. -/
theorem exists_best_not_least : (twoItems (.fraction (1 / 2)) (.ofWord .int8 100) false).energyKind = .ok .fraction ∧
    (twoItems (.fraction (1 / 2)) (.ofWord .int8 100) false).findBest (.int 4) = .ok [[.int 1, .int 1]] ∧
    (twoItems (.fraction (1 / 2)) (.ofWord .int8 100) false).isFeasible (.list [.int 0, .int 0]) = .ok true ∧
    (twoItems (.fraction (1 / 2)) (.ofWord .int8 100) false).softTotal (.list [.int 0, .int 0]) = .ok 0 ∧
    (twoItems (.fraction (1 / 2)) (.ofWord .int8 100) false).softTotal (.list [.int 1, .int 1]) = .ok (201 / 2) := by
  refine ⟨rfl, by with_unfolding_all rfl, rfl, ?_, ?_⟩
  · exact Outcome.eq_ok_of_toOption (by decide +kernel)
  · exact Outcome.eq_ok_of_toOption (by decide +kernel)

end Problem

end EnergyTables
