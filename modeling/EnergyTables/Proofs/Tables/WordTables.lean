import EnergyTables.Proofs.Evaluation.Lookup

namespace EnergyTables

open Flavor Constraint

namespace Term

/-- A table of words at strided addresses, one for every assignment of flavors to variables that are numbered from one. -/
structure HoldsWords (format : IntFormat) (flavors : List Value) (variableCount : Int) (term : Term) : Prop where
  flavors_eq : term.flavors = flavors
  inside : ∀ index ∈ term.scope, 1 ≤ index ∧ index ≤ variableCount
  strides_eq : term.strides = powers flavors.length term.scope.length
  size_eq : term.energies.size = flavors.length ^ term.scope.length
  word : ∀ place < term.energies.size, ∃ word : Word format, term.energies[place]? = some (.number (.word format word))

theorem Tabulates.holdsWords {term : Term} {format : IntFormat} {scope : List Int} {flavors : List Value}
    {variableCount : Int} {storage : Storage} {energy : List Value → Outcome Value}
    (tabulates : term.Tabulates scope flavors storage energy)
    (inside : ∀ index ∈ scope, 1 ≤ index ∧ index ≤ variableCount)
    (words : ∀ values value, energy values = .ok value → (Kind.stored (.word format)).Holds value) :
    term.HoldsWords format flavors variableCount := by
  obtain rfl := tabulates.scope_eq
  have strides : term.strides = powers flavors.length term.scope.length := by
    rw [tabulates.strides_eq, powers_eq_map_pow]
  refine ⟨tabulates.flavors_eq, inside, strides, tabulates.size_eq, fun place bound => ?_⟩
  rw [tabulates.size_eq] at bound
  -- every place is the address of some assignment, hence holds what the assignment costs
  obtain ⟨positions, within, same⟩ := exists_numeral_eq bound
  obtain ⟨value, found, stored⟩ := tabulates.entry positions within
  rw [strides, strided_powers within, Int.toNat_natCast, same] at stored
  have held := words _ _ found
  cases held with
  | word word => exact ⟨word, stored⟩

namespace HoldsWords

variable {term : Term} {format : IntFormat} {flavors : List Value} {variableCount : Int} {id : Value}
  {positionAt : Int → Nat}

theorem exists_lookUp (holds : term.HoldsWords format flavors variableCount)
    (reads : ∀ index ∈ term.scope, term.positionOf id index = .ok (.int (positionAt index)))
    (among : ∀ index ∈ term.scope, 1 ≤ positionAt index ∧ positionAt index ≤ flavors.length) :
    ∃ (place : Nat) (word : Word format), strided term.strides (term.scope.map positionAt) = place ∧
      place < term.energies.size ∧ term.energies[place]? = some (.number (.word format word)) ∧
      term.address id = .ok (.int place) ∧ term.lookUp id = .ok (.number (.word format word)) := by
  have within : term.scope.map positionAt ∈ Positions flavors.length term.scope.length :=
    ⟨List.length_map _, List.forall_mem_map.2 among⟩
  have bound := numeral_lt within
  rw [← holds.size_eq] at bound
  have place := strided_powers within
  rw [← holds.strides_eq] at place
  obtain ⟨word, stored⟩ := holds.word _ bound
  have address := address_of_reads positionAt reads
  rw [place] at address
  have read := entry_int term (Int.natCast_nonneg (numeral flavors.length (term.scope.map positionAt)))
  rw [Int.toNat_natCast, stored] at read
  have found : term.lookUp id = .ok (.number (.word format word)) := by rw [lookUp, address, Outcome.ok_bind, read]; rfl
  exact ⟨_, word, place, bound, stored, address, found⟩

end HoldsWords

end Term

namespace Problem.Compilation

variable {problem : Problem} {format : IntFormat}

theorem holdsWords (compilation : problem.Compilation) (kind : compilation.kind = .stored (.word format)) :
    ∀ term ∈ compilation.tables.terms, term.HoldsWords format problem.flavors problem.variableCount := by
  have exact : compilation.kind.IsExact := by rw [kind]; exact .word format
  intro term member
  rcases List.mem_append.1 member with member | member
  · obtain ⟨constraint, _, made⟩ := Outcome.exists_of_forall₂_right compilation.hard_compiled member
    obtain ⟨inside, tabulates⟩ := tabulates_of_hardTerm made
    apply tabulates.of_cell.holdsWords inside
    intro values value found
    obtain ⟨satisfied, _, rfl⟩ := Outcome.map_eq_ok_iff.1 found
    cases satisfied with
    | true =>
      have isZero : Value.number (.ofWord format 0) = compilation.zero := by
        have made := compilation.zero_eq
        rw [kind, Kind.zero_word] at made
        exact Except.ok.inj made
      rw [if_pos rfl, ← isZero]
      exact .word _
    | false =>
      rw [← kind]
      exact exact.holds_sentinel compilation.sentinel_eq
  · obtain ⟨constraint, _, made⟩ := Outcome.exists_of_forall₂_right compilation.soft_compiled member
    obtain ⟨inside, tabulates⟩ := tabulates_of_softTerm made
    apply tabulates.holdsWords inside
    intro values value found
    obtain ⟨converted, tabled, kept⟩ := Outcome.bind_eq_ok_iff.1 found
    obtain ⟨_, _, converts⟩ := Outcome.bind_eq_ok_iff.1 tabled
    rw [← kind]
    exact exact.holds_cell converts kept

end Problem.Compilation

end EnergyTables
