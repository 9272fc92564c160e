import EnergyTables.Codec
import EnergyTables.Family.Custom
import EnergyTables.Proofs.Evaluation.Lookup
import EnergyTables.Proofs.Value.Integers

namespace EnergyTables

namespace Flavor

variable {flavors : List Value} {value : Value}

theorem atPosition_eq_ok {position : Value} {whole : Int} (integer : position.IsInteger whole)
    (among : 1 ≤ whole ∧ whole ≤ flavors.length) :
    atPosition flavors position = .ok (ofPosition flavors whole.toNat) := by
  obtain ⟨less, subtracted, index⟩ := integer.exists_sub_one among.1
  obtain ⟨place, rfl⟩ : ∃ place : Nat, whole = place + 1 := ⟨(whole - 1).toNat, by omega⟩
  have bound : place < flavors.length := by omega
  rw [Int.add_sub_cancel] at index
  rw [atPosition, integer.between_eq_ok, Outcome.ok_bind, decide_eq_true among, subtracted, Outcome.ok_bind, index,
    Outcome.ok_bind, itemAt?_natCast, List.getElem?_eq_getElem bound, ofPosition, Int.toNat_natCast_add_one,
    Nat.add_sub_cancel, List.getD_eq_getElem _ _ bound]
  rfl

theorem atPosition_int {position : Nat} (among : 1 ≤ position ∧ position ≤ flavors.length) :
    atPosition flavors (.int position) = .ok (ofPosition flavors position) := by
  rw [atPosition_eq_ok (Value.isInteger_int position) (by omega), Int.toNat_natCast]

theorem ofPosition_mem {flavors : List Value} {position : Nat} (among : 1 ≤ position ∧ position ≤ flavors.length) :
    ofPosition flavors position ∈ flavors := by
  have bound : position - 1 < flavors.length := by omega
  rw [ofPosition, List.getD_eq_getElem _ _ bound]
  exact List.getElem_mem bound

/-- The comparison with the flavor at a position has an outcome, and no flavor before it equals the value. -/
structure Reaches (flavors : List Value) (value : Value) (position : Nat) (outcome : Outcome Bool) : Prop where
  among : 1 ≤ position ∧ position ≤ flavors.length
  compared : (ofPosition flavors position).equal value = outcome
  passed : ∀ earlier, 1 ≤ earlier → earlier < position → (ofPosition flavors earlier).equal value = .ok false

def Answers (flavors : List Value) (value : Value) : Prop := ∀ flavor ∈ flavors, ∃ same, flavor.equal value = .ok same

def IsForeign (flavors : List Value) (value : Value) : Prop := ∀ flavor ∈ flavors, flavor.equal value = .ok false

def Stops (flavors : List Value) (value : Value) (fault : Fault) : Prop :=
  IsForeign flavors value ∧ fault = (Fault.unknownFlavor value flavors).stated ∨
    ∃ place, Reaches flavors value place (.error fault)

theorem Reaches.cons {flavor : Value} {position : Nat} {outcome : Outcome Bool}
    (reaches : Reaches flavors value position outcome) (differs : flavor.equal value = .ok false) :
    Reaches (flavor :: flavors) value (position + 1) outcome := by
  obtain ⟨⟨positive, within⟩, compared, passed⟩ := reaches
  obtain ⟨place, rfl⟩ : ∃ place, position = place + 1 := ⟨position - 1, by omega⟩
  refine ⟨⟨by omega, by simpa using within⟩, compared, fun earlier first before => ?_⟩
  obtain ⟨earlier, rfl⟩ : ∃ other, earlier = other + 1 := ⟨earlier - 1, by omega⟩
  cases earlier with
  | zero => exact differs
  | succ earlier => exact passed (earlier + 1) (by omega) (by omega)

/-- The search ends at the first flavor that does not differ from the value, or past all of them. -/
theorem positionFrom_cases (flavors : List Value) (value : Value) (start : Nat) :
    (IsForeign flavors value ∧ positionFrom value start flavors = .ok none) ∨
      (∃ position, Reaches flavors value position (.ok true) ∧
        positionFrom value start flavors = .ok (some (start + position - 1))) ∨
      ∃ position fault, Reaches flavors value position (.error fault) ∧
        positionFrom value start flavors = .error fault := by
  -- the start is general: one flavor further it has grown by one
  induction flavors generalizing start with
  | nil => exact .inl ⟨by simp [IsForeign], rfl⟩
  | cons flavor flavors ih =>
    have first (outcome : Outcome Bool) (compared : flavor.equal value = outcome) :
        Reaches (flavor :: flavors) value 1 outcome := ⟨by simp, compared, fun earlier _ _ => by omega⟩
    rw [positionFrom]
    cases compared : flavor.equal value with
    | error fault => exact .inr (.inr ⟨1, fault, first _ compared, rfl⟩)
    | ok same =>
      cases same with
      | true => exact .inr (.inl ⟨1, first _ compared, rfl⟩)
      | false =>
        rw [Outcome.ok_bind, if_neg Bool.false_ne_true]
        rcases ih (start + 1) with ⟨foreign, found⟩ | ⟨position, reaches, found⟩ | ⟨position, fault, reaches, found⟩
        · exact .inl ⟨List.forall_mem_cons.2 ⟨compared, foreign⟩, found⟩
        · refine .inr (.inl ⟨position + 1, reaches.cons compared, found.trans ?_⟩)
          congr 2
          omega
        · exact .inr (.inr ⟨position + 1, fault, reaches.cons compared, found⟩)

theorem IsForeign.eq_of_reaches (foreign : IsForeign flavors value) {position : Nat} {outcome : Outcome Bool}
    (reaches : Reaches flavors value position outcome) : outcome = .ok false :=
  reaches.compared.symm.trans (foreign _ (ofPosition_mem reaches.among))

theorem Reaches.unique {position other : Nat} {outcome ending : Outcome Bool}
    (reaches : Reaches flavors value position outcome) (ends : Reaches flavors value other ending)
    (stops : outcome ≠ .ok false) (halts : ending ≠ .ok false) : position = other ∧ outcome = ending := by
  obtain before | rfl | after := Nat.lt_trichotomy position other
  · exact absurd (reaches.compared.symm.trans (ends.passed _ reaches.among.1 before)) stops
  · exact ⟨rfl, reaches.compared.symm.trans ends.compared⟩
  · exact absurd (ends.compared.symm.trans (reaches.passed _ ends.among.1 after)) halts

theorem position_cases (flavors : List Value) (value : Value) :
    (∃ place, Reaches flavors value place (.ok true) ∧ position flavors value = .ok place) ∨
      ∃ fault, Stops flavors value fault ∧ position flavors value = .error fault := by
  unfold position
  rcases positionFrom_cases flavors value 1 with
    ⟨foreign, found⟩ | ⟨place, reaches, found⟩ | ⟨place, fault, reaches, found⟩
  · exact .inr ⟨_, .inl ⟨foreign, rfl⟩, by rw [found]; rfl⟩
  · exact .inl ⟨place, reaches, by rw [found, Nat.add_sub_cancel_left]; rfl⟩
  · exact .inr ⟨fault, .inr ⟨place, reaches⟩, by rw [found]; rfl⟩

theorem Reaches.not_stops {place : Nat} (reaches : Reaches flavors value place (.ok true)) {fault : Fault} :
    ¬ Stops flavors value fault := by
  rintro (⟨foreign, _⟩ | ⟨other, ends⟩)
  · cases foreign.eq_of_reaches reaches
  · cases (reaches.unique ends (by simp) (by simp)).2

theorem Stops.unique {fault other : Fault} (stops : Stops flavors value fault) (halts : Stops flavors value other) :
    fault = other := by
  rcases stops with ⟨foreign, rfl⟩ | ⟨place, reaches⟩
  · rcases halts with ⟨_, rfl⟩ | ⟨_, ends⟩
    · rfl
    · cases foreign.eq_of_reaches ends
  · rcases halts with ⟨foreign, _⟩ | ⟨_, ends⟩
    · cases foreign.eq_of_reaches reaches
    · exact Except.error.inj (reaches.unique ends (by simp) (by simp)).2

/-- A value has the least position whose flavor equals it. -/
theorem position_eq_ok_iff {place : Nat} :
    position flavors value = .ok place ↔ Reaches flavors value place (.ok true) := by
  constructor
  · intro found
    rcases position_cases flavors value with ⟨other, reaches, same⟩ | ⟨_, _, failed⟩
    · cases same.symm.trans found
      exact reaches
    · cases failed.symm.trans found
  · intro reaches
    rcases position_cases flavors value with ⟨other, ends, found⟩ | ⟨_, stops, _⟩
    · rw [found, (reaches.unique ends (by simp) (by simp)).1]
    · exact absurd stops reaches.not_stops

theorem Stops.eq_unknownFlavor {fault : Fault} (stops : Stops flavors value fault) (answers : Answers flavors value) :
    IsForeign flavors value ∧ fault = (Fault.unknownFlavor value flavors).stated := by
  obtain unknown | ⟨place, reaches⟩ := stops
  · exact unknown
  · obtain ⟨same, compared⟩ := answers _ (ofPosition_mem reaches.among)
    cases compared.symm.trans reaches.compared

theorem exists_position (member : value ∈ flavors) (reflexive : value.equal value = .ok true)
    (answers : Answers flavors value) : ∃ place, position flavors value = .ok place := by
  rcases position_cases flavors value with ⟨place, _, found⟩ | ⟨fault, stops, _⟩
  · exact ⟨place, found⟩
  · cases ((stops.eq_unknownFlavor answers).1 value member).symm.trans reflexive

theorem reflexive_ints (numbers : List Int) : ∀ flavor ∈ numbers.map Value.int, flavor.equal flavor = .ok true := by
  intro flavor member
  obtain ⟨number, _, rfl⟩ := List.mem_map.1 member
  rw [Value.equal_int, decide_eq_true rfl]

theorem answers_ints (numbers : List Int) : ∀ flavor ∈ numbers.map Value.int, Answers (numbers.map Value.int) flavor := by
  intro flavor member other otherMember
  obtain ⟨number, _, rfl⟩ := List.mem_map.1 member
  obtain ⟨number, _, rfl⟩ := List.mem_map.1 otherMember
  exact ⟨_, Value.equal_int _ _⟩

end Flavor

namespace Problem

open Flavor

theorem configurationOf_eq_ok {problem : Problem} {id : Value} {positions : List Nat} {count : Nat}
    (isId : id.IsId positions) (within : positions ∈ Positions problem.flavorCount count) :
    problem.configurationOf id = .ok (positions.map (ofPosition problem.flavors)) := by
  rw [configurationOf, isId.items_eq, Outcome.ok_bind]
  refine Outcome.mapM_eq_ok_iff.2 ?_
  rw [List.forall₂_map_left_iff, List.forall₂_map_right_iff, List.forall₂_same]
  intro position member
  exact atPosition_int (within.2 position member)

theorem exists_configurationId {problem : Problem} {positions : List Nat} {count : Nat}
    (counted : problem.variableCount = count) (within : positions ∈ Positions problem.flavorCount count)
    (reflexive : ∀ flavor ∈ problem.flavors, flavor.equal flavor = .ok true)
    (answer : ∀ flavor ∈ problem.flavors, Answers problem.flavors flavor) :
    ∃ id, problem.configurationId (.list (positions.map (ofPosition problem.flavors))) = .ok id := by
  have configuration := Value.Lists.list (positions.map (ofPosition problem.flavors))
  have sameLength : ¬ (((positions.map (ofPosition problem.flavors)).length : Int) ≠ problem.variableCount) := by
    rw [List.length_map, within.1, counted]
    exact fun differ => differ rfl
  obtain ⟨id, found⟩ : ∃ id, (positions.map (ofPosition problem.flavors)).mapM (position problem.flavors) = .ok id := by
    apply Outcome.exists_mapM
    intro value member
    obtain ⟨place, placed, rfl⟩ := List.mem_map.1 member
    have among := ofPosition_mem (within.2 place placed)
    exact exists_position among (reflexive _ among) (answer _ among)
  refine ⟨id, ?_⟩
  rw [configurationId, configuration.length_eq, Outcome.ok_bind, if_neg sameLength, configuration.items_eq]
  exact found

/-- A stored five and a pair of numbers as flavors: each equals itself, but beside the five the pair is an array of
    two entries, whose truth is not defined. -/
def incomparable : Custom where
  variableCount := 1
  flavors := [.number (.ofWord .int64 5), .tuple [.int 1, .int 2]]
  soft := [⟨.list [.int 1], .int 1, .listed [] (.int 0)⟩]
  hard? := none
  hasTest := true
  weights? := none

end Problem

end EnergyTables
