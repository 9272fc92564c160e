import EnergyTables.Proofs.Selection.LightEnds
import EnergyTables.Proofs.Weights.Normalization

namespace EnergyTables

open Flavor

namespace Selection

variable {format : IntFormat} {words : List (Word format)} {problem : Problem}

theorem exists_gain_word {scope : List Int} (single : scope.length = 1) (word : Word format) {position : Nat}
    (among : 1 ≤ position ∧ position ≤ 2) :
    ∃ value, gain scope (.number (.word format word)) (.list [ofPosition flavors position]) = .ok value ∧
      (Kind.stored (.word format)).convert value =
        .ok (.number (.ofWord format (-1 * word.val * ((position : Int) - 1)))) := by
  have negates : (Value.number (.word format word)).neg = .ok (.number (.ofWord format (-word.val))) := rfl
  have product := mul_word_bit (Word.wrap format (-word.val)) (by omega : position - 1 ≤ 1)
  refine ⟨_, (gain_eq single negates among).trans product, ?_⟩
  have same : (Word.wrap format (-word.val)).val * (position - 1 : Nat) ≡
      -1 * word.val * ((position : Int) - 1) [ZMOD format.modulus] := by
    rw [neg_one_mul, Nat.cast_sub among.1, Nat.cast_one]
    exact (Word.val_wrap_modEq _).mul_right _
  rw [Number.ofWord, convert_word]
  exact congrArg (fun number => Except.ok (Value.number number)) (Number.ofWord_congr ((Word.val_wrap_modEq _).trans same))

def arrayOf (words : List (Word format)) (writeable : Bool) : Value :=
  .array (.word format) [words.length] writeable (words.map fun word => .number (.word format word))

theorem total_bounds {numbers : List Int} (nonneg : ∀ number ∈ numbers, 0 ≤ number) {bits : List Nat}
    (within : bits ∈ Vectors numbers.length) : 0 ≤ total numbers bits ∧ total numbers bits ≤ numbers.sum := by
  rw [total_eq_marked within]
  exact Weights.marked_bounds_of_nonneg nonneg _

theorem itemAt_arrayOf (writeable : Bool) {index : Nat} (bound : index < words.length) :
    (arrayOf words writeable).itemAt index = .ok (.number (.word format (words.getD index default))) := by
  show Value.orOutOfRange (itemAt? (words.map fun word => Value.number (.word format word)) index) = _
  rw [itemAt?_natCast, List.getElem?_map, List.getElem?_eq_getElem bound, List.getD_eq_getElem _ _ bound]
  rfl

/-- A selection of items that may not be together in certain pairs, and that gains the words of its items. -/
structure Gathers (problem : Problem) (words : List (Word format)) (pairs : List (Int × Int)) : Prop where
  energyKind_eq : problem.energyKind = .ok (.stored (.word format))
  restricts : ∃ tag rule, Restricts problem words.length pairs 1 tag rule
  soft_eq : ∃ tag writeable, problem.softConstraints = onItems words.length (arrayOf words writeable) tag gain

variable {pairs : List (Int × Int)} {bits : List Nat} {configuration : Value}

theorem Gathers.energy_eq_ok (gathers : Gathers problem words pairs) (within : bits ∈ Vectors words.length)
    (lists : configuration.Lists (bits.map fun (bit : Nat) => .int bit)) :
    problem.energy configuration =
      .ok (.number (.ofWord format (exactEnergy format (words.map Word.val) pairs 1 (-1) bits))) := by
  obtain ⟨hardTag, rule, restricts⟩ := gathers.restricts
  obtain ⟨softTag, writeable, soft⟩ := gathers.soft_eq
  have lengths : (words.map Word.val).length = words.length := List.length_map _
  have listed := soft.trans (onItems_eq_ok (fun index => itemAt_arrayOf writeable) softTag gain)
  rw [← lengths] at restricts listed within
  have whole : ∀ place < (words.map Word.val).length,
      (Value.number (.word format (words.getD place default))).whole = (words.map Word.val).getD place 0 := by
    intro place bound
    rw [List.getD_eq_getElem _ _ bound, List.getElem_map, List.getD_eq_getElem _ _ (lengths ▸ bound)]
    rfl
  obtain ⟨meaning, _, _, means⟩ := restricts.exists_meaning gathers.energyKind_eq listed whole fun place _ =>
    onItem_costs softTag fun _ => exists_gain_word rfl (words.getD place default)
  have places := Problem.places_of_choices restricts.flavors_eq meaning.counted (mem_choices within) lists
  rw [meaning.energy_eq_ok places, exactEnergy_eq (means bits within)]

theorem val_wrap_neg {number : Int} (nonneg : 0 ≤ number) (small : number < format.sentinel) :
    (Word.wrap format (-number)).val =
      if format.signed = true ∨ number = 0 then -number else format.modulus - number := by
  have most := format.holds_sentinel
  simp only [IntFormat.Holds] at most
  split
  next exact =>
    apply Word.val_wrap_of_holds
    rcases exact with signed | rfl
    · apply IntFormat.holds_of_abs_le signed
      rw [abs_neg, abs_of_nonneg nonneg]
      omega
    · exact format.holds_zero
  next wraps =>
    obtain ⟨unsigned, some⟩ := not_or.1 wraps
    have least := format.holds_zero.1
    exact format.reduce_neg (Bool.eq_false_iff.2 unsigned) (by omega) ⟨by omega, by omega⟩

/-- The problems of selecting as much weight as fits together, with words as weights: vertices of a graph without
    loops, and sets. -/
inductive Gathering (words : List (Word format)) : Problem → Prop
  | independentSet {kind : GraphKind} {vertices : List Int} {edges : List (Int × Int)} {graph : Graph}
      {independent : IndependentSet} {writeable : Bool}
      (built : Graph.build kind (vertices.map .int) (edges.map Graph.pairOf) = .ok graph)
      (loopless : ∀ edge ∈ edges, edge.1 ≠ edge.2)
      (made : IndependentSet.make graph (arrayOf words writeable) = .ok independent) :
      Gathering words independent.problem
  | setPacking {sets : Value} {packing : SetPacking} {writeable : Bool}
      (made : SetPacking.make sets (arrayOf words writeable) = .ok packing) : Gathering words packing.problem

theorem arrayOf_of_normalize {writeable : Bool} {count : Nat} {unit : String} {kept : Value}
    (normalized : Weights.normalize (arrayOf words writeable) count unit = .ok kept) :
    count = words.length ∧ kept = arrayOf words false := by
  have present : arrayOf words writeable ≠ .none := by
    rw [arrayOf]
    exact fun same => nomatch same
  obtain ⟨counted, found⟩ := Weights.length_of_normalize present normalized
  exact ⟨(Except.ok.inj counted).symm, (Except.ok.inj found).symm⟩

theorem Restricts.gathers {tag unit : String} {rule : List Int → Value → Outcome Bool}
    (restricts : Restricts problem words.length pairs 1 tag rule) (weighted : problem.weights? = some (arrayOf words false))
    (soft : problem.softConstraints = onItems words.length (arrayOf words false) unit gain) :
    Gathers problem words pairs :=
  ⟨energyKind_eq_ok weighted (.array false words), ⟨tag, rule, restricts⟩, unit, false, soft⟩

theorem onEdges_eq_nil {graph : Graph} {tag : String} {rule : List Int → Value → Outcome Bool}
    {hard : List HardConstraint} (kinded : graph.kind = .parallel) (listed : onEdges graph tag rule = .ok hard) :
    onEdges graph tag rule = .ok [] := by
  obtain ⟨sorted, ranked, _⟩ := Outcome.bind_eq_ok_iff.1 listed
  obtain ⟨edges, found, _⟩ := Outcome.bind_eq_ok_iff.1 ranked
  have none : graph.edges = .ok [] := by
    rw [Graph.edges, kinded] at found ⊢
    dsimp only at found ⊢
    split at found
    next none => rw [if_pos none]
    next => cases found
  rw [onEdges, Graph.sortedEdges, none]
  rfl

end Selection

open Selection

theorem IndependentSet.exists_gathers {kind : GraphKind} {vertices : List Int} {edges : List (Int × Int)} {graph : Graph}
    {independent : IndependentSet} {format : IntFormat} {words : List (Word format)} {writeable : Bool}
    {hard : List HardConstraint} (built : Graph.build kind (vertices.map .int) (edges.map Graph.pairOf) = .ok graph)
    (loopless : ∀ edge ∈ edges, edge.1 ≠ edge.2) (made : make graph (arrayOf words writeable) = .ok independent)
    (listed : independent.problem.hardConstraints = .ok hard) : ∃ pairs, Gathers independent.problem words pairs := by
  have checked := (Outcome.bind_eq_ok_iff.1 made).choose_spec.1
  obtain ⟨rfl, normalized⟩ := eq_of_make made
  obtain ⟨counted, kept⟩ := arrayOf_of_normalize normalized
  have soft : independent.problem.softConstraints =
      onItems words.length (arrayOf words false) "vertex" gain := by rw [← counted, ← kept]; rfl
  by_cases listable : kind = .parallel
  · subst listable
    obtain ⟨_, links, _⟩ := Graph.exists_links_of_build built
    have unlisted := onEdges_eq_nil links.kind_eq listed
    have restricted : Restricts independent.problem words.length [] 1 "no_edge" someUnselected :=
      ⟨rfl, congrArg Nat.cast counted, forbids_someUnselected, unlisted, by simp⟩
    exact ⟨[], restricted.gathers (congrArg some kept) soft⟩
  · have simple := Graph.simple_of_check listable built checked loopless
    have restricted := restricts simple made
    rw [counted] at restricted
    exact ⟨_, restricted.gathers (congrArg some kept) soft⟩

theorem SetPacking.comparable_of_disjointness {packing : SetPacking} {hard : List HardConstraint}
    (listed : packing.disjointness = .ok hard) : Comparable packing.sets := by
  obtain ⟨constraints, compared, _⟩ := Outcome.bind_eq_ok_iff.1 listed
  intro pair member
  obtain ⟨found, _, step⟩ := Outcome.exists_of_forall₂_right (Outcome.mapM_eq_ok_iff.1 compared).flip member
  obtain ⟨_, left, rest⟩ := Outcome.bind_eq_ok_iff.1 step
  obtain ⟨_, right, _⟩ := Outcome.bind_eq_ok_iff.1 rest
  exact ⟨left, right⟩

theorem SetPacking.exists_gathers {sets : Value} {packing : SetPacking} {format : IntFormat} {words : List (Word format)}
    {writeable : Bool} {hard : List HardConstraint} (made : make sets (arrayOf words writeable) = .ok packing)
    (listed : packing.problem.hardConstraints = .ok hard) : ∃ pairs, Gathers packing.problem words pairs := by
  obtain ⟨counted, kept⟩ := arrayOf_of_normalize (normalize_of_make made)
  have soft : packing.problem.softConstraints = onItems words.length (arrayOf words false) "set" gain := by
    rw [← counted, ← kept]
    rfl
  have restricted := restricts (comparable_of_disjointness listed)
  rw [counted] at restricted
  exact ⟨_, restricted.gathers (congrArg some kept) soft⟩

namespace Selection

variable {format : IntFormat} {words : List (Word format)} {problem : Problem} {pairs : List (Int × Int)} {bits : List Nat}

theorem Gathering.exists_gathers (gathering : Gathering words problem) {hard : List HardConstraint}
    (listed : problem.hardConstraints = .ok hard) : ∃ pairs, Gathers problem words pairs := by
  cases gathering with
  | independentSet built loopless made => exact IndependentSet.exists_gathers built loopless made listed
  | setPacking made => exact SetPacking.exists_gathers made listed

/-- The energy of a selection that fits is the opposite of its weight, in the words. -/
theorem Gathers.energy_of_isFeasible (gathers : Gathers problem words pairs) (within : bits ∈ Vectors words.length)
    {configuration : Value} (lists : configuration.Lists (bits.map fun (bit : Nat) => .int bit))
    (feasible : problem.isFeasible configuration = .ok true) :
    problem.energy configuration = .ok (.number (.ofWord format (-total (words.map Word.val) bits))) := by
  obtain ⟨tag, rule, restricts⟩ := gathers.restricts
  rw [restricts.isFeasible_eq_ok within lists, Except.ok.injEq, List.all_eq_true] at feasible
  have avoids : Avoids pairs 1 bits := by
    intro pair member both
    have apart := feasible pair member
    rw [decide_eq_true both] at apart
    cases apart
  rw [gathers.energy_eq_ok within lists, exactEnergy, agreements_eq_zero_iff.2 avoids, Nat.cast_zero, zero_mul, zero_add,
    neg_one_mul]

/-- To select one more item of positive weight lowers the energy exactly where the words have a sign or some weight was
    selected before: without a sign, nothing has energy zero, and a small weight the largest of all. -/
theorem Gathering.energy_lt_iff (gathering : Gathering words problem) (nonneg : ∀ word ∈ words, 0 ≤ word.val)
    (small : (words.map Word.val).sum < format.sentinel) (within : bits ∈ Vectors words.length) {place : Nat}
    (bound : place < words.length) (unselected : bits.getD place 0 = 0)
    (positive : 0 < (words.map Word.val).getD place 0) {before after : Value}
    (beforeLists : before.Lists (bits.map fun (bit : Nat) => .int bit))
    (afterLists : after.Lists ((bits.set place 1).map fun (bit : Nat) => .int bit))
    (feasible : problem.isFeasible before = .ok true) (remains : problem.isFeasible after = .ok true) :
    ∃ old new : Word format, problem.energy before = .ok (.number (.word format old)) ∧
      problem.energy after = .ok (.number (.word format new)) ∧
      (new.val < old.val ↔ format.signed = true ∨ total (words.map Word.val) bits ≠ 0) := by
  obtain ⟨hard, listed⟩ : ∃ hard, problem.hardConstraints = .ok hard := by
    obtain ⟨violated, found, _⟩ := Outcome.map_eq_ok_iff.1 feasible
    obtain ⟨_, _, rest⟩ := Outcome.bind_eq_ok_iff.1 found
    obtain ⟨hard, listed, _⟩ := Outcome.bind_eq_ok_iff.1 rest
    exact ⟨hard, listed⟩
  obtain ⟨pairs, gathers⟩ := gathering.exists_gathers listed
  have lengths : (words.map Word.val).length = words.length := List.length_map _
  have grown := set_mem_vectors within place
  have old := gathers.energy_of_isFeasible within beforeLists feasible
  have new := gathers.energy_of_isFeasible grown afterLists remains
  refine ⟨_, _, old, new, ?_⟩
  rw [← lengths] at within grown bound
  have nonneg : ∀ number ∈ words.map Word.val, 0 ≤ number := List.forall_mem_map.2 nonneg
  have oldBounds := total_bounds nonneg within
  have newBounds := total_bounds nonneg grown
  have more := total_set_one within bound unselected
  rw [val_wrap_neg oldBounds.1 (by omega), val_wrap_neg newBounds.1 (by omega)]
  by_cases signed : format.signed = true
  · rw [if_pos (.inl signed), if_pos (.inl signed)]
    exact iff_of_true (by omega) (.inl signed)
  · rw [if_neg (not_or.2 ⟨signed, by omega⟩)]
    by_cases none : total (words.map Word.val) bits = 0
    · rw [if_pos (.inr none)]
      -- the first weight is counted back from the modulus, which leaves more than nothing
      have most := format.holds_sentinel.2
      have least := format.holds_zero.1
      rw [IntFormat.greatest] at most
      exact iff_of_false (by omega) (not_or.2 ⟨signed, not_not_intro none⟩)
    · rw [if_neg (not_or.2 ⟨signed, none⟩)]
      exact iff_of_true (by omega) (.inr none)

theorem Gathering.energy_lt_iff_path : ∃ (graph : Graph) (independent : IndependentSet) (old new : Word .uint8),
    Graph.build .undirected ([1, 2, 3].map .int) ([(1, 2), (3, 2)].map Graph.pairOf) = .ok graph ∧
    IndependentSet.make graph (arrayOf ([3, 2, 4].map (Word.wrap .uint8)) true) = .ok independent ∧
    independent.problem.isFeasible (.list [.int 1, .int 0, .int 0]) = .ok true ∧
    independent.problem.isFeasible (.list [.int 1, .int 0, .int 1]) = .ok true ∧
    independent.problem.energy (.list [.int 1, .int 0, .int 0]) = .ok (.number (.word .uint8 old)) ∧
    independent.problem.energy (.list [.int 1, .int 0, .int 1]) = .ok (.number (.word .uint8 new)) ∧
    new.val < old.val := by
  have built : Graph.build .undirected ([1, 2, 3].map .int) ([(1, 2), (3, 2)].map Graph.pairOf) = .ok _ := rfl
  have gathering : Gathering ([3, 2, 4].map (Word.wrap .uint8)) _ :=
    @Gathering.independentSet _ _ _ _ _ _ _ true built (by decide) rfl
  obtain ⟨old, new, before, after, lowered⟩ := @Gathering.energy_lt_iff _ _ _ [1, 0, 0] gathering (by decide)
    (by decide +kernel) ⟨rfl, by decide⟩ 2 (by decide) rfl (by decide) _ _ (.list _) (.list _) rfl rfl
  exact ⟨_, _, old, new, built, rfl, rfl, rfl, before, after, lowered.2 (.inr (by decide))⟩

/-- To select a lone vertex of weight three, in bytes without a sign, raises the energy from nothing to 253. -/
theorem Gathering.exists_energy_raised : ∃ (graph : Graph) (independent : IndependentSet),
    Graph.build .undirected [.int 1] [] = .ok graph ∧
    IndependentSet.make graph (arrayOf [Word.wrap .uint8 3] true) = .ok independent ∧
    3 < IntFormat.uint8.sentinel ∧
    independent.problem.isFeasible (.list [.int 0]) = .ok true ∧
    independent.problem.isFeasible (.list [.int 1]) = .ok true ∧
    independent.problem.energy (.list [.int 0]) = .ok (.number (.ofWord .uint8 0)) ∧
    independent.problem.energy (.list [.int 1]) = .ok (.number (.ofWord .uint8 253)) ∧
    independent.problem.findBest (.int 2) = .ok [[.int 0]] :=
  ⟨_, _, rfl, rfl, by decide +kernel, rfl, rfl, rfl, rfl, rfl⟩

end Selection

end EnergyTables
