import EnergyTables.Proofs.Selection.Families
import EnergyTables.Proofs.Value.MixedIntegers
import EnergyTables.Proofs.Weights.Normalization

namespace EnergyTables

open Flavor Constraint IntFormat

namespace Selection

structure Represents (configuration : Value) (values : List Number) (bits : List Nat) : Prop where
  length_eq : configuration.length = .ok values.length
  items_eq : configuration.items = .ok (values.map .number)
  itemAt_eq : ∀ (index : Nat) (bound : index < values.length), configuration.itemAt index = .ok (.number values[index])
  integers : List.Forall₂ (fun value (bit : Nat) => value.integer? = some (bit : Int)) values bits

variable {configuration other : Value} {values others : List Number} {bits : List Nat} {problem : Problem}
  {numbers : List Int} {count : Nat}

theorem represents_bits (bits : List Nat) : Represents (.list (bits.map fun (bit : Nat) => .int bit))
    (bits.map fun (bit : Nat) => .int bit) bits where
  length_eq := by rw [(Value.Lists.list _).length_eq, List.length_map, List.length_map]
  items_eq := by
    rw [(Value.Lists.list _).items_eq, List.map_map]
    rfl
  itemAt_eq := by
    intro index bound
    rw [List.length_map] at bound
    rw [(Value.Lists.list _).itemAt_eq, itemAt?_natCast, List.getElem?_map, List.getElem?_eq_getElem bound,
      List.getElem_map]
    rfl
  integers := by
    rw [List.forall₂_map_left_iff, List.forall₂_same]
    exact fun _ _ => rfl

theorem Represents.length (represents : Represents configuration values bits) : values.length = bits.length :=
  represents.integers.length_eq

theorem bit_of_position {value : Number} {whole : Int} (integer : value.integer? = some whole) {place : Nat}
    (placed : position flavors (.number value) = .ok place) :
    place - 1 ≤ 1 ∧ whole = (place - 1 : Nat) ∧ place - 1 + 1 = place := by
  obtain ⟨among, compared, _⟩ := position_eq_ok_iff.1 placed
  have bounds : 1 ≤ place ∧ place ≤ 2 := among
  rw [ofPosition_flavors bounds, (Value.isInteger_int _).equal_eq_ok ⟨value, rfl, integer⟩] at compared
  have same := of_decide_eq_true (Except.ok.inj compared)
  omega

/-- A configuration of integers that has an id represents the vector of it. -/
theorem exists_represents (flavored : problem.flavors = flavors) (counted : problem.variableCount = count)
    (itemized : Weights.Itemized configuration) (items : configuration.items = .ok (values.map .number))
    (integers : ∀ value ∈ values, ∃ whole, value.integer? = some whole) {positions : List Nat}
    (accepted : problem.configurationId configuration = .ok positions) :
    ∃ bits ∈ Vectors count, positions = positionsOf bits ∧ Represents configuration values bits := by
  obtain ⟨given, length, rest⟩ := Outcome.bind_eq_ok_iff.1 accepted
  split at rest
  next => cases rest
  next same =>
    rw [items, Outcome.ok_bind, flavored] at rest
    obtain ⟨listed, found, lengths, reads⟩ := Weights.exists_items itemized length
    cases items.symm.trans found
    have placed := Outcome.mapM_eq_ok_iff.1 rest
    rw [List.forall₂_map_left_iff] at placed
    have each : List.Forall₂ (fun (value : Number) place =>
        place - 1 ≤ 1 ∧ value.integer? = some ((place - 1 : Nat) : Int) ∧ place - 1 + 1 = place) values positions := by
      refine Outcome.forall₂_imp_of_mem placed fun value member place found => ?_
      obtain ⟨whole, integer⟩ := integers value member
      obtain ⟨small, rfl, placeEq⟩ := bit_of_position integer found
      exact ⟨small, integer, placeEq⟩
    rw [List.length_map] at lengths
    refine ⟨positions.map (· - 1), ⟨?_, List.forall_mem_map.2 fun place member => ?_⟩, ?_, ?_, items, ?_, ?_⟩
    · rw [List.length_map, ← each.length_eq]
      omega
    · obtain ⟨_, _, small, _⟩ := Outcome.exists_of_forall₂_right each member
      exact small
    · conv_lhs => rw [← List.map_id positions]
      rw [positionsOf, List.map_map]
      refine List.map_congr_left fun place member => ?_
      obtain ⟨_, _, _, _, same⟩ := Outcome.exists_of_forall₂_right each member
      exact same.symm
    · rw [length, lengths]
    · intro index bound
      rw [reads index (by rwa [List.length_map]), List.getElem_map]
    · rw [List.forall₂_map_right_iff]
      exact each.imp fun _ _ facts => facts.2.1

theorem Represents.localValues_eq_ok (represents : Represents configuration values bits) {scope : List Int}
    (inside : ∀ index ∈ scope, 1 ≤ index ∧ index ≤ values.length) : localValues configuration scope =
      .ok (scope.map fun index => .number (values.getD (index.toNat - 1) (.int 0))) := by
  apply Outcome.mapM_eq_map
  intro index member
  have bounds := inside index member
  have bound : index.toNat - 1 < values.length := by omega
  rw [show index - 1 = ((index.toNat - 1 : Nat) : Int) by omega, represents.itemAt_eq _ bound,
    List.getD_eq_getElem _ _ bound]

theorem Represents.forall₂_scope (represents : Represents configuration values bits) {scope : List Int}
    (inside : ∀ index ∈ scope, 1 ≤ index ∧ index ≤ values.length) :
    List.Forall₂ Value.IsInteger (scope.map fun index => .number (values.getD (index.toNat - 1) (.int 0)))
      (scope.map fun index => (bitAt bits index : Int)) := by
  rw [List.forall₂_map_left_iff, List.forall₂_map_right_iff, List.forall₂_same]
  intro index member
  have bounds := inside index member
  have bound : index.toNat - 1 < values.length := by omega
  have bitBound : index.toNat - 1 < bits.length := represents.length ▸ bound
  rw [bitAt, List.getD_eq_getElem _ _ bound, List.getD_eq_getElem _ _ bitBound]
  exact ⟨_, rfl, represents.integers.get bound bitBound⟩

def ByValue (rule : List Int → Value → Outcome Bool) : Prop :=
  ∀ scope items wholes, List.Forall₂ Value.IsInteger items wholes →
    rule scope (.list items) = rule scope (.list (wholes.map .int))

theorem all_byValue {target : Int} {items : List Value} {wholes : List Int}
    (each : List.Forall₂ Value.IsInteger items wholes) :
    all (fun value => value.equal (.int target)) items = all (fun value => value.equal (.int target)) (wholes.map .int) := by
  induction each with
  | nil => rfl
  | @cons item whole _ _ first _ ih =>
    rw [List.map_cons, all, all, ih, first.equal_eq_ok (Value.isInteger_int target), Value.equal_int]

theorem checkArity_byValue {items : List Value} {wholes : List Int} (each : List.Forall₂ Value.IsInteger items wholes)
    (scope : List Int) : checkArity scope (.list items) = checkArity scope (.list (wholes.map .int)) := by
  rw [checkArity, checkArity, (Value.Lists.list items).length_eq, (Value.Lists.list (wholes.map .int)).length_eq,
    List.length_map, each.length_eq]

theorem byValue_someSelected : ByValue someSelected := by
  intro scope items wholes each
  rw [someSelected, someSelected, checkArity_byValue each, (Value.Lists.list items).items_eq,
    (Value.Lists.list (wholes.map .int)).items_eq, Outcome.ok_bind, Outcome.ok_bind]
  exact congrArg (fun test => _ >>= fun _ => test >>= fun truth => pure !truth) (all_byValue each)

theorem byValue_someUnselected : ByValue someUnselected := by
  intro scope items wholes each
  rw [someUnselected, someUnselected, checkArity_byValue each, (Value.Lists.list items).items_eq,
    (Value.Lists.list (wholes.map .int)).items_eq, Outcome.ok_bind, Outcome.ok_bind]
  exact congrArg (fun test => _ >>= fun _ => test >>= fun truth => pure !truth) (all_byValue each)

section Hard

variable {pairs : List (Int × Int)} {bit : Nat} {tag : String} {rule : List Int → Value → Outcome Bool}

theorem ByValue.rule_eq (byValue : ByValue rule) (represents : Represents configuration values bits) {scope : List Int}
    (inside : ∀ index ∈ scope, 1 ≤ index ∧ index ≤ values.length) :
    rule scope (.list (scope.map fun index => .number (values.getD (index.toNat - 1) (.int 0)))) =
      rule scope (.list (scope.map fun index => .int (bitAt bits index))) := by
  refine (byValue _ _ _ (represents.forall₂_scope inside)).trans ?_
  rw [List.map_map]
  rfl

theorem Represents.keepViolated_eq (represents : Represents configuration values bits)
    (representsToo : Represents other others bits) (byValue : ByValue rule)
    (inside : ∀ pair ∈ pairs, ∀ index ∈ [pair.1, pair.2], 1 ≤ index ∧ index ≤ bits.length) :
    Problem.keepViolated configuration (pairs.map (onPair tag rule)) =
      Problem.keepViolated other (pairs.map (onPair tag rule)) := by
  induction pairs with
  | nil => rfl
  | cons pair pairs ih =>
    obtain ⟨first, rest⟩ := List.forall_mem_cons.1 inside
    have firstLeft := first
    rw [← represents.length] at firstLeft
    rw [← representsToo.length] at first
    have satisfied := (byValue.rule_eq represents firstLeft).trans (byValue.rule_eq representsToo first).symm
    rw [List.map_cons, Problem.keepViolated, Problem.keepViolated, ih rest]
    simp only [onPair] at satisfied ⊢
    rw [represents.localValues_eq_ok firstLeft, representsToo.localValues_eq_ok first, Outcome.ok_bind, Outcome.ok_bind,
      satisfied]

theorem Restricts.violatedConstraints_represents (restricts : Restricts problem count pairs bit tag rule)
    (byValue : ByValue rule) (within : bits ∈ Vectors count) (represents : Represents configuration values bits)
    (accepted : problem.configurationId configuration = .ok (positionsOf bits)) :
    problem.violatedConstraints configuration =
      problem.violatedConstraints (.list (bits.map fun (bit : Nat) => .int bit)) := by
  have places := Problem.places_of_choices restricts.flavors_eq restricts.counted (mem_choices within)
    (.list (bits.map fun (bit : Nat) => .int bit))
  have inside : ∀ pair ∈ pairs, ∀ index ∈ [pair.1, pair.2], 1 ≤ index ∧ index ≤ bits.length := by
    rw [within.1]
    intro pair member
    simpa using restricts.inside pair member
  rw [Problem.violatedConstraints, Problem.violatedConstraints, accepted, places.placed, restricts.hard_eq,
    Outcome.ok_bind, Outcome.ok_bind, represents.keepViolated_eq (represents_bits bits) byValue inside]
  rfl

end Hard

section Soft

variable {sign : Int} {tag : String} {energy : List Int → Value → Value → Outcome Value} {kept : Value}

/-- The soft energies of values one after another: each weight with its sign as often as the value says. -/
def tally (sign : Int) (numbers : List Int) (values : List Number) (start : Value) : Outcome Value :=
  (numbers.zip values).foldlM (fun total entry => do
    total.add (← (Value.int (sign * entry.1)).mul (.number entry.2))) start

def Charges (sign : Int) (energy : List Int → Value → Value → Outcome Value) : Prop :=
  ∀ scope : List Int, scope.length = 1 → ∀ (number : Int) (value : Value),
    energy scope (.int number) (.list [value]) = (Value.int (sign * number)).mul value

theorem charges_cost : Charges 1 cost := by
  intro scope single number value
  have first : (Value.list [value]).itemAt 0 = .ok value := rfl
  rw [cost, checkArity_list (by rw [single]; rfl), Outcome.ok_bind, first, Outcome.ok_bind, one_mul]

theorem charges_gain : Charges (-1) gain := by
  intro scope single number value
  have first : (Value.list [value]).itemAt 0 = .ok value := rfl
  have negates : (Value.int number).neg = .ok (.int (-number)) := rfl
  rw [gain, checkArity_list (by rw [single]; rfl), Outcome.ok_bind, negates, Outcome.ok_bind, first, Outcome.ok_bind,
    neg_one_mul]

theorem Represents.localEnergy_onItem (represents : Represents configuration values bits) (charges : Charges sign energy)
    {index : Nat} (bound : index < values.length) {weightAt : Nat → Value} {number : Int}
    (plain : weightAt index = .int number) : Problem.localEnergy configuration (onItem tag energy weightAt index) =
      (Value.int (sign * number)).mul (.number values[index]) := by
  have inside : ∀ place ∈ [(index : Int) + 1], 1 ≤ place ∧ place ≤ values.length := by
    intro place member
    rw [List.mem_singleton.1 member]
    omega
  rw [Problem.localEnergy, onItem, represents.localValues_eq_ok inside, Outcome.ok_bind, plain]
  refine (charges _ rfl number _).trans ?_
  dsimp only
  rw [show ((index : Int) + 1).toNat - 1 = index by omega, List.getD_eq_getElem _ _ bound]

theorem Represents.foldlM_localEnergy (represents : Represents configuration values bits) (charges : Charges sign energy)
    (areInts : Weights.AreInts kept numbers) (lengths : values.length = numbers.length)
    (soft : problem.softConstraints = onItems numbers.length kept tag energy) :
    (do (← problem.softConstraints).foldlM (fun total constraint => do
      total.add (← Problem.localEnergy configuration constraint)) (Value.int 0)) =
        tally sign numbers values (.int 0) := by
  rw [soft, onItems_eq_ok areInts tag energy, Outcome.ok_bind, tally]
  apply Outcome.foldlM_congr
  rw [List.forall₂_iff_get]
  refine ⟨by simp [lengths], fun index bound boundToo => ?_⟩
  intro total
  rw [List.length_map, List.length_range] at bound
  have valueBound : index < values.length := lengths ▸ bound
  simp only [List.get_eq_getElem, List.getElem_map, List.getElem_range, List.getElem_zip]
  rw [represents.localEnergy_onItem charges valueBound rfl, List.getD_eq_getElem _ _ bound]

end Soft

section Tallies

variable {formats : List IntFormat} {format : IntFormat} {sign start : Int} {first : Number}

/-- The formats have room for the weights with their signs, for the size and for each sum on the way to it. -/
structure Fits (formats : List IntFormat) (sign : Int) (numbers : List Int) (bits : List Nat) : Prop where
  weights : ∀ number ∈ numbers, Room formats (sign * number)
  sums : ∀ taken, Room formats (sign * total (numbers.take taken) (bits.take taken))
  size : Room formats (total numbers bits)

theorem fits_nil (sign : Int) (numbers : List Int) (bits : List Nat) : Fits [] sign numbers bits where
  weights := fun _ _ => room_nil _
  sums := fun _ => room_nil _
  size := room_nil _

theorem exists_product (formatted : ∀ format, first.wordFormat? = some format → format ∈ formats) {bit : Nat}
    (integer : first.integer? = some (bit : Int)) (small : bit ≤ 1) {factor : Int} (room : Room formats factor) :
    ∃ product : Number, (Value.int factor).mul (.number first) = .ok (.number product) ∧
      product.Stands formats (factor * bit) ∧ product.integer? = some (factor * bit) := by
  rw [Number.mul_integer factor integer]
  cases stored : first.wordFormat? with
  | none => exact ⟨_, rfl, .int _, rfl⟩
  | some format =>
    have spans := spans_of_mem (formatted format stored)
    have fits := room.mul_bit small
    refine ⟨.ofWord format (factor * bit), ?_, Number.stands_ofWord spans fits, ?_⟩
    · exact if_pos (spans.holds room)
    · exact congrArg some (Word.val_wrap_of_holds (spans.holds fits))

/-- With room for every sum on the way, what is added up stands for the total. -/
theorem exists_tally (integers : List.Forall₂ (fun value (bit : Nat) => value.integer? = some (bit : Int)) values bits)
    (small : ∀ bit ∈ bits, bit ≤ 1) (lengths : numbers.length = bits.length)
    (formatted : ∀ value ∈ values, ∀ format, value.wordFormat? = some format → format ∈ formats)
    (weights : ∀ number ∈ numbers, Room formats (sign * number))
    (sums : ∀ taken, Room formats (start + sign * total (numbers.take taken) (bits.take taken)))
    (stands : first.Stands formats start) :
    ∃ shown : Number, tally sign numbers values (.number first) = .ok (.number shown) ∧
      shown.Stands formats (start + sign * total numbers bits) := by
  -- on the values, with what stands for the sum so far in front
  induction integers generalizing numbers start first with
  | nil =>
    obtain rfl := List.length_eq_zero_iff.1 lengths
    exact ⟨first, rfl, by simpa [total] using stands⟩
  | @cons value bit values bits integer _ ih =>
    obtain ⟨number, rest, rfl⟩ := List.exists_cons_of_length_eq_add_one lengths
    obtain ⟨bitSmall, restSmall⟩ := List.forall_mem_cons.1 small
    obtain ⟨firstFormat, restFormats⟩ := List.forall_mem_cons.1 formatted
    obtain ⟨firstRoom, restRoom⟩ := List.forall_mem_cons.1 weights
    obtain ⟨product, multiplied, standsToo, isInteger⟩ := exists_product firstFormat integer bitSmall firstRoom
    have before : Room formats start := by simpa [total] using sums 0
    have after : Room formats (start + sign * number * bit) := by
      simpa [total, mul_assoc] using sums 1
    obtain ⟨next, added, standsNext⟩ := stands.exists_add standsToo isInteger before (firstRoom.mul_bit bitSmall) after
    have later : ∀ taken, Room formats (start + sign * number * bit + sign * total (rest.take taken) (bits.take taken)) := by
      intro taken
      have room := sums (taken + 1)
      rwa [List.take_succ_cons, List.take_succ_cons, total_cons, mul_add, ← mul_assoc, ← add_assoc] at room
    obtain ⟨shown, folded, standsShown⟩ := ih restSmall (Nat.succ.inj lengths) restFormats restRoom later standsNext
    refine ⟨shown, ?_, ?_⟩
    · rw [tally, List.zip_cons_cons, List.foldlM_cons, multiplied, Outcome.ok_bind, added, Outcome.ok_bind]
      exact folded
    · rwa [total_cons, mul_add, ← mul_assoc, ← add_assoc]

/-- Words of one format are added up modulo two to their width, as soon as they hold every weight with its sign. -/
theorem tally_words (integers : List.Forall₂ (fun value (bit : Nat) => value.integer? = some (bit : Int)) values bits)
    (lengths : numbers.length = bits.length) (formatted : ∀ value ∈ values, value.wordFormat? = some format)
    (start : Int) :
    tally sign numbers values (.number (.ofWord format start)) =
      if ∀ number ∈ numbers, format.Holds (sign * number) then
        .ok (.number (.ofWord format (start + sign * total numbers bits)))
      else .error .tooLarge := by
  induction integers generalizing numbers start with
  | nil =>
    obtain rfl := List.length_eq_zero_iff.1 lengths
    simp [tally, total]
  | @cons value bit values bits integer _ ih =>
    obtain ⟨number, rest, rfl⟩ := List.exists_cons_of_length_eq_add_one lengths
    obtain ⟨firstFormat, restFormats⟩ := List.forall_mem_cons.1 formatted
    rw [tally, List.zip_cons_cons, List.foldlM_cons, Number.mul_integer _ integer, firstFormat]
    dsimp only
    by_cases held : format.Holds (sign * number)
    · rw [if_pos held, Outcome.ok_bind, Value.add_ofWord, Outcome.ok_bind]
      refine (ih (Nat.succ.inj lengths) restFormats _).trans ?_
      simp only [List.forall_mem_cons, held, true_and, total_cons, mul_add, mul_assoc, add_assoc]
    · rw [if_neg held, if_neg fun all => held (all number List.mem_cons_self)]
      rfl

end Tallies

section Priced

variable {formats : List IntFormat} {format : IntFormat} {size : Int} {number : Number} {valid : Bool}

def sized (sense : Sense) (total : Value) : Outcome Value :=
  match sense with
  | .minimize => .ok total
  | .maximize => total.neg

theorem exists_sized {sense : Sense} (stands : number.Stands formats (sense.sign * size)) (room : Room formats size) :
    ∃ shown : Number, sized sense (.number number) = .ok (.number shown) ∧ shown.Stands formats size := by
  cases sense with
  | minimize =>
    rw [Sense.sign, one_mul] at stands
    exact ⟨number, rfl, stands⟩
  | maximize =>
    rw [Sense.sign, neg_one_mul] at stands
    obtain ⟨shown, negates, standsToo⟩ := stands.exists_neg (by rwa [neg_neg])
    rw [neg_neg] at standsToo
    exact ⟨shown, negates, standsToo⟩

theorem sized_ofWord (sense : Sense) (format : IntFormat) (size : Int) :
    sized sense (.number (.ofWord format (sense.sign * size))) = .ok (.number (.ofWord format size)) := by
  cases sense with
  | minimize => rw [Sense.sign, one_mul]; rfl
  | maximize =>
    have negates : sized .maximize (.number (.ofWord format (-1 * size))) =
        .ok (.number (.ofWord format (-(Word.wrap format (-1 * size)).val))) := rfl
    have same : -(Word.wrap format (-1 * size)).val ≡ size [ZMOD format.modulus] := by
      have wrapped := (@Word.val_wrap_modEq format (-1 * size)).neg
      have back : -(-1 * size) = size := by omega
      rwa [back] at wrapped
    exact negates.trans (congrArg (fun shown => Except.ok (Value.number shown)) (Number.ofWord_congr same))

/-- A problem of items with plain integers as weights, and with rules on pairs of them. -/
structure Priced (problem : Problem) (numbers : List Int) : Prop where
  restricts : ∃ pairs bit tag rule, Restricts problem numbers.length pairs bit tag rule ∧ ByValue rule
  soft_eq : ∃ kept tag energy, Charges problem.sense.sign energy ∧ Weights.AreInts kept numbers ∧
    problem.softConstraints = onItems numbers.length kept tag energy

theorem Priced.solutionSize_eq (priced : Priced problem numbers) (represents : Represents configuration values bits)
    (lengths : values.length = numbers.length) (feasible : problem.isFeasible configuration = .ok valid) :
    problem.solutionSize configuration = do
      let size ← sized problem.sense (← tally problem.sense.sign numbers values (.int 0))
      return ⟨size, valid⟩ := by
  obtain ⟨kept, tag, energy, charges, areInts, soft⟩ := priced.soft_eq
  rw [← represents.foldlM_localEnergy charges areInts lengths soft, Problem.solutionSize, feasible, Outcome.ok_bind, soft]
  simp only [sized, bind_assoc]
  cases problem.sense with
  | minimize => rfl
  | maximize => rfl

theorem Priced.exists_solutionSize (priced : Priced problem numbers) (represents : Represents configuration values bits)
    (within : bits ∈ Vectors numbers.length) (feasible : problem.isFeasible configuration = .ok valid)
    (formatted : ∀ value ∈ values, ∀ format, value.wordFormat? = some format → format ∈ formats)
    (fits : Fits formats problem.sense.sign numbers bits) :
    ∃ shown : Number, problem.solutionSize configuration = .ok ⟨.number shown, valid⟩ ∧
      shown.Stands formats (total numbers bits) := by
  have sums (taken : Nat) : Room formats
      (0 + problem.sense.sign * total (numbers.take taken) (bits.take taken)) := by
    rw [zero_add]
    exact fits.sums taken
  obtain ⟨totalled, tallied, stands⟩ := exists_tally represents.integers within.2 within.1.symm formatted fits.weights
    sums (.int 0)
  rw [zero_add] at stands
  obtain ⟨shown, isSized, standsToo⟩ := exists_sized stands fits.size
  refine ⟨shown, ?_, standsToo⟩
  rw [priced.solutionSize_eq represents (represents.length.trans within.1) feasible, Value.int, tallied, Outcome.ok_bind,
    isSized]
  rfl

theorem Priced.solutionSize_plain (priced : Priced problem numbers) (represents : Represents configuration values bits)
    (within : bits ∈ Vectors numbers.length) (feasible : problem.isFeasible configuration = .ok valid)
    (plain : ∀ value ∈ values, value.wordFormat? = none) :
    problem.solutionSize configuration = .ok ⟨.int (total numbers bits), valid⟩ := by
  have formatted : ∀ value ∈ values, ∀ format, value.wordFormat? = some format → format ∈ [] := by
    intro value member format stored
    cases (plain value member).symm.trans stored
  obtain ⟨shown, found, stands⟩ := priced.exists_solutionSize represents within feasible formatted (fits_nil _ _ _)
  rw [found, stands.eq_int]
  rfl

theorem int_zero_add_ofWord (format : IntFormat) (value : Int) :
    (Value.int 0).add (.number (.ofWord format value)) =
      (Value.number (.ofWord format 0)).add (.number (.ofWord format value)) := by
  rw [Value.add_ofWord, zero_add, Number.ofWord, Value.int_zero_add_word, zero_add]
  exact congrArg (fun number => Except.ok (Value.number number)) (Number.ofWord_congr (format.reduce_emod value))

theorem tally_zero {sign : Int} (nonempty : values ≠ [])
    (integers : List.Forall₂ (fun value (bit : Nat) => value.integer? = some (bit : Int)) values bits)
    (lengths : numbers.length = bits.length) (formatted : ∀ value ∈ values, value.wordFormat? = some format) :
    tally sign numbers values (.int 0) = tally sign numbers values (.number (.ofWord format 0)) := by
  cases integers with
  | nil => exact absurd rfl nonempty
  | @cons value bit values bits integer _ =>
    obtain ⟨number, rest, rfl⟩ := List.exists_cons_of_length_eq_add_one lengths
    rw [tally, tally, List.zip_cons_cons, List.foldlM_cons, List.foldlM_cons, Number.mul_integer _ integer,
      formatted value List.mem_cons_self]
    dsimp only
    split
    · rw [Outcome.ok_bind, Outcome.ok_bind, int_zero_add_ofWord]
    · rfl

theorem Priced.solutionSize_words (priced : Priced problem numbers) (represents : Represents configuration values bits)
    (within : bits ∈ Vectors numbers.length) (feasible : problem.isFeasible configuration = .ok valid)
    (nonempty : values ≠ []) (formatted : ∀ value ∈ values, value.wordFormat? = some format) :
    problem.solutionSize configuration =
      if ∀ number ∈ numbers, format.Holds (problem.sense.sign * number) then
        .ok ⟨.number (.ofWord format (total numbers bits)), valid⟩
      else .error .tooLarge := by
  rw [priced.solutionSize_eq represents (represents.length.trans within.1) feasible,
    tally_zero nonempty represents.integers within.1.symm formatted, tally_words represents.integers within.1.symm formatted,
    zero_add]
  split
  · rw [Outcome.ok_bind, sized_ofWord]
    rfl
  · rfl

end Priced

/-- The problems that select items, with plain integers as their weights: vertices of a graph without loops, or sets. -/
inductive Selecting (numbers : List Int) : Problem → Prop
  | vertexCovering {kind : GraphKind} {vertices : List Int} {edges : List (Int × Int)} {graph : Graph} {weights : Value}
      {covering : VertexCovering} (simple : graph.Simple kind vertices edges numbers.length)
      (made : VertexCovering.make graph weights = .ok covering) (areInts : Weights.AreInts covering.weights numbers) :
      Selecting numbers covering.problem
  | independentSet {kind : GraphKind} {vertices : List Int} {edges : List (Int × Int)} {graph : Graph} {weights : Value}
      {independent : IndependentSet} (simple : graph.Simple kind vertices edges numbers.length)
      (made : IndependentSet.make graph weights = .ok independent)
      (areInts : Weights.AreInts independent.weights numbers) : Selecting numbers independent.problem
  | setPacking {sets weights : Value} {packing : SetPacking} (made : SetPacking.make sets weights = .ok packing)
      (keys : ∀ set ∈ packing.sets, Value.areKeys set = true) (counted : packing.sets.length = numbers.length)
      (areInts : Weights.AreInts packing.weights numbers) : Selecting numbers packing.problem

theorem Selecting.priced (selecting : Selecting numbers problem) : Priced problem numbers := by
  cases selecting with
  | vertexCovering simple made areInts =>
    have counted := simple.vertexCount_eq
    have restricted := VertexCovering.restricts simple made
    obtain ⟨rfl, _⟩ := VertexCovering.eq_of_make made
    refine ⟨⟨_, _, _, _, restricted, byValue_someSelected⟩, _, "vertex", cost, charges_cost, areInts, ?_⟩
    rw [← counted]
    rfl
  | independentSet simple made areInts =>
    have counted := simple.vertexCount_eq
    have restricted := IndependentSet.restricts simple made
    obtain ⟨rfl, _⟩ := IndependentSet.eq_of_make made
    refine ⟨⟨_, _, _, _, restricted, byValue_someUnselected⟩, _, "vertex", gain, charges_gain, areInts, ?_⟩
    rw [← counted]
    rfl
  | setPacking made keys counted areInts =>
    have restricted := SetPacking.restricts (SetPacking.comparable_of_keys fun _ => keys)
    rw [counted] at restricted
    refine ⟨⟨_, _, _, _, restricted, byValue_someUnselected⟩, _, "set", gain, charges_gain, areInts, ?_⟩
    rw [← counted]
    rfl

/-- A configuration of integers of any types that has an id. Decoded, it has a plain size and the same violations. With
    plain values it has that size itself, and it shows an equal one where the types have room for the weights with their
    signs, the size and each sum on the way. In words of one format, as in an array, there is a size exactly where the
    format holds the weights with their signs, and it is the right one exactly where the format holds it too. -/
theorem Selecting.solutionSize_represented (selecting : Selecting numbers problem) (itemized : Weights.Itemized configuration)
    (items : configuration.items = .ok (values.map .number))
    (integers : ∀ value ∈ values, ∃ whole, value.integer? = some whole) {positions : List Nat}
    (accepted : problem.configurationId configuration = .ok positions) :
    ∃ bits ∈ Vectors numbers.length, ∃ decoded valid, positions = positionsOf bits ∧
      problem.configurationOf (.idOf positions) = .ok decoded ∧
      problem.solutionSize (.list decoded) = .ok ⟨.int (total numbers bits), valid⟩ ∧
      problem.violatedConstraints configuration = problem.violatedConstraints (.list decoded) ∧
      problem.isFeasible configuration = .ok valid ∧
      ((∀ value ∈ values, value.wordFormat? = none) →
        problem.solutionSize configuration = .ok ⟨.int (total numbers bits), valid⟩) ∧
      (Fits (values.filterMap Number.wordFormat?) problem.sense.sign numbers bits →
        ∃ shown, problem.solutionSize configuration = .ok ⟨shown, valid⟩ ∧
          shown.equal (.int (total numbers bits)) = .ok true) ∧
      ∀ format, values ≠ [] → (∀ value ∈ values, value.wordFormat? = some format) →
        problem.solutionSize configuration =
          (if ∀ number ∈ numbers, format.Holds (problem.sense.sign * number) then
            .ok ⟨.number (.ofWord format (total numbers bits)), valid⟩
          else .error .tooLarge) ∧
        (Value.number (.ofWord format (total numbers bits))).equal (.int (total numbers bits)) =
          .ok (decide (format.Holds (total numbers bits))) := by
  have priced := selecting.priced
  obtain ⟨pairs, bit, tag, rule, restricts, byValue⟩ := priced.restricts
  obtain ⟨bits, within, rfl, represents⟩ :=
    exists_represents restricts.flavors_eq restricts.counted itemized items integers accepted
  have lists := Value.Lists.list (bits.map fun (bit : Nat) => Value.int bit)
  have places := Problem.places_of_choices restricts.flavors_eq restricts.counted (mem_choices within) lists
  have violated := restricts.violatedConstraints_represents byValue within represents accepted
  have decodedFeasible := restricts.isFeasible_eq_ok within lists
  have feasible : problem.isFeasible configuration = _ := (congrArg (·.map List.isEmpty) violated).trans decodedFeasible
  refine ⟨bits, within, _, _, rfl, ?_, ?_, violated, feasible, fun plain => ?_, fun fits => ?_,
    fun format nonempty formatted => ⟨?_, ?_⟩⟩
  · rw [Problem.configurationOf_eq_ok (Value.isId_idOf _) places.within, restricts.flavors_eq]
    exact congrArg Except.ok (ofPosition_positionsOf (mem_choices within))
  · exact priced.solutionSize_plain (represents_bits bits) within decodedFeasible (List.forall_mem_map.2 fun _ _ => rfl)
  · exact priced.solutionSize_plain represents within feasible plain
  · have formatted : ∀ value ∈ values, ∀ format, value.wordFormat? = some format →
        format ∈ values.filterMap Number.wordFormat? :=
      fun value member format stored => List.mem_filterMap.2 ⟨value, member, stored⟩
    obtain ⟨shown, found, stands⟩ := priced.exists_solutionSize represents within feasible formatted fits
    exact ⟨_, found, stands.equal_int fits.size⟩
  · exact priced.solutionSize_words represents within feasible nonempty formatted
  · rw [Value.IsInteger.equal_eq_ok ⟨_, rfl, rfl⟩ (Value.isInteger_int _)]
    exact congrArg Except.ok (decide_eq_decide.2 IntFormat.reduce_eq_iff)

def wordsOf (format : IntFormat) (bits : List Nat) : Value :=
  .array (.word format) [bits.length] true (bits.map fun (bit : Nat) => .number (.ofWord format bit))

def heavyEdge : VertexCovering := ⟨Graph.oneEdge, .tuple [.int 100, .int 27]⟩

theorem areInts_heavyEdge : Weights.AreInts heavyEdge.weights [100, 27] := by
  intro index bound
  obtain rfl | rfl : index = 0 ∨ index = 1 := by
    simp only [List.length_cons, List.length_nil] at bound
    omega
  · rfl
  · rfl

theorem Selecting.solutionSize_represented_heavyEdge :
    VertexCovering.make Graph.oneEdge (.list [.int 100, .int 27]) = .ok heavyEdge ∧
    heavyEdge.problem.configurationId (wordsOf .int8 [1, 1]) = .ok [2, 2] ∧
    heavyEdge.problem.solutionSize (wordsOf .int8 [1, 1]) = .ok ⟨.number (.ofWord .int8 127), true⟩ ∧
    (Value.number (.ofWord .int8 127)).equal (.int 127) = .ok true := by
  have made : VertexCovering.make Graph.oneEdge (.list [.int 100, .int 27]) = .ok heavyEdge := rfl
  have accepted : heavyEdge.problem.configurationId (wordsOf .int8 [1, 1]) = .ok [2, 2] := rfl
  have ofBytes : ∀ value ∈ [Number.ofWord .int8 1, .ofWord .int8 1], value.wordFormat? = some .int8 := by
    simp [Number.ofWord, Number.wordFormat?]
  have integers : ∀ value ∈ [Number.ofWord .int8 1, .ofWord .int8 1], ∃ whole, value.integer? = some whole := by
    simp [Number.ofWord, Number.integer?]
  obtain ⟨bits, _, decoded, valid, _, decodes, plain, _, _, _, _, words⟩ :=
    @Selecting.solutionSize_represented (wordsOf .int8 [1, 1]) _ _ _
      (.vertexCovering Graph.simple_oneEdge made areInts_heavyEdge) rfl rfl integers _ accepted
  obtain ⟨found, shows⟩ := words .int8 (by simp) ofBytes
  have decoding : heavyEdge.problem.configurationOf (.idOf [2, 2]) = .ok [.int 1, .int 1] := rfl
  cases decodes.symm.trans decoding
  have size : heavyEdge.problem.solutionSize (.list [.int 1, .int 1]) = .ok ⟨.int 127, true⟩ := rfl
  obtain ⟨same, rfl⟩ := SolutionSize.mk.injEq .. ▸ Except.ok.inj (plain.symm.trans size)
  rw [Number.int.inj (Value.number.inj same)] at found shows
  rw [if_pos (by decide)] at found
  exact ⟨made, accepted, found, shows⟩

/-- A lone vertex has no size in bytes without a sign, which hold no opposite of its weight; and in bytes with a sign the
    ends of an edge that weigh 200 together have the size -56. -/
theorem Selecting.exists_solutionSize_differs :
    (∃ graph independent, Graph.build .undirected [.int 1] [] = .ok graph ∧
      IndependentSet.make graph .none = .ok independent ∧
      independent.problem.configurationId (wordsOf .uint8 [1]) = .ok [2] ∧
      independent.problem.configurationOf (.idOf [2]) = .ok [.int 1] ∧
      independent.problem.solutionSize (.list [.int 1]) = .ok ⟨.int 1, true⟩ ∧
      independent.problem.solutionSize (wordsOf .uint8 [1]) = .error .tooLarge) ∧
    ∃ covering, VertexCovering.make Graph.oneEdge (.list [.int 100, .int 100]) = .ok covering ∧
      covering.problem.configurationId (wordsOf .int8 [1, 1]) = .ok [2, 2] ∧
      covering.problem.configurationOf (.idOf [2, 2]) = .ok [.int 1, .int 1] ∧
      covering.problem.solutionSize (.list [.int 1, .int 1]) = .ok ⟨.int 200, true⟩ ∧
      covering.problem.solutionSize (wordsOf .int8 [1, 1]) = .ok ⟨.number (.ofWord .int8 (-56)), true⟩ ∧
      (Value.number (.ofWord .int8 (-56))).equal (.int 200) = .ok false :=
  ⟨⟨_, _, rfl, rfl, rfl, rfl, rfl, rfl⟩, _, rfl, rfl, rfl, rfl, rfl, rfl⟩

end Selection

end EnergyTables
