import EnergyTables.Proofs.Evaluation.StrayVariables
import EnergyTables.Proofs.Qubo.NormalForm

namespace EnergyTables

open Constraint Selection

namespace Qubo

def byVariable (terms : List (Int × Value)) : List (Value × Value) := terms.map fun term => (.int term.1, term.2)

def byPair (terms : List ((Int × Int) × Value)) : List (Value × Value) := terms.map fun term => (pairKey term.1, term.2)

def KeysWithin (least greatest : Int) (linear : List (Int × Value)) (quadratic : List ((Int × Int) × Value)) : Prop :=
  (∀ term ∈ linear, Within least greatest [term.1]) ∧ ∀ term ∈ quadratic, Within least greatest [term.1.1, term.1.2]

/-- The coefficients as they are added, one after another, each with the names of its row and its column. -/
def inOrder (linear : List (Int × Value)) (quadratic : List ((Int × Int) × Value)) : List ((Int × Int) × Value) :=
  linear.map (fun term => ((term.1, term.1), term.2)) ++
    quadratic.map fun term => ((min term.1.1 term.1.2, max term.1.1 term.1.2), term.2)

/-- The place of the variable that is read for a key. -/
def readPlace (size key : Int) : Nat := (readVariable size key - 1).toNat

def readCell (size : Int) (keys : Int × Int) : Nat × Nat := (readPlace size keys.1, readPlace size keys.2)

def amountsAt (cells : List ((Nat × Nat) × Binary .double)) (row column : Nat) : List (Binary .double) :=
  (cells.filter fun cell => cell.1 = (row, column)).map Prod.snd

theorem within_pair {least greatest left right : Int} :
    Within least greatest [left, right] ↔ (least ≤ left ∧ left ≤ greatest) ∧ least ≤ right ∧ right ≤ greatest := by
  simp [Within]

theorem within_single {least greatest key : Int} : Within least greatest [key] ↔ least ≤ key ∧ key ≤ greatest := by
  simp [Within]

theorem keysWithin_iff {least greatest : Int} {linear : List (Int × Value)} {quadratic : List ((Int × Int) × Value)} :
    KeysWithin least greatest linear quadratic ↔
      ∀ term ∈ inOrder linear quadratic, Within least greatest [term.1.1, term.1.2] := by
  simp only [inOrder, List.forall_mem_append, List.forall_mem_map, KeysWithin, within_pair, within_single, and_self]
  refine and_congr_right fun _ => forall₂_congr fun term _ => ?_
  omega

theorem readPlace_lt {count : Nat} {key : Int} (reached : 1 - (count : Int) ≤ key ∧ key ≤ count) :
    readPlace count key < count := by
  unfold readPlace readVariable
  split <;> omega

theorem readCell_lt {count : Nat} {keys : Int × Int} (reached : Within (1 - count) count [keys.1, keys.2]) :
    (readCell count keys).1 < count ∧ (readCell count keys).2 < count := by
  obtain ⟨left, right⟩ := within_pair.1 reached
  exact ⟨readPlace_lt left, readPlace_lt right⟩

theorem bitAt_readVariable (bits : List Nat) (size key : Int) :
    (bitAt bits (readVariable size key) : Int) = bit bits (readPlace size key) := by
  have same : (readVariable size key).toNat - 1 = readPlace size key := by
    unfold readPlace
    omega
  rw [bitAt, same, bit]

theorem itemAt?_range (count : Nat) (index : Int) : itemAt? (List.range count) index =
    if -(count : Int) ≤ index ∧ index < count then some (if 0 ≤ index then index else index + count).toNat else none := by
  by_cases inside : -(count : Int) ≤ index ∧ index < count
  · rw [if_pos inside]
    unfold itemAt?
    rw [List.length_range]
    split
    · exact List.getElem?_range (by omega)
    · rw [if_pos (by omega)]
      exact List.getElem?_range (by omega)
  · rw [if_neg inside, itemAt?_eq_none_iff, List.length_range]
    omega

theorem place_int (count : Nat) (key : Int) : place count (.int key) =
    if 1 - (count : Int) ≤ key ∧ key ≤ count then .ok (readPlace count key) else .error .indexOutOfRange := by
  have less : (Value.int key).sub (.int 1) = .ok (.number (.int (key - 1))) := rfl
  have index : (Value.number (.int (key - 1))).asIndex = .ok (key - 1) := rfl
  simp only [place, less, Outcome.ok_bind, index, itemAt?_range]
  by_cases reached : 1 - (count : Int) ≤ key ∧ key ≤ count
  · rw [if_pos reached, if_pos (by omega)]
    unfold readPlace readVariable
    by_cases positive : 0 < key
    · rw [if_pos positive, if_pos (by omega)]
      rfl
    · have counted : key - 1 + count = key + count - 1 := by omega
      rw [if_neg positive, if_neg (by omega), counted]
      rfl
  · rw [if_neg reached, if_neg (by omega)]
    rfl

theorem place_eq_ok_iff {count found : Nat} {key : Int} : place count (.int key) = .ok found ↔
    (1 - (count : Int) ≤ key ∧ key ≤ count) ∧ readPlace count key = found := by
  rw [place_int]
  split
  next reached => simp [reached]
  next beyond =>
    constructor
    · rintro ⟨⟩
    · rintro ⟨reached, _⟩
      exact absurd reached beyond

theorem place_readPlace {count : Nat} {key : Int} (reached : 1 - (count : Int) ≤ key ∧ key ≤ count) :
    place count (.int key) = place count (.int (readPlace count key + 1)) := by
  rw [place_int, if_pos reached, place_eq_ok (readPlace_lt reached)]

theorem adds_int {value : Int} (small : |value| ≤ 2 ^ 53) : Adds (.int value) (.ofInt .double value) := by
  have stored : (Number.int value).inReal .double = .ok (.ofInt .double value) := by
    rw [Number.inReal, Number.finiteReal_ofInt small, Outcome.ok_bind, Binary.convert_self]
    rfl
  exact fun cell => Number.add_real cell rfl stored

def addTerm (matrix : Matrix) (term : (Int × Int) × Value) : Outcome Matrix :=
  addAt matrix (.int term.1.1) (.int term.1.2) term.2

section Runs

variable {matrix next : Matrix} {terms : List ((Int × Int) × Value)}

theorem within_of_addTerm {term : (Int × Int) × Value} (added : addTerm matrix term = .ok next) :
    Within (1 - matrix.size) matrix.size [term.1.1, term.1.2] ∧ next.size = matrix.size := by
  obtain ⟨_, isRow, added⟩ := Outcome.bind_eq_ok_iff.1 added
  obtain ⟨_, isColumn, added⟩ := Outcome.bind_eq_ok_iff.1 added
  obtain ⟨_, _, added⟩ := Outcome.bind_eq_ok_iff.1 added
  obtain ⟨_, _, rfl⟩ := Outcome.map_eq_ok_iff.1 added
  exact ⟨within_pair.2 ⟨(place_eq_ok_iff.1 isRow).1, (place_eq_ok_iff.1 isColumn).1⟩, rfl⟩

theorem within_of_run (ran : terms.foldlM addTerm matrix = .ok next) :
    (∀ term ∈ terms, Within (1 - matrix.size) matrix.size [term.1.1, term.1.2]) ∧ next.size = matrix.size := by
  induction terms generalizing matrix with
  | nil =>
    cases ran
    exact ⟨by simp, rfl⟩
  | cons term terms ih =>
    rw [List.foldlM_cons] at ran
    obtain ⟨current, added, ran⟩ := Outcome.bind_eq_ok_iff.1 ran
    obtain ⟨within, size⟩ := within_of_addTerm added
    obtain ⟨rest, last⟩ := ih ran
    rw [size] at rest last
    exact ⟨List.forall_mem_cons.2 ⟨within, rest⟩, last⟩

theorem run_eq_ok {amount : Value → Binary .double} (adds : ∀ term ∈ terms, Adds term.2 (amount term.2))
    (within : ∀ term ∈ terms, Within (1 - matrix.size) matrix.size [term.1.1, term.1.2]) :
    terms.foldlM addTerm matrix = .ok ((terms.map fun term => (readCell matrix.size term.1, amount term.2)).foldl
      (fun current cell => current.increase cell.1 cell.2) matrix) := by
  induction terms generalizing matrix with
  | nil => rfl
  | cons term terms ih =>
    obtain ⟨firstAdds, restAdds⟩ := List.forall_mem_cons.1 adds
    obtain ⟨first, rest⟩ := List.forall_mem_cons.1 within
    obtain ⟨row, column⟩ := within_pair.1 first
    have added : addTerm matrix term = .ok (matrix.increase (readCell matrix.size term.1) (amount term.2)) :=
      addAt_eq_ok (place_eq_ok_iff.2 ⟨row, rfl⟩) (place_eq_ok_iff.2 ⟨column, rfl⟩) firstAdds
    have later := @ih (matrix.increase (readCell matrix.size term.1) (amount term.2)) restAdds rest
    rw [List.foldlM_cons, added, Outcome.ok_bind, later, List.map_cons, List.foldl_cons]
    rfl

/-- Each cell ends as the sum of what goes into it, whatever else is added between. -/
theorem cell_foldl {cells : List ((Nat × Nat) × Binary .double)}
    (inside : ∀ cell ∈ cells, cell.1.1 < matrix.size ∧ cell.1.2 < matrix.size) {row column : Nat}
    (bound : column < matrix.size) :
    (cells.foldl (fun current cell => current.increase cell.1 cell.2) matrix).cell row column =
      (amountsAt cells row column).foldl Binary.add (matrix.cell row column) := by
  induction cells generalizing matrix with
  | nil => rfl
  | cons cell cells ih =>
    obtain ⟨first, rest⟩ := List.forall_mem_cons.1 inside
    have later := @ih (matrix.increase cell.1 cell.2) rest bound
    rw [List.foldl_cons, later, Matrix.increase, Matrix.cell_setCell first.1 first.2 bound]
    unfold amountsAt
    rw [List.filter_cons]
    by_cases same : cell.1 = (row, column)
    · rw [if_pos same, if_pos (decide_eq_true same), List.map_cons, List.foldl_cons, same]
    · rw [if_neg same, if_neg (by simpa using same)]

theorem exists_run {count : Nat} {value : Value → Int}
    (within : ∀ term ∈ terms, Within (1 - count) count [term.1.1, term.1.2])
    (whole : ∀ term ∈ terms, IsCoefficient term.2 (value term.2))
    (room : (terms.map fun term => |value term.2|).sum ≤ 2 ^ 53) :
    ∃ last, terms.foldlM addTerm (Matrix.zero count) = .ok last ∧
      last.Holds count (tally (terms.map fun term => (readCell count term.1, value term.2))) := by
  have steps : List.Forall₂ (fun item (term : (Nat × Nat) × Int) => ∃ given, IsCoefficient given term.2 ∧
      ∀ matrix : Matrix, matrix.size = count →
        addTerm matrix item = addAt matrix (.int (term.1.1 + 1)) (.int (term.1.2 + 1)) given)
      terms (terms.map fun term => (readCell count term.1, value term.2)) := by
    rw [List.forall₂_map_right_iff, List.forall₂_same]
    intro term member
    obtain ⟨row, column⟩ := within_pair.1 (within term member)
    refine ⟨term.2, whole term member, fun matrix size => ?_⟩
    have sameRow := place_readPlace row
    have sameColumn := place_readPlace column
    rw [← size] at sameRow sameColumn
    rw [addTerm, addAt, addAt, sameRow, sameColumn, size]
    rfl
  have inside : ∀ term ∈ [] ++ terms.map fun term => (readCell count term.1, value term.2),
      term.1.1 < count ∧ term.1.2 < count :=
    List.forall_mem_map.2 fun term member => readCell_lt (within term member)
  refine exists_foldlM_addAt steps inside (Matrix.holds_zero count) ?_
  rw [List.nil_append, weight, List.map_map]
  exact room

end Runs

variable {size : Int} {linear : List (Int × Value)} {quadratic : List ((Int × Int) × Value)}

theorem mergeKeys_byVariable (distinct : (linear.map Prod.fst).Nodup) :
    mergeKeys (byVariable linear) = .ok (byVariable linear) := by
  refine mergeKeys_eq_ok (List.forall_mem_map.2 fun _ _ => rfl) (List.pairwise_map.2 ?_)
  refine (List.pairwise_map.1 distinct).imp fun differ => ?_
  rw [Value.sameKey_int, decide_eq_false differ]

theorem mergeKeys_byPair (distinct : (quadratic.map Prod.fst).Nodup) :
    mergeKeys (byPair quadratic) = .ok (byPair quadratic) :=
  mergeKeys_eq_ok (List.forall_mem_map.2 fun _ _ => rfl)
    (List.pairwise_map.2 ((List.pairwise_map.1 distinct).imp fun differ => sameKey_pairKey differ))

theorem ofTerms_eq_run (linearKeys : (linear.map Prod.fst).Nodup) (quadraticKeys : (quadratic.map Prod.fst).Nodup) :
    ofTerms (.int size) (byVariable linear) (byPair quadratic) =
      if 0 ≤ size ∧ 8 * (size * size) < Value.sizeLimit then
        (do return ⟨← (inOrder linear quadratic).foldlM addTerm (Matrix.zero size.toNat)⟩)
      else .error .invalid := by
  have pairs : ∀ matrix : Matrix, (byPair quadratic).foldlM addPair matrix =
      (quadratic.map fun term => ((min term.1.1 term.1.2, max term.1.1 term.1.2), term.2)).foldlM addTerm matrix := by
    intro matrix
    rw [byPair, List.foldlM_map, List.foldlM_map]
    simp only [addPair_int]
    rfl
  rw [ofTerms_eq_foldlM, mergeKeys_byVariable linearKeys, Outcome.ok_bind, mergeKeys_byPair quadraticKeys,
    Outcome.ok_bind, sizeOf_eq]
  split
  · simp only [Outcome.ok_bind, pairs, inOrder, List.foldlM_append, byVariable, List.foldlM_map, bind_assoc]
    rfl
  · rfl

theorem exists_run_of_ofTerms (linearKeys : (linear.map Prod.fst).Nodup)
    (quadraticKeys : (quadratic.map Prod.fst).Nodup) {qubo : Qubo}
    (made : ofTerms (.int size) (byVariable linear) (byPair quadratic) = .ok qubo) :
    0 ≤ size ∧ 8 * (size * size) < Value.sizeLimit ∧
      (inOrder linear quadratic).foldlM addTerm (Matrix.zero size.toNat) = .ok qubo.matrix := by
  rw [ofTerms_eq_run linearKeys quadraticKeys] at made
  split at made
  next fits =>
    obtain ⟨matrix, ran, rfl⟩ := Outcome.map_eq_ok_iff.1 made
    exact ⟨fits.1, fits.2, ran⟩
  next => cases made

/-- The coefficients of the variables that are read for the keys, summed over the variables and pairs that are one. -/
def readPolynomial (size : Int) (value : Value → Int) (linear : List (Int × Value))
    (quadratic : List ((Int × Int) × Value)) (bits : List Nat) : Int :=
  polynomial (linear.map fun term => (readVariable size term.1, value term.2))
    (quadratic.map fun term => ((readVariable size term.1.1, readVariable size term.1.2), value term.2)) bits

theorem keysWithin_of_ofTerms (linearKeys : (linear.map Prod.fst).Nodup)
    (quadraticKeys : (quadratic.map Prod.fst).Nodup) {qubo : Qubo}
    (made : ofTerms (.int size) (byVariable linear) (byPair quadratic) = .ok qubo) :
    (qubo.matrix.size : Int) = size ∧ KeysWithin (1 - size) size linear quadratic := by
  obtain ⟨positive, _, ran⟩ := exists_run_of_ofTerms linearKeys quadraticKeys made
  obtain ⟨within, sized⟩ := within_of_run ran
  have counted : ((Matrix.zero size.toNat).size : Int) = size := Int.toNat_of_nonneg positive
  rw [counted] at within
  exact ⟨by rw [sized, counted], keysWithin_iff.2 within⟩

theorem ofTerms_eq_ok (linearKeys : (linear.map Prod.fst).Nodup) (quadraticKeys : (quadratic.map Prod.fst).Nodup)
    {amount : Value → Binary .double} (adds : ∀ term ∈ inOrder linear quadratic, Adds term.2 (amount term.2))
    (fits : 0 ≤ size ∧ 8 * (size * size) < Value.sizeLimit) (within : KeysWithin (1 - size) size linear quadratic) :
    ofTerms (.int size) (byVariable linear) (byPair quadratic) =
      .ok ⟨((inOrder linear quadratic).map fun term => (readCell size term.1, amount term.2)).foldl
        (fun current cell => current.increase cell.1 cell.2) (Matrix.zero size.toNat)⟩ := by
  have counted : ((Matrix.zero size.toNat).size : Int) = size := Int.toNat_of_nonneg fits.1
  have reached := keysWithin_iff.1 within
  rw [← counted] at reached
  have ran := run_eq_ok adds reached
  rw [counted] at ran
  rw [ofTerms_eq_run linearKeys quadraticKeys, if_pos fits, ran]
  rfl

theorem cell_ofTerms (linearKeys : (linear.map Prod.fst).Nodup) (quadraticKeys : (quadratic.map Prod.fst).Nodup)
    {amount : Value → Binary .double} (adds : ∀ term ∈ inOrder linear quadratic, Adds term.2 (amount term.2)) {qubo : Qubo}
    (made : ofTerms (.int size) (byVariable linear) (byPair quadratic) = .ok qubo) {row column : Nat}
    (bound : column < qubo.matrix.size) : qubo.matrix.cell row column =
      (amountsAt ((inOrder linear quadratic).map fun term => (readCell size term.1, amount term.2)) row column).foldl
        Binary.add (.zero .double) := by
  obtain ⟨positive, small, _⟩ := exists_run_of_ofTerms linearKeys quadraticKeys made
  obtain ⟨sized, within⟩ := keysWithin_of_ofTerms linearKeys quadraticKeys made
  have same := ofTerms_eq_ok linearKeys quadraticKeys adds ⟨positive, small⟩ within
  have counted : ((Matrix.zero size.toNat).size : Int) = size := Int.toNat_of_nonneg positive
  have inside : ∀ cell ∈ (inOrder linear quadratic).map fun term => (readCell size term.1, amount term.2),
      cell.1.1 < (Matrix.zero size.toNat).size ∧ cell.1.2 < (Matrix.zero size.toNat).size := by
    refine List.forall_mem_map.2 fun term member => ?_
    have reached := keysWithin_iff.1 within term member
    rw [← counted] at reached ⊢
    exact readCell_lt reached
  have sums := @cell_foldl (Matrix.zero size.toNat) _ inside row column (by omega)
  rw [Matrix.cell_zero] at sums
  rw [made] at same
  rw [Except.ok.inj same, sums]

theorem sum_readCell {count : Nat} {value : Value → Int} {bits : List Nat} (within : bits ∈ Vectors count)
    (reached : KeysWithin (1 - count) count linear quadratic) :
    (((inOrder linear quadratic).map fun term => (readCell count term.1, value term.2)).map fun term =>
      term.2 * bit bits term.1.1 * bit bits term.1.2).sum = readPolynomial count value linear quadratic bits := by
  have singles : ∀ term ∈ linear, value term.2 * bit bits (readPlace count term.1) * bit bits (readPlace count term.1) =
      value term.2 * (bitAt bits (readVariable count term.1) : Int) := by
    intro term member
    -- a bit is its own square
    rw [mul_assoc, bit_mul_self within (readPlace_lt (within_single.1 (reached.1 term member))), bitAt_readVariable]
  have pairs : ∀ term ∈ quadratic, value term.2 * bit bits (readPlace count (min term.1.1 term.1.2)) *
      bit bits (readPlace count (max term.1.1 term.1.2)) = value term.2 *
        (bitAt bits (readVariable count term.1.1) : Int) * (bitAt bits (readVariable count term.1.2) : Int) := by
    intro term _
    rw [bitAt_readVariable, bitAt_readVariable]
    rcases le_total term.1.1 term.1.2 with ordered | ordered
    · rw [min_eq_left ordered, max_eq_right ordered]
    · rw [min_eq_right ordered, max_eq_left ordered, mul_right_comm]
  rw [List.map_map, inOrder, List.map_append, List.sum_append, List.map_map, List.map_map, readPolynomial, polynomial,
    List.map_map, List.map_map]
  exact congrArg₂ (· + ·) (congrArg List.sum (List.map_congr_left singles)) (congrArg List.sum (List.map_congr_left pairs))

theorem hasEnergy_ofTerms (linearKeys : (linear.map Prod.fst).Nodup) (quadraticKeys : (quadratic.map Prod.fst).Nodup)
    {value : Value → Int} (whole : ∀ term ∈ inOrder linear quadratic, IsCoefficient term.2 (value term.2))
    (room : ((inOrder linear quadratic).map fun term => |value term.2|).sum ≤ 2 ^ 53) {qubo : Qubo}
    (made : ofTerms (.int size) (byVariable linear) (byPair quadratic) = .ok qubo) {bits : List Nat}
    (within : bits ∈ Vectors qubo.matrix.size) {configuration : Value}
    (lists : configuration.Lists (bits.map fun (bit : Nat) => .int bit)) :
    qubo.HasEnergy configuration (readPolynomial size value linear quadratic bits) := by
  obtain ⟨_, _, ran⟩ := exists_run_of_ofTerms linearKeys quadraticKeys made
  obtain ⟨counted, keys⟩ := keysWithin_of_ofTerms linearKeys quadraticKeys made
  have reached := keysWithin_iff.1 keys
  obtain ⟨count, rfl⟩ : ∃ count : Nat, (count : Int) = size := ⟨_, counted⟩
  obtain rfl := Int.ofNat.inj counted
  rw [Int.toNat_natCast] at ran
  obtain ⟨last, sums, holds⟩ := exists_run reached whole room
  obtain rfl : last = qubo.matrix := Except.ok.inj (sums.symm.trans ran)
  have inside : ∀ term ∈ (inOrder linear quadratic).map fun term => (readCell qubo.matrix.size term.1, value term.2),
      term.1.1 < qubo.matrix.size ∧ term.1.2 < qubo.matrix.size :=
    List.forall_mem_map.2 fun term member => readCell_lt (reached term member)
  have mass := mass_tally_le inside
  rw [weight, List.map_map] at mass
  have energy := hasEnergy_form holds (mass.trans room) within lists
  rwa [form_tally inside, sum_readCell within keys] at energy

/-- Whatever the coefficients, the problem of two dictionaries is made only if counting from the end reaches all keys.
    Coefficients that are added as reals make it whenever it does, in a size that a matrix can have, and each cell then
    holds the sum of those whose keys are read as its row and its column. Whole ones that have room make the energies
    their sum over the variables read, so that a key of zero or below counts for the variable that far from the end. -/
theorem ofTerms_reads (linearKeys : (linear.map Prod.fst).Nodup) (quadraticKeys : (quadratic.map Prod.fst).Nodup) :
    (∀ qubo, ofTerms (.int size) (byVariable linear) (byPair quadratic) = .ok qubo →
      (qubo.matrix.size : Int) = size ∧ KeysWithin (1 - size) size linear quadratic) ∧
    (∀ amount : Value → Binary .double, (∀ term ∈ inOrder linear quadratic, Adds term.2 (amount term.2)) →
      ((∃ qubo, ofTerms (.int size) (byVariable linear) (byPair quadratic) = .ok qubo) ↔
        (0 ≤ size ∧ 8 * (size * size) < Value.sizeLimit) ∧ KeysWithin (1 - size) size linear quadratic) ∧
      ∀ qubo, ofTerms (.int size) (byVariable linear) (byPair quadratic) = .ok qubo →
        ∀ row < qubo.matrix.size, ∀ column < qubo.matrix.size, qubo.matrix.cell row column =
          (amountsAt ((inOrder linear quadratic).map fun term => (readCell size term.1, amount term.2)) row column).foldl
            Binary.add (.zero .double)) ∧
    ∀ value : Value → Int, (∀ term ∈ inOrder linear quadratic, IsCoefficient term.2 (value term.2)) →
      ((inOrder linear quadratic).map fun term => |value term.2|).sum ≤ 2 ^ 53 →
      ∀ qubo, ofTerms (.int size) (byVariable linear) (byPair quadratic) = .ok qubo →
        ∀ bits ∈ Vectors qubo.matrix.size, ∀ configuration : Value,
          configuration.Lists (bits.map fun (bit : Nat) => .int bit) →
          qubo.HasEnergy configuration (readPolynomial size value linear quadratic bits) := by
  refine ⟨fun qubo made => keysWithin_of_ofTerms linearKeys quadraticKeys made, fun amount adds => ⟨⟨?_, ?_⟩, ?_⟩, ?_⟩
  · rintro ⟨qubo, made⟩
    obtain ⟨positive, small, _⟩ := exists_run_of_ofTerms linearKeys quadraticKeys made
    exact ⟨⟨positive, small⟩, (keysWithin_of_ofTerms linearKeys quadraticKeys made).2⟩
  · rintro ⟨fits, within⟩
    exact ⟨_, ofTerms_eq_ok linearKeys quadraticKeys adds fits within⟩
  · intro qubo made row _ column bound
    exact cell_ofTerms linearKeys quadraticKeys adds made bound
  · intro value whole room qubo made bits within configuration lists
    exact hasEnergy_ofTerms linearKeys quadraticKeys whole room made within lists

theorem ofTerms_reads_zero : ∃ qubo, ofTerms (.int 2) (byVariable [(0, .int 5)]) (byPair [((0, 1), .int 3)]) = .ok qubo ∧
    qubo.HasEnergy (.list [.int 0, .int 1]) 5 ∧ qubo.HasEnergy (.list [.int 1, .int 0]) 0 ∧
    qubo.HasEnergy (.list [.int 1, .int 1]) 8 := by
  obtain ⟨sizes, additive, energies⟩ := @ofTerms_reads 2 [(0, .int 5)] [((0, 1), .int 3)] (by decide) (by decide)
  have within : KeysWithin (1 - 2) 2 [(0, .int 5)] [((0, 1), .int 3)] := by simp [KeysWithin, Within]
  have adds : ∀ term ∈ inOrder [(0, .int 5)] [((0, 1), .int 3)], Adds term.2 (.ofInt .double term.2.whole) := by
    simp only [inOrder, List.map_cons, List.map_nil, List.cons_append, List.nil_append, List.forall_mem_cons]
    exact ⟨adds_int (by decide), adds_int (by decide), by simp⟩
  have whole : ∀ term ∈ inOrder [(0, .int 5)] [((0, 1), .int 3)], IsCoefficient term.2 term.2.whole := by
    simp only [inOrder, List.map_cons, List.map_nil, List.cons_append, List.nil_append, List.forall_mem_cons]
    exact ⟨⟨_, rfl, .integer rfl⟩, ⟨_, rfl, .integer rfl⟩, by simp⟩
  obtain ⟨qubo, made⟩ := (additive (fun given => .ofInt .double given.whole) adds).1.2 ⟨⟨by decide, by decide⟩, within⟩
  have count : qubo.matrix.size = 2 := by have := (sizes qubo made).1; omega
  have energy := energies Value.whole whole (by decide) qubo made
  rw [count] at energy
  exact ⟨qubo, made, energy [0, 1] ⟨rfl, by decide⟩ _ (.list _), energy [1, 0] ⟨rfl, by decide⟩ _ (.list _),
    energy [1, 1] ⟨rfl, by decide⟩ _ (.list _)⟩

/-- A key of zero names no variable, but its coefficient becomes one of the last; a key past the last is refused. -/
theorem exists_key_misread : (∃ qubo, ofTerms (.int 2) (byVariable [(0, .int 5)]) (byPair []) = .ok qubo ∧
      (linearTerms qubo.matrix ++ quadraticTerms qubo.matrix).map SoftConstraint.scope = [[2]]) ∧
    ¬ KeysWithin 1 2 [(0, .int 5)] [] ∧
    ofTerms (.int 2) (byVariable [(3, .int 5)]) (byPair []) = .error .indexOutOfRange := by
  have adds : ∀ term ∈ inOrder [(0, .int 5)] [], Adds term.2 (.ofInt .double 5) := by
    simp only [inOrder, List.map_cons, List.map_nil, List.append_nil, List.forall_mem_singleton]
    exact adds_int (by decide)
  have made := @ofTerms_eq_ok 2 [(0, .int 5)] [] (by decide) (by decide) (fun _ => .ofInt .double 5) adds
    ⟨by decide, by decide⟩ (by simp [KeysWithin, Within])
  refine ⟨⟨_, made, ?_⟩, by simp [KeysWithin, Within], rfl⟩
  decide +kernel

end Qubo

end EnergyTables
