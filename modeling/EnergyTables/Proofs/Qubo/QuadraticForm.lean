import EnergyTables.Proofs.Selection.Posing
import EnergyTables.Proofs.Value.WholeReals
import Mathlib.Algebra.BigOperators.Intervals
import Mathlib.Algebra.Order.BigOperators.Group.Finset

namespace EnergyTables

open Flavor Constraint Selection

namespace Term

/-- Reals that are integers add up as the integers do, where there is room for all of them. -/
theorem addReads_reals {id : Value} {numbers : List Int} {terms : List Term}
    (reads : List.Forall₂ (fun (number : Int) (term : Term) => ∃ real : Binary .double, real.IsWhole number ∧
      term.lookUp id = .ok (Matrix.real real)) numbers terms)
    {start : Binary .double} {first : Int} (whole : start.IsWhole first)
    (room : |first| + (numbers.map fun number => |number|).sum ≤ 2 ^ 53) :
    ∃ total : Binary .double, total.IsWhole (first + numbers.sum) ∧
      addReads id terms (Matrix.real start) = .ok (Matrix.real total) := by
  induction reads generalizing start first with
  | nil => exact ⟨start, by rwa [List.sum_nil, add_zero], rfl⟩
  | @cons number term numbers terms read _ ih =>
    obtain ⟨real, realWhole, found⟩ := read
    rw [List.map_cons, List.sum_cons] at room
    have step := abs_add_le first number
    have rest : 0 ≤ (numbers.map fun number => |number|).sum :=
      List.sum_nonneg (List.forall_mem_map.2 fun _ _ => abs_nonneg _)
    -- the room bounds absolute values, so that what one number takes is missing to the numbers that follow
    have next := whole.add realWhole (by omega)
    obtain ⟨total, totalWhole, sums⟩ := ih next (by omega)
    have added : (Matrix.real start).add (Matrix.real real) = .ok (Matrix.real (start.add real)) := by
      rw [Matrix.real, Matrix.real, Value.add_number, Number.combine_real]
      rfl
    refine ⟨total, ?_, ?_⟩
    · rwa [List.sum_cons, ← add_assoc]
    · rw [addReads_cons found, added, Outcome.ok_bind, sums]

end Term

namespace Qubo

def share (number : Int) (positions : List Nat) : Int := if positions.all (· = 1 + 1) then number else 0

theorem abs_share_le (number : Int) (positions : List Nat) : |share number positions| ≤ |number| := by
  unfold share
  split
  · exact le_rfl
  · rw [abs_zero]
    exact abs_nonneg number

/-- A constraint on some of the variables with a small integer as its coefficient. -/
structure Couples (count : Nat) (constraint : SoftConstraint) (number : Int) : Prop where
  inside : ∀ index ∈ constraint.scope, 1 ≤ index ∧ index ≤ count
  small : |number| ≤ 2 ^ 53
  energy_eq : ∃ coefficient : Binary .double, coefficient.IsWhole number ∧
    constraint.energy = energy constraint.scope (.float coefficient)

theorem small_toInt (truth : Bool) : |truth.toInt| ≤ 2 ^ 53 := by cases truth <;> decide

theorem energy_eq_mul {scope : List Int} {positions : List Nat} (within : positions ∈ Positions 2 scope.length)
    (coefficient : Binary .double) :
    energy scope (.float coefficient) (.list (positions.map (ofPosition flavors))) =
      .ok (.float (coefficient.mul (.ofInt .double (positions.all (· = 1 + 1)).toInt))) := by
  have ones := all_eq_ok isOne_ofPosition within.2
  have finite : Number.floatPart (.int (positions.all (· = 1 + 1)).toInt) =
      .ok (.ofInt .double (positions.all (· = 1 + 1)).toInt) := by
    rw [Number.floatPart, Number.finiteReal_ofInt (small_toInt _)]
  have product : (Value.float coefficient).mul (.int (positions.all (· = 1 + 1)).toInt) =
      (do return .number (← (Number.float coefficient).combine .mul (.int (positions.all (· = 1 + 1)).toInt))) := rfl
  rw [energy, checkArity_list (by rw [List.length_map, within.1]), Outcome.ok_bind, (Value.Lists.list _).items_eq,
    Outcome.ok_bind, ones, Outcome.ok_bind, product, Number.combine_float_left _ _ (.int _), finite]
  rfl

theorem energy_eq_ok {scope : List Int} {positions : List Nat} (within : positions ∈ Positions 2 scope.length)
    {coefficient : Binary .double} {number : Int} (whole : coefficient.IsWhole number) (small : |number| ≤ 2 ^ 53) :
    ∃ product : Binary .double, product.IsWhole (share number positions) ∧
      energy scope (.float coefficient) (.list (positions.map (ofPosition flavors))) = .ok (.float product) := by
  have product_eq : number * (positions.all (· = 1 + 1)).toInt = share number positions := by
    unfold share
    cases positions.all (· = 1 + 1) <;> simp
  have wholeProduct := whole.mul (Binary.isWhole_ofInt (small_toInt _))
    (by rw [product_eq]; exact (abs_share_le _ _).trans small)
  rw [product_eq] at wholeProduct
  exact ⟨_, wholeProduct, energy_eq_mul within coefficient⟩

theorem exists_softTerm_of_float {problem : Problem} (flavored : problem.flavors = flavors)
    {constraint : SoftConstraint} (inside : ∀ index ∈ constraint.scope, 1 ≤ index ∧ index ≤ problem.variableCount)
    {coefficient : Binary .double} (same : constraint.energy = energy constraint.scope (.float coefficient)) :
    ∃ term, problem.softTerm (.stored (.real .double)) constraint = .ok term := by
  rw [Problem.softTerm, checkVariables_eq_ok_iff.2 inside, Outcome.ok_bind, flavored]
  apply Term.exists_compile
  intro positions within
  have stored : ∀ real : Binary .double, (Kind.stored (.real .double)).convert (.float real) = .ok (Matrix.real real) :=
    fun _ => rfl
  rw [same, energy_eq_mul within coefficient, Outcome.ok_bind, stored, Outcome.ok_bind]
  exact ⟨_, Term.cell_number _ _⟩

theorem Couples.tabled_eq_ok {count : Nat} {constraint : SoftConstraint} {number : Int}
    (couples : Couples count constraint number) {positions : List Nat}
    (within : positions ∈ Positions 2 constraint.scope.length) :
    ∃ real : Binary .double, real.IsWhole (share number positions) ∧
      constraint.tabled (.stored (.real .double)) (positions.map (ofPosition flavors)) = .ok (Matrix.real real) := by
  obtain ⟨coefficient, whole, energy_eq⟩ := couples.energy_eq
  obtain ⟨product, productWhole, found⟩ := energy_eq_ok within whole couples.small
  refine ⟨product, productWhole, ?_⟩
  rw [SoftConstraint.tabled, energy_eq, found]
  rfl

theorem Couples.exists_softTerm {problem : Problem} {count : Nat} (flavored : problem.flavors = flavors)
    (counted : problem.variableCount = count) {constraint : SoftConstraint} {number : Int}
    (couples : Couples count constraint number) :
    ∃ term, problem.softTerm (.stored (.real .double)) constraint = .ok term ∧
      ∀ positions ∈ Positions 2 count, ∃ real : Binary .double,
        real.IsWhole (share number (localPositions constraint.scope positions)) ∧
        term.lookUp (.idOf positions) = .ok (Matrix.real real) := by
  have two : flavors.length = 2 := rfl
  have inside : ∀ index ∈ constraint.scope, 1 ≤ index ∧ index ≤ problem.variableCount := by
    rw [counted]
    exact couples.inside
  obtain ⟨_, _, same⟩ := couples.energy_eq
  obtain ⟨term, compiled⟩ := exists_softTerm_of_float flavored inside same
  refine ⟨term, compiled, fun positions within => ?_⟩
  obtain ⟨_, tabulates⟩ := Problem.tabulates_of_softTerm compiled
  rw [flavored] at tabulates
  rw [← two] at within
  obtain ⟨value, found, read⟩ := tabulates.lookUp_eq_ok (Value.isId_idOf positions) within couples.inside
  rw [two] at within
  obtain ⟨real, whole, tabled⟩ := couples.tabled_eq_ok (localPositions_mem within couples.inside)
  rw [tabled, Outcome.ok_bind, Matrix.real, Term.cell_number] at found
  rw [read, ← found]
  exact ⟨real, whole, rfl⟩

def Yields (bits : List Nat) (constraint : SoftConstraint) (amount : Int) : Prop :=
  ∃ number, Couples bits.length constraint number ∧
    amount = share number (localPositions constraint.scope (positionsOf bits))

/-- Couplings with a total for a vector, and with a bound on the sum of their absolute amounts. -/
def Sums (bits : List Nat) (constraints : List SoftConstraint) (total bound : Int) : Prop :=
  ∃ amounts : List Int, List.Forall₂ (Yields bits) constraints amounts ∧ amounts.sum = total ∧
    (amounts.map fun amount => |amount|).sum ≤ bound

namespace Sums

variable {bits : List Nat}

theorem nil : Sums bits [] 0 0 := ⟨[], .nil, rfl, le_rfl⟩

theorem mono {constraints : List SoftConstraint} {total bound larger : Int} (sums : Sums bits constraints total bound)
    (less : bound ≤ larger) : Sums bits constraints total larger := by
  obtain ⟨amounts, yields, sum, most⟩ := sums
  exact ⟨amounts, yields, sum, most.trans less⟩

theorem append {front back : List SoftConstraint} {frontTotal frontBound backTotal backBound : Int}
    (frontSums : Sums bits front frontTotal frontBound) (backSums : Sums bits back backTotal backBound) :
    Sums bits (front ++ back) (frontTotal + backTotal) (frontBound + backBound) := by
  obtain ⟨fronts, frontYields, rfl, frontMost⟩ := frontSums
  obtain ⟨backs, backYields, rfl, backMost⟩ := backSums
  refine ⟨fronts ++ backs, List.rel_append frontYields backYields, List.sum_append, ?_⟩
  rw [List.map_append, List.sum_append]
  exact add_le_add frontMost backMost

theorem flatMap {items : List Nat} {constraints : Nat → List SoftConstraint} {total bound : Nat → Int}
    (sums : ∀ item ∈ items, Sums bits (constraints item) (total item) (bound item)) :
    Sums bits (items.flatMap constraints) (items.map total).sum (items.map bound).sum := by
  induction items with
  | nil => exact nil
  | cons item items ih =>
    obtain ⟨first, rest⟩ := List.forall_mem_cons.1 sums
    rw [List.flatMap_cons, List.map_cons, List.sum_cons, List.map_cons, List.sum_cons]
    exact first.append (ih rest)

end Sums

theorem sums_term {bits : List Nat} {scope : List Int} (tag : String) {coefficient : Binary .double} {number : Int}
    (inside : ∀ index ∈ scope, 1 ≤ index ∧ index ≤ bits.length) (whole : coefficient.IsWhole number)
    (small : |number| ≤ 2 ^ 53) :
    Sums bits (term scope tag coefficient) (share number (localPositions scope (positionsOf bits))) |number| := by
  unfold term
  by_cases none : number = 0
  · rw [if_pos ((Matrix.isZero_iff whole).2 none)]
    have nothing : share number (localPositions scope (positionsOf bits)) = 0 := by
      rw [none]
      exact ite_self 0
    rw [nothing, none, abs_zero]
    exact .nil
  · rw [if_neg (mt (Matrix.isZero_iff whole).1 none)]
    refine ⟨[share number (localPositions scope (positionsOf bits))], .cons ⟨number, ?_, rfl⟩ .nil, ?_, ?_⟩
    · exact ⟨inside, small, coefficient, whole, rfl⟩
    · rw [List.sum_singleton]
    · rw [List.map_singleton, List.sum_singleton]
      exact abs_share_le _ _

def bit (bits : List Nat) (place : Nat) : Int := bits.getD place 0

def form (count : Nat) (entry : Nat → Nat → Int) (bits : List Nat) : Int :=
  ∑ row ∈ Finset.range count, ∑ column ∈ Finset.range count, entry row column * bit bits row * bit bits column

def mass (count : Nat) (entry : Nat → Nat → Int) : Int :=
  ∑ row ∈ Finset.range count, ∑ column ∈ Finset.range count, |entry row column|

theorem bit_eq {bits : List Nat} {count place : Nat} (within : bits ∈ Vectors count) (bound : place < count) :
    bit bits place = 0 ∨ bit bits place = 1 := by
  have inside : place < bits.length := by rwa [within.1]
  have small := within.2 _ (List.getElem_mem inside)
  rw [bit, List.getD_eq_getElem _ _ inside]
  omega

theorem bit_mul_self {bits : List Nat} {count place : Nat} (within : bits ∈ Vectors count) (bound : place < count) :
    bit bits place * bit bits place = bit bits place := by
  rcases bit_eq within bound with zero | one
  · rw [zero, mul_zero]
  · rw [one, mul_one]

theorem inside_single {count place : Nat} (bound : place < count) :
    ∀ index ∈ [(place : Int) + 1], 1 ≤ index ∧ index ≤ count := by
  intro index member
  rw [List.mem_singleton.1 member]
  omega

theorem inside_pair {count row column : Nat} (rowBound : row < count) (columnBound : column < count) :
    ∀ index ∈ [(row : Int) + 1, (column : Int) + 1], 1 ≤ index ∧ index ≤ count :=
  List.forall_mem_cons.2 ⟨inside_single rowBound _ (List.mem_singleton_self _), inside_single columnBound⟩

theorem bitAt_succ (bits : List Nat) (place : Nat) : (bitAt bits ((place : Int) + 1) : Int) = bit bits place := by
  have index : ((place : Int) + 1).toNat - 1 = place := by omega
  rw [bitAt, index, bit]

theorem share_single {bits : List Nat} {count place : Nat} (within : bits ∈ Vectors count) (bound : place < count)
    (number : Int) :
    share number (localPositions [(place : Int) + 1] (positionsOf bits)) = number * bit bits place := by
  have same := bitAt_succ bits place
  rw [localPositions_bits within (inside_single bound), List.map_singleton, share, ← same]
  rcases bit_eq within bound with zero | one
  · have unset : bitAt bits ((place : Int) + 1) = 0 := by omega
    simp [unset]
  · have set : bitAt bits ((place : Int) + 1) = 1 := by omega
    simp [set]

theorem share_append (number : Int) (front back : List Nat) :
    share number (front ++ back) = share (share number front) back := by
  unfold share
  rw [List.all_append]
  cases front.all (· = 1 + 1) <;> cases back.all (· = 1 + 1) <;> rfl

theorem share_pair {bits : List Nat} {count row column : Nat} (within : bits ∈ Vectors count) (rowBound : row < count)
    (columnBound : column < count) (number : Int) :
    share number (localPositions [(row : Int) + 1, (column : Int) + 1] (positionsOf bits)) =
      number * bit bits row * bit bits column := by
  have both : localPositions [(row : Int) + 1, (column : Int) + 1] (positionsOf bits) =
      localPositions [(row : Int) + 1] (positionsOf bits) ++ localPositions [(column : Int) + 1] (positionsOf bits) := rfl
  rw [both, share_append, share_single within rowBound, share_single within columnBound]

theorem sum_fold (pair : Nat → Nat → Int) (count : Nat) :
    ∑ row ∈ Finset.range count, pair row row + ∑ row ∈ Finset.range count,
      ∑ column ∈ Finset.Ico (row + 1) count, (pair row column + pair column row) =
    ∑ row ∈ Finset.range count, ∑ column ∈ Finset.range count, pair row column := by
  induction count with
  | zero => rfl
  | succ count ih =>
    -- the last row and the last column come in together, folded
    have folded : ∑ row ∈ Finset.range count, ∑ column ∈ Finset.Ico (row + 1) (count + 1),
        (pair row column + pair column row) =
        ∑ row ∈ Finset.range count, ∑ column ∈ Finset.Ico (row + 1) count, (pair row column + pair column row) +
          ∑ row ∈ Finset.range count, (pair row count + pair count row) := by
      rw [← Finset.sum_add_distrib]
      apply Finset.sum_congr rfl
      intro row member
      exact Finset.sum_Ico_succ_top (Finset.mem_range.1 member) _
    have square : ∑ row ∈ Finset.range count, ∑ column ∈ Finset.range (count + 1), pair row column =
        ∑ row ∈ Finset.range count, ∑ column ∈ Finset.range count, pair row column +
          ∑ row ∈ Finset.range count, pair row count := by
      rw [← Finset.sum_add_distrib]
      apply Finset.sum_congr rfl
      intro row _
      exact Finset.sum_range_succ _ _
    rw [Finset.sum_range_succ, Finset.sum_range_succ _ count, folded, Finset.Ico_self, Finset.sum_empty,
      Finset.sum_range_succ _ count, square, ← ih, Finset.sum_range_succ _ count, Finset.sum_add_distrib]
    ring

theorem sum_list_fold (pair : Nat → Nat → Int) (count : Nat) :
    ((List.range count).map fun row => pair row row).sum + ((List.range count).map fun row =>
      ((List.range' (row + 1) (count - row - 1)).map fun column => pair row column + pair column row).sum).sum =
    ∑ row ∈ Finset.range count, ∑ column ∈ Finset.range count, pair row column := by
  rw [← sum_fold]
  rfl

theorem abs_le_row {count : Nat} (entry : Nat → Nat → Int) (row : Nat) {column : Nat} (bound : column < count) :
    |entry row column| ≤ ∑ other ∈ Finset.range count, |entry row other| :=
  Finset.single_le_sum (f := fun other => |entry row other|) (fun _ _ => abs_nonneg _) (Finset.mem_range.2 bound)

theorem abs_add_abs_le_mass {count : Nat} (entry : Nat → Nat → Int) {row column : Nat} (rowBound : row < count)
    (columnBound : column < count) (differ : row ≠ column) :
    |entry row column| + |entry column row| ≤ mass count entry :=
  calc |entry row column| + |entry column row|
      ≤ ∑ other ∈ Finset.range count, |entry row other| + ∑ other ∈ Finset.range count, |entry column other| :=
        add_le_add (abs_le_row entry row columnBound) (abs_le_row entry column rowBound)
    _ ≤ mass count entry :=
        Finset.add_le_sum (f := fun row => ∑ other ∈ Finset.range count, |entry row other|)
          (fun _ _ => Finset.sum_nonneg fun _ _ => abs_nonneg _) (Finset.mem_range.2 rowBound)
          (Finset.mem_range.2 columnBound) differ

theorem abs_le_mass {count : Nat} (entry : Nat → Nat → Int) {row column : Nat} (rowBound : row < count)
    (columnBound : column < count) : |entry row column| ≤ mass count entry :=
  calc |entry row column|
      ≤ ∑ other ∈ Finset.range count, |entry row other| := abs_le_row entry row columnBound
    _ ≤ mass count entry :=
        Finset.single_le_sum (f := fun row => ∑ other ∈ Finset.range count, |entry row other|)
          (fun _ _ => Finset.sum_nonneg fun _ _ => abs_nonneg _) (Finset.mem_range.2 rowBound)

end Qubo

structure Matrix.Holds (matrix : Matrix) (count : Nat) (entry : Nat → Nat → Int) : Prop where
  size_eq : matrix.size = count
  whole : ∀ row < count, ∀ column < count, (matrix.cell row column).IsWhole (entry row column)

namespace Qubo

section Holds

variable {matrix : Matrix} {entry : Nat → Nat → Int} {bits : List Nat}

theorem sums_linearTerms (holds : matrix.Holds bits.length entry) (room : mass bits.length entry ≤ 2 ^ 53)
    (within : bits ∈ Vectors bits.length) :
    Sums bits (linearTerms matrix)
      ((List.range bits.length).map fun row => entry row row * bit bits row * bit bits row).sum
      ((List.range bits.length).map fun row => |entry row row|).sum := by
  unfold linearTerms
  rw [holds.size_eq]
  apply Sums.flatMap
  intro row member
  have bound := List.mem_range.1 member
  have sums := sums_term "linear" (inside_single bound) (holds.whole row bound row bound)
    ((abs_le_mass entry bound bound).trans room)
  rw [share_single within bound, ← bit_mul_self within bound, ← mul_assoc] at sums
  exact sums

theorem sums_quadraticTerms (holds : matrix.Holds bits.length entry) (room : mass bits.length entry ≤ 2 ^ 53)
    (within : bits ∈ Vectors bits.length) :
    Sums bits (quadraticTerms matrix)
      ((List.range bits.length).map fun row => ((List.range' (row + 1) (bits.length - row - 1)).map fun column =>
        entry row column * bit bits row * bit bits column + entry column row * bit bits column * bit bits row).sum).sum
      ((List.range bits.length).map fun row => ((List.range' (row + 1) (bits.length - row - 1)).map fun column =>
        |entry row column| + |entry column row|).sum).sum := by
  unfold quadraticTerms
  rw [holds.size_eq]
  apply Sums.flatMap
  intro row rowMember
  have rowBound := List.mem_range.1 rowMember
  apply Sums.flatMap
  intro column columnMember
  obtain ⟨above, below⟩ := List.mem_range'_1.1 columnMember
  have columnBound : column < bits.length := by omega
  -- the matrix folds a pair with one real addition, exact since both entries have their share in the mass
  have most : |entry row column + entry column row| ≤ |entry row column| + |entry column row| := abs_add_le _ _
  have small := (abs_add_abs_le_mass entry rowBound columnBound (by omega)).trans room
  have whole := (holds.whole row rowBound column columnBound).add (holds.whole column columnBound row rowBound)
    (most.trans small)
  have sums := (sums_term "quadratic" (inside_pair rowBound columnBound) whole (most.trans small)).mono most
  have product : (entry row column + entry column row) * bit bits row * bit bits column =
      entry row column * bit bits row * bit bits column + entry column row * bit bits column * bit bits row := by ring
  rw [share_pair within rowBound columnBound, product] at sums
  exact sums

theorem sums_softConstraints (holds : matrix.Holds bits.length entry) (room : mass bits.length entry ≤ 2 ^ 53)
    (within : bits ∈ Vectors bits.length) :
    Sums bits (linearTerms matrix ++ quadraticTerms matrix) (form bits.length entry bits) (mass bits.length entry) := by
  have sums := (sums_linearTerms holds room within).append (sums_quadraticTerms holds room within)
  have total := sum_list_fold (fun row column => entry row column * bit bits row * bit bits column) bits.length
  have bound := sum_list_fold (fun row column => |entry row column|) bits.length
  rw [total, bound] at sums
  exact sums

end Holds

def HasEnergy (qubo : Qubo) (configuration : Value) (number : Int) : Prop :=
  ∃ energy : Binary .double, qubo.problem.energy configuration = .ok (.number (.real .double energy)) ∧
    energy.toRat? = some (number : Rat)

theorem exists_terms {problem : Problem} {bits : List Nat} (flavored : problem.flavors = flavors)
    (counted : problem.variableCount = bits.length) (within : positionsOf bits ∈ Positions 2 bits.length)
    {constraints : List SoftConstraint} {amounts : List Int} (yields : List.Forall₂ (Yields bits) constraints amounts) :
    ∃ terms, constraints.mapM (problem.softTerm (.stored (.real .double))) = .ok terms ∧
      List.Forall₂ (fun (amount : Int) (term : Term) => ∃ real : Binary .double, real.IsWhole amount ∧
        term.lookUp (.idOf (positionsOf bits)) = .ok (Matrix.real real)) amounts terms := by
  induction yields with
  | nil => exact ⟨[], rfl, .nil⟩
  | cons yield _ ih =>
    obtain ⟨number, couples, rfl⟩ := yield
    obtain ⟨term, compiled, reads⟩ := couples.exists_softTerm flavored counted
    obtain ⟨terms, rest, restReads⟩ := ih
    refine ⟨term :: terms, ?_, .cons (reads _ within) restReads⟩
    simp only [List.mapM_cons, compiled, rest, Outcome.ok_bind, Outcome.pure_eq_ok]

theorem energyTerms_eq_mapM (qubo : Qubo) : qubo.problem.energyTerms =
    (linearTerms qubo.matrix ++ quadraticTerms qubo.matrix).mapM (qubo.problem.softTerm (.stored (.real .double))) := by
  have energyKind : qubo.problem.energyKind = .ok (.stored (.real .double)) := rfl
  have isZero : (Kind.stored (.real .double)).zero = .ok (Matrix.real (.zero .double)) := rfl
  have isSentinel : (Kind.stored (.real .double)).sentinel = .ok (Matrix.real (.largest .double)) := rfl
  have hard : qubo.problem.hardConstraints = .ok [] := rfl
  have soft : qubo.problem.softConstraints = .ok (linearTerms qubo.matrix ++ quadraticTerms qubo.matrix) := rfl
  rw [Problem.energyTerms, Problem.tables, energyKind, Outcome.ok_bind, isZero, Outcome.ok_bind, isSentinel,
    Outcome.ok_bind, hard, Outcome.ok_bind, List.mapM_nil, Outcome.pure_eq_ok, Outcome.ok_bind, soft, Outcome.ok_bind]
  cases (linearTerms qubo.matrix ++ quadraticTerms qubo.matrix).mapM (qubo.problem.softTerm (.stored (.real .double))) <;>
    rfl

/-- Where the entries together stay below two to the precision, an energy is the quadratic form, without rounding. -/
theorem hasEnergy_form {qubo : Qubo} {count : Nat} {entry : Nat → Nat → Int} (holds : qubo.matrix.Holds count entry)
    (room : mass count entry ≤ 2 ^ 53) {bits : List Nat} (within : bits ∈ Vectors count) {configuration : Value}
    (lists : configuration.Lists (bits.map fun (bit : Nat) => .int bit)) :
    qubo.HasEnergy configuration (form count entry bits) := by
  obtain rfl := within.1
  have flavored : qubo.problem.flavors = flavors := rfl
  have counted : qubo.problem.variableCount = bits.length := congrArg Nat.cast holds.size_eq
  have places := Problem.places_of_choices flavored counted (mem_choices within) lists
  obtain ⟨amounts, yields, total, most⟩ := sums_softConstraints holds room within
  obtain ⟨terms, compiled, reads⟩ := exists_terms flavored counted places.within yields
  obtain ⟨start, startWhole, stored, _⟩ :=
    @Number.IsWhole.exists_real (.int 0) 0 (.integer rfl) (by decide)
  have energyKind : qubo.problem.energyKind = .ok (.stored (.real .double)) := rfl
  have isZero : (Kind.stored (.real .double)).zero = .ok (Matrix.real start) := stored
  have tables : qubo.problem.energyTerms = .ok terms := by rw [energyTerms_eq_mapM, compiled]
  obtain ⟨sum, sumWhole, sums⟩ :=
    Term.addReads_reals reads startWhole (by rw [abs_zero, zero_add]; exact most.trans room)
  rw [zero_add, total] at sumWhole
  refine ⟨sum, ?_, sumWhole⟩
  rw [Problem.energy, places.placed, Outcome.ok_bind, tables, Outcome.ok_bind,
    energyKind, Outcome.ok_bind]
  exact (energyById_some _ terms isZero).trans sums

end Qubo

end EnergyTables
