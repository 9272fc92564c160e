import EnergyTables.Evaluation
import EnergyTables.Proofs.Tables.Compilation
import Mathlib.Data.List.GetD

namespace EnergyTables

open Flavor

namespace Value

inductive Lists : Value → List Value → Prop
  | list (items : List Value) : Lists (.list items) items
  | tuple (items : List Value) : Lists (.tuple items) items

theorem Lists.items_eq {value : Value} {items : List Value} (lists : value.Lists items) : value.items = .ok items := by
  cases lists <;> rfl

theorem Lists.length_eq {value : Value} {items : List Value} (lists : value.Lists items) :
    value.length = .ok items.length := by
  cases lists <;> rfl

theorem Lists.itemAt_eq {value : Value} {items : List Value} (lists : value.Lists items) (index : Int) :
    value.itemAt index = orOutOfRange (itemAt? items index) := by
  cases lists <;> rfl

theorem Lists.itemAt_sub_one {value : Value} {items : List Value} (lists : value.Lists items) {index : Int}
    (inside : 1 ≤ index ∧ index ≤ items.length) :
    value.itemAt (index - 1) = .ok (items.getD (index.toNat - 1) .none) := by
  obtain ⟨place, rfl⟩ := Int.eq_ofNat_of_zero_le (by omega : 0 ≤ index)
  have bound : place - 1 < items.length := by omega
  rw [lists.itemAt_eq, show (place : Int) - 1 = (place - 1 : Nat) by omega, itemAt?_natCast, Int.toNat_natCast,
    List.getElem?_eq_getElem bound, List.getD_eq_getElem?_getD, List.getElem?_eq_getElem bound]
  rfl

def IsId (id : Value) (positions : List Nat) : Prop := id.Lists (positions.map fun (position : Nat) => .int position)

end Value

namespace Constraint

def localPositions (scope : List Int) (positions : List Nat) : List Nat :=
  scope.map fun index => positions.getD (index.toNat - 1) 0

theorem localPositions_mem {flavorCount count : Nat} {positions : List Nat} {scope : List Int}
    (within : positions ∈ Positions flavorCount count) (inside : ∀ index ∈ scope, 1 ≤ index ∧ index ≤ count) :
    localPositions scope positions ∈ Positions flavorCount scope.length := by
  refine ⟨List.length_map _, fun position member => ?_⟩
  obtain ⟨index, indexMember, rfl⟩ := List.mem_map.1 member
  have bound : index.toNat - 1 < positions.length := by
    have := inside index indexMember
    rw [within.1]
    omega
  rw [List.getD_eq_getElem _ _ bound]
  exact within.2 _ (List.getElem_mem bound)

theorem localValues_eq_ok {flavorCount count : Nat} {positions : List Nat} {scope : List Int} (flavors : List Value)
    (within : positions ∈ Positions flavorCount count) (inside : ∀ index ∈ scope, 1 ≤ index ∧ index ≤ count) :
    localValues (.list (positions.map (ofPosition flavors))) scope =
      .ok ((localPositions scope positions).map (ofPosition flavors)) := by
  rw [localPositions, List.map_map]
  apply Outcome.mapM_eq_map _
  intro index member
  have bounds := inside index member
  have bound : index.toNat - 1 < positions.length := by rw [within.1]; omega
  rw [(Value.Lists.list _).itemAt_sub_one (by rw [List.length_map, within.1]; exact bounds),
    List.getD_eq_getElem _ _ (by rw [List.length_map]; exact bound), List.getElem_map, Function.comp_apply,
    List.getD_eq_getElem _ _ bound]

end Constraint

namespace Term

open Constraint

theorem positionOf_eq_ok {term : Term} {id : Value} {positions : List Nat} {count : Nat} {index : Int}
    (isId : id.IsId positions) (within : positions ∈ Positions term.flavors.length count)
    (inside : 1 ≤ index ∧ index ≤ count) :
    term.positionOf id index = .ok (.int (positions.getD (index.toNat - 1) 0 : Nat)) := by
  have bound : index.toNat - 1 < positions.length := by rw [within.1]; omega
  have among := within.2 _ (List.getElem_mem bound)
  rw [positionOf, isId.itemAt_sub_one (by rw [List.length_map, within.1]; exact inside),
    List.getD_eq_getElem _ _ (by rw [List.length_map]; exact bound), List.getElem_map, List.getD_eq_getElem _ _ bound,
    Outcome.ok_bind, Value.between_int, Outcome.ok_bind, decide_eq_true (by omega), if_pos rfl]
  rfl

theorem foldlM_address {term : Term} {id : Value} (positionAt : Int → Nat) (strides scope : List Int) (start : Int)
    (reads : ∀ index ∈ scope, term.positionOf id index = .ok (.int (positionAt index))) :
    (strides.zip scope).foldlM (fun (address : Value) ((stride, index) : Int × Int) => do
      let position ← term.positionOf id index
      address.add (← (Value.int stride).mul (← position.sub (.int 1)))) (.int start) =
      .ok (.int (start + strided strides (scope.map positionAt))) := by
  induction strides generalizing scope start with
  | nil => simp [strided]
  | cons stride strides ih =>
    cases scope with
    | nil => simp [strided]
    | cons index scope =>
      obtain ⟨first, rest⟩ := List.forall_mem_cons.1 reads
      have tail := ih scope (start + stride * ((positionAt index : Int) - 1)) rest
      rw [List.zip_cons_cons, List.foldlM_cons]
      dsimp only
      rw [first, Outcome.ok_bind]
      refine tail.trans ?_
      simp only [strided, List.map_cons, List.zipWith_cons_cons, List.sum_cons, Int.add_assoc]

theorem address_of_reads {term : Term} {id : Value} (positionAt : Int → Nat)
    (reads : ∀ index ∈ term.scope, term.positionOf id index = .ok (.int (positionAt index))) :
    term.address id = .ok (.int (strided term.strides (term.scope.map positionAt))) := by
  rw [address, foldlM_address positionAt _ _ _ reads, Int.zero_add]

theorem address_eq_ok {term : Term} {id : Value} {positions : List Nat} {count : Nat} (isId : id.IsId positions)
    (within : positions ∈ Positions term.flavors.length count)
    (inside : ∀ index ∈ term.scope, 1 ≤ index ∧ index ≤ count) :
    term.address id = .ok (.int (strided term.strides (localPositions term.scope positions))) :=
  address_of_reads (fun index => positions.getD (index.toNat - 1) 0) fun index member =>
    positionOf_eq_ok isId within (inside index member)

theorem entry_int (term : Term) {address : Int} (positive : 0 ≤ address) :
    term.entry (.int address) = Value.orOutOfRange term.energies[address.toNat]? := by
  have index : (Value.int address).asIndex = .ok address := rfl
  simp only [entry, index, if_neg (Int.not_lt.2 positive)]

/-- What an id reads in a table is the energy of its local flavors. -/
theorem Tabulates.lookUp_eq_ok {term : Term} {scope : List Int} {flavors : List Value} {storage : Storage}
    {energy : List Value → Outcome Value} (tabulates : term.Tabulates scope flavors storage energy) {id : Value}
    {positions : List Nat} {count : Nat} (isId : id.IsId positions)
    (within : positions ∈ Positions flavors.length count) (inside : ∀ index ∈ scope, 1 ≤ index ∧ index ≤ count) :
    ∃ value, energy ((localPositions scope positions).map (ofPosition flavors)) = .ok value ∧
      term.lookUp id = .ok value := by
  have among := localPositions_mem within inside
  obtain ⟨value, found, stored⟩ := tabulates.entry _ among
  have positive : 0 ≤ strided term.strides (localPositions scope positions) := by
    rw [tabulates.strides_eq, ← powers_eq_map_pow, strided_powers among]
    exact Int.natCast_nonneg _
  refine ⟨value, found, ?_⟩
  rw [lookUp, address_eq_ok isId (by rwa [tabulates.flavors_eq]) (by rwa [tabulates.scope_eq]),
    tabulates.scope_eq, Outcome.ok_bind, entry_int term positive, stored]
  rfl

end Term

end EnergyTables
