import EnergyTables.Family.SetPacking
import EnergyTables.Proofs.Graph.Simple
import EnergyTables.Proofs.Selection.Posing

namespace EnergyTables

theorem Constraint.scopeOf_ends (source target : Int) : scopeOf (.tuple [.int source, .int target]) =
    if source = target then refuse (.repeatedVariables [source, target]) else .ok [source, target] := by
  have numbers : [Value.int source, Value.int target].mapM Value.toInt = .ok [source, target] := by
    refine Outcome.mapM_eq_ok_iff.2 (.cons ?_ (.cons ?_ .nil))
    · exact congrArg Except.ok (Int.tdiv_one source)
    · exact congrArg Except.ok (Int.tdiv_one target)
  have distinct : [source, target].Nodup ↔ ¬ source = target := by simp
  rw [scopeOf, (Value.Lists.tuple _).items_eq, Outcome.ok_bind, numbers, Outcome.ok_bind, if_congr distinct rfl rfl]
  exact ite_not ..

theorem Constraint.scopeOf_pair {source target : Int} (differ : source ≠ target) :
    scopeOf (.tuple [.int source, .int target]) = .ok [source, target] := by
  rw [scopeOf_ends, if_neg differ]

namespace Selection

theorem onEdges_eq_ok {graph : Graph} {kind : GraphKind} {vertices : List Int} {edges : List (Int × Int)} {count : Nat}
    (simple : graph.Simple kind vertices edges count) (tag : String) (rule : List Int → Value → Outcome Bool) :
    onEdges graph tag rule = .ok ((Graph.ranked kind edges).map (onPair tag rule)) := by
  rw [onEdges, simple.sortedEdges_eq_ok, Outcome.ok_bind, Outcome.mapM_eq_ok_iff, List.forall₂_map_left_iff,
    List.forall₂_map_right_iff, List.forall₂_same]
  intro edge member
  have ends := simple.ranked_inside member
  simp only [Graph.pairOf]
  rw [Constraint.scopeOf_pair (by omega)]
  rfl

end Selection

namespace SetPacking

theorem mem_pairs {first : Nat} {sets : List (List Value)} {left right : Nat × List Value} :
    (left, right) ∈ pairs first sets ↔ ∃ front back, front < back ∧ sets[front]? = some left.2 ∧
      sets[back]? = some right.2 ∧ left.1 = first + front ∧ right.1 = first + back := by
  induction sets generalizing first with
  | nil => simp [pairs]
  | cons set rest ih =>
    -- the first set is paired with all that follow it, and those are paired among themselves
    rw [pairs, List.mem_append, ih, List.mem_map]
    constructor
    · rintro (⟨⟨other, second⟩, member, same⟩ | ⟨front, back, before, frontStands, backStands, leftPlace, rightPlace⟩)
      · cases same
        obtain ⟨from_first, stands⟩ := List.mk_mem_zipIdx_iff_le_and_getElem?_sub.1 member
        refine ⟨0, second - first, by omega, rfl, ?_, rfl, by omega⟩
        rwa [show second - first = (second - (first + 1)) + 1 by omega, List.getElem?_cons_succ]
      · exact ⟨front + 1, back + 1, by omega, frontStands, backStands, by omega, by omega⟩
    · rintro ⟨front, back, before, frontStands, backStands, leftPlace, rightPlace⟩
      obtain ⟨back, rfl⟩ : ∃ previous, back = previous + 1 := ⟨back - 1, by omega⟩
      cases front with
      | zero =>
        refine .inl ⟨(right.2, right.1), List.mk_mem_zipIdx_iff_le_and_getElem?_sub.2 ⟨by omega, ?_⟩, ?_⟩
        · rwa [show right.1 - (first + 1) = back by omega]
        · cases frontStands
          exact Prod.ext (Prod.ext leftPlace.symm rfl) rfl
      | succ front => exact .inr ⟨front, back, by omega, frontStands, backStands, by omega, by omega⟩

theorem intersect_eq_true_iff {left right : List Value} :
    intersect left right = true ↔ ∃ element ∈ left, ∃ other ∈ right, element.sameKey other = true := by
  rw [intersect, List.any_eq_true]
  simp only [List.any_eq_true]

theorem flatten_singletons {α β : Type} (test : α → Bool) (make : α → β) (items : List α) :
    (items.map fun item => if test item then [make item] else []).flatten = (items.filter test).map make := by
  induction items with
  | nil => rfl
  | cons item items ih =>
    rw [List.map_cons, List.flatten_cons, ih, List.filter_cons]
    split
    · rfl
    · rfl

def variablesOf (pair : (Nat × List Value) × (Nat × List Value)) : Int × Int :=
  ((pair.1.1 : Int) + 1, (pair.2.1 : Int) + 1)

def meetings (sets : List (List Value)) : List (Int × Int) :=
  ((pairs 0 sets).filter fun pair => intersect pair.1.2 pair.2.2).map variablesOf

theorem mem_meetings {sets : List (List Value)} {pair : Int × Int} :
    pair ∈ meetings sets ↔ ∃ (front back : Nat) (left right : List Value), front < back ∧ sets[front]? = some left ∧
      sets[back]? = some right ∧ (∃ element ∈ left, ∃ other ∈ right, element.sameKey other = true) ∧
      pair = ((front : Int) + 1, (back : Int) + 1) := by
  rw [meetings, List.mem_map]
  constructor
  · rintro ⟨⟨left, right⟩, member, rfl⟩
    obtain ⟨listed, meet⟩ := List.mem_filter.1 member
    obtain ⟨front, back, before, frontStands, backStands, leftPlace, rightPlace⟩ := mem_pairs.1 listed
    refine ⟨front, back, left.2, right.2, before, frontStands, backStands, intersect_eq_true_iff.1 meet, ?_⟩
    rw [variablesOf, leftPlace, rightPlace, Nat.zero_add, Nat.zero_add]
  · rintro ⟨front, back, left, right, before, frontStands, backStands, meet, rfl⟩
    refine ⟨((front, left), (back, right)), List.mem_filter.2 ⟨mem_pairs.2 ?_, intersect_eq_true_iff.2 meet⟩, rfl⟩
    exact ⟨front, back, before, frontStands, backStands, (Nat.zero_add _).symm, (Nat.zero_add _).symm⟩

def Comparable (sets : List (List Value)) : Prop :=
  ∀ pair ∈ pairs 0 sets, checkKeys pair.1.2 = .ok () ∧ checkKeys pair.2.2 = .ok ()

theorem comparable_of_keys {sets : List (List Value)}
    (keys : 2 ≤ sets.length → ∀ set ∈ sets, Value.areKeys set = true) : Comparable sets := by
  intro pair member
  rcases mem_pairs.1 member with ⟨front, back, before, frontStands, backStands, _⟩
  have bound := (List.getElem?_eq_some_iff.1 backStands).1
  have keys := keys (by omega)
  exact ⟨if_pos (keys _ (List.mem_of_getElem? frontStands)), if_pos (keys _ (List.mem_of_getElem? backStands))⟩

variable {packing : SetPacking}

theorem disjointness_eq_ok (comparable : Comparable packing.sets) :
    packing.disjointness =
      .ok ((meetings packing.sets).map (Selection.onPair "disjoint" Selection.someUnselected)) := by
  have compared : (pairs 0 packing.sets).mapM (fun pair => do
      checkKeys pair.1.2
      checkKeys pair.2.2
      return if intersect pair.1.2 pair.2.2 then
          [Selection.onPair "disjoint" Selection.someUnselected (variablesOf pair)]
        else []) = Except.ok (ε := Fault) ((pairs 0 packing.sets).map fun pair =>
          if intersect pair.1.2 pair.2.2 then [Selection.onPair "disjoint" Selection.someUnselected (variablesOf pair)]
          else []) := by
    apply Outcome.mapM_eq_map _
    intro pair member
    rcases comparable pair member with ⟨left, right⟩
    rw [left, Outcome.ok_bind, right]
    rfl
  rw [meetings, List.map_map, ← flatten_singletons]
  exact congrArg (· >>= fun constraints => Except.ok constraints.flatten) compared

end SetPacking

end EnergyTables
