import EnergyTables.Proofs.Evaluation.Configurations
import EnergyTables.Proofs.Graph.Simple

namespace EnergyTables

open Flavor

namespace Graph

variable {count : Nat} {values : List Nat} {configuration : Value} {listed : List (Int × Int)}

theorem valueAt_int (lists : configuration.Lists (values.map fun (value : Nat) => .int value)) {vertex : Int}
    (inside : 1 ≤ vertex ∧ vertex ≤ values.length) :
    valueAt configuration (.int vertex) = .ok (.int (choiceAt values vertex)) := by
  have bound : vertex.toNat - 1 < values.length := by omega
  have reads : valueAt configuration (.int vertex) = configuration.itemAt (vertex - 1) := by
    cases lists <;> rfl
  rw [reads, lists.itemAt_sub_one (by rwa [List.length_map]), choiceAt, List.getD_eq_getElem _ _ bound,
    List.getD_eq_getElem _ _ (by rwa [List.length_map]), List.getElem_map]

theorem allEdges_eq_ok (lists : configuration.Lists (values.map fun (value : Nat) => .int value))
    {test : Value → Value → Outcome Bool} {holds : Nat → Nat → Bool}
    (tests : ∀ left right : Nat, test (.int left) (.int right) = .ok (holds left right))
    (inside : ∀ edge ∈ listed,
      (1 ≤ edge.1 ∧ edge.1 ≤ values.length) ∧ (1 ≤ edge.2 ∧ edge.2 ≤ values.length)) :
    allEdges test configuration (listed.map pairOf) =
      .ok (listed.all fun edge => holds (choiceAt values edge.1) (choiceAt values edge.2)) := by
  induction listed with
  | nil => rfl
  | cons edge listed ih =>
    rcases List.forall_mem_cons.1 inside with ⟨⟨source, target⟩, rest⟩
    simp only [List.map_cons, pairOf, allEdges, valueAt_int lists source, valueAt_int lists target, Outcome.ok_bind,
      tests, List.all_cons]
    by_cases holds : holds (choiceAt values edge.1) (choiceAt values edge.2) = true
    · simpa [holds] using ih rest
    · simp [holds]

theorem someEnd_eq_ok (lists : configuration.Lists (values.map fun (value : Nat) => .int value))
    {test : Value → Outcome Bool} {holds : Nat → Bool} (tests : ∀ value : Nat, test (.int value) = .ok (holds value))
    (inside : ∀ edge ∈ listed,
      (1 ≤ edge.1 ∧ edge.1 ≤ values.length) ∧ (1 ≤ edge.2 ∧ edge.2 ≤ values.length)) :
    someEnd test configuration (listed.map pairOf) =
      .ok (listed.all fun edge => holds (choiceAt values edge.1) || holds (choiceAt values edge.2)) := by
  induction listed with
  | nil => rfl
  | cons edge listed ih =>
    rcases List.forall_mem_cons.1 inside with ⟨⟨source, target⟩, rest⟩
    simp only [List.map_cons, pairOf, someEnd, valueAt_int lists source, valueAt_int lists target, Outcome.ok_bind,
      tests, List.all_cons]
    by_cases first : holds (choiceAt values edge.1) = true
    · simpa [first] using ih rest
    · by_cases second : holds (choiceAt values edge.2) = true
      · simpa [first, second] using ih rest
      · simp [first, second]

namespace Simple

variable {graph : Graph} {kind : GraphKind} {vertices : List Int} {edges : List (Int × Int)}

theorem isColoring_eq_ok (simple : graph.Simple kind vertices edges count) (length : values.length = count)
    (lists : configuration.Lists (values.map fun (value : Nat) => .int value)) :
    graph.isColoring configuration =
      .ok ((ranked kind edges).all fun edge => decide (choiceAt values edge.1 ≠ choiceAt values edge.2)) := by
  rcases simple.exists_listed with ⟨listed, found, same⟩
  have inside := simple.listed_inside same
  subst length
  have tests (left right : Nat) : (do return !(← (Value.int left).equal (.int right))) =
      Except.ok (ε := Fault) (decide (left ≠ right)) := by
    rw [Value.equal_int, Outcome.ok_bind]
    simp
  have all_eq := all_listed same (fun source target => decide (choiceAt values source ≠ choiceAt values target))
    fun source target => by simp only [ne_comm]
  rw [isColoring, found, Outcome.ok_bind, allEdges_eq_ok lists tests inside, all_eq]

theorem someEnd_eq_ok (simple : graph.Simple kind vertices edges count) (length : values.length = count)
    (lists : configuration.Lists (values.map fun (value : Nat) => .int value)) (unwanted : Nat) :
    (do someEnd (fun value => do return !(← value.equal (.int unwanted))) configuration (← graph.edges)) =
      .ok ((ranked kind edges).all fun edge =>
        !decide (choiceAt values edge.1 = unwanted ∧ choiceAt values edge.2 = unwanted)) := by
  rcases simple.exists_listed with ⟨listed, found, same⟩
  have inside := simple.listed_inside same
  subst length
  have tests (value : Nat) : (do return !(← (Value.int value).equal (.int unwanted))) =
      Except.ok (ε := Fault) !decide (value = unwanted) := by
    rw [Value.equal_int, Outcome.ok_bind]
    simp
  -- edges are read vertex by vertex and from either end, which a symmetric test does not see
  have all_eq := all_listed same
    (fun source target => !decide (choiceAt values source = unwanted ∧ choiceAt values target = unwanted))
    fun source target => by simp only [and_comm]
  rw [← all_eq, found, Outcome.ok_bind, Graph.someEnd_eq_ok lists tests inside]
  simp only [← Bool.not_and, ← Bool.decide_and]

theorem isCovering_eq_ok (simple : graph.Simple kind vertices edges count) (length : values.length = count)
    (lists : configuration.Lists (values.map fun (value : Nat) => .int value)) :
    graph.isCovering configuration = .ok ((ranked kind edges).all fun edge =>
      !decide (choiceAt values edge.1 = 0 ∧ choiceAt values edge.2 = 0)) := by
  have counted : (values.map fun (value : Nat) => Value.int value).length = graph.vertexCount := by
    rw [List.length_map, length, simple.vertexCount_eq]
  rw [isCovering, lists.length_eq, Outcome.ok_bind, if_neg (not_not_intro counted), ← simple.someEnd_eq_ok length lists]
  rfl

theorem isIndependent_eq_ok (simple : graph.Simple kind vertices edges count) (length : values.length = count)
    (lists : configuration.Lists (values.map fun (value : Nat) => .int value)) :
    graph.isIndependent configuration = .ok ((ranked kind edges).all fun edge =>
      !decide (choiceAt values edge.1 = 1 ∧ choiceAt values edge.2 = 1)) :=
  simple.someEnd_eq_ok length lists 1

end Simple

end Graph

end EnergyTables
