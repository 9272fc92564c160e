import EnergyTables.Proofs.Selection.ForbiddenPairs

namespace EnergyTables.Coloring

open Flavor

def edgeConstraint (entry : (Int × Int) × Value) : SoftConstraint :=
  ⟨[entry.1.1, entry.1.2], "edge", entry.2, energy [entry.1.1, entry.1.2] entry.2⟩

variable {kind : GraphKind} {vertices : List Int} {edges : List (Int × Int)} {count size : Nat} {coloring : Coloring}

theorem constraints_eq_ok_of_items (simple : coloring.graph.Simple kind vertices edges count) {weights : List Value}
    (items : coloring.weights.items = .ok weights) :
    coloring.constraints = .ok (((Graph.ranked kind edges).zip weights).map edgeConstraint) := by
  rw [constraints, simple.sortedEdges_eq_ok, Outcome.ok_bind, items, Outcome.ok_bind, List.zip_map_left,
    Outcome.mapM_eq_ok_iff, List.forall₂_map_left_iff, List.forall₂_map_right_iff, List.forall₂_same]
  rintro ⟨edge, weight⟩ member
  have ends := simple.ranked_inside (List.of_mem_zip member).1
  simp only [Prod.map, Graph.pairOf]
  rw [Constraint.scopeOf_pair (by omega)]
  rfl

theorem scopes_edgeConstraint {pairs : List (Int × Int)} {weights : List Value} (covers : pairs.length ≤ weights.length) :
    ((pairs.zip weights).map edgeConstraint).map SoftConstraint.scope = pairs.map fun pair => [pair.1, pair.2] := by
  have firsts : (pairs.zip weights).map Prod.fst = pairs := List.map_fst_zip covers
  conv_rhs => rw [← firsts, List.map_map]
  rw [List.map_map]
  rfl

theorem energy_edgeConstraint (entry : (Int × Int) × Value) {source target : Nat}
    (sourceAmong : 1 ≤ source ∧ source ≤ size) (targetAmong : 1 ≤ target ∧ target ≤ size) :
    (edgeConstraint entry).energy (.list ([source, target].map (ofPosition (flavorsOf size)))) =
      .ok (if source = target then entry.2 else .int 0) := by
  have same : ((source : Int) - 1 = (target : Int) - 1) ↔ source = target := by omega
  rw [List.map_cons, List.map_singleton, ofPosition_flavorsOf sourceAmong, ofPosition_flavorsOf targetAmong]
  simp only [edgeConstraint, energy, Constraint.checkArity, (Value.Lists.list _).length_eq,
    (Value.Lists.list _).items_eq, Outcome.ok_bind, List.length_cons, List.length_nil, ne_eq, not_true, if_false,
    Outcome.pure_eq_ok, Value.equal_int, same]
  by_cases shared : source = target
  · simp [shared]
  · simp [shared]

end EnergyTables.Coloring
