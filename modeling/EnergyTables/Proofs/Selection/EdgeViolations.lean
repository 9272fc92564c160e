import EnergyTables.Proofs.Graph.Predicates
import EnergyTables.Proofs.Selection.Families

namespace EnergyTables

namespace Selection

def agreeing (kind : GraphKind) (edges : List (Int × Int)) (bits : List Nat) (bit : Nat) : List (Int × Int) :=
  (Graph.ranked kind edges).filter fun edge => decide (bitAt bits edge.1 = bit ∧ bitAt bits edge.2 = bit)

variable {graph : Graph} {kind : GraphKind} {vertices : List Int} {edges : List (Int × Int)} {count : Nat}
  {configuration : Value} {bits : List Nat}

/-- On a simple graph the violated constraints are on the edges with no end selected, or with both, in lexicographic
    order; the problem calls a configuration feasible as the graph calls it a covering, or an independent set. -/
theorem violatedConstraints_onEdges (simple : graph.Simple kind vertices edges count) (within : bits ∈ Vectors count)
    (lists : configuration.Lists (bits.map fun (bit : Nat) => .int bit)) (weights : Value) :
    (∃ listed : List (Int × Int), graph.edges = .ok (listed.map Graph.pairOf) ∧
      (listed.map Graph.turned).Perm (Graph.ranked kind edges)) ∧
    (Graph.ranked kind edges).Pairwise Graph.NotAfter ∧
    (∀ covering, VertexCovering.make graph weights = .ok covering →
      covering.problem.violatedConstraints configuration =
        .ok ((agreeing kind edges bits 0).map (onPair "cover" someSelected)) ∧
      ∃ covers, covering.problem.isFeasible configuration = .ok covers ∧ graph.isCovering configuration = .ok covers) ∧
    ∀ independent, IndependentSet.make graph weights = .ok independent →
      independent.problem.violatedConstraints configuration =
        .ok ((agreeing kind edges bits 1).map (onPair "no_edge" someUnselected)) ∧
      ∃ isolates, independent.problem.isFeasible configuration = .ok isolates ∧
        graph.isIndependent configuration = .ok isolates := by
  refine ⟨simple.exists_listed, Graph.pairwise_ranked kind edges, fun covering made => ?_, fun independent made => ?_⟩
  · have restricts := VertexCovering.restricts simple made
    exact ⟨restricts.violatedConstraints_eq_ok within lists, _, restricts.isFeasible_eq_ok within lists,
      simple.isCovering_eq_ok within.1 lists⟩
  · have restricts := IndependentSet.restricts simple made
    exact ⟨restricts.violatedConstraints_eq_ok within lists, _, restricts.isFeasible_eq_ok within lists,
      simple.isIndependent_eq_ok within.1 lists⟩

theorem violatedConstraints_onEdges_arcs :
    (do
      let graph ← Graph.build .directed ([3, 1, 2].map .int) ([(2, 1), (3, 2), (1, 2)].map Graph.pairOf)
      let covering ← VertexCovering.make graph .none
      covering.problem.violatedConstraints (.list ([0, 0, 1].map fun (bit : Nat) => .int bit))) =
        .ok ([(1, 2), (1, 2)].map (onPair "cover" someSelected)) := by
  have built : Graph.build .directed ([3, 1, 2].map .int) ([(2, 1), (3, 2), (1, 2)].map Graph.pairOf) = .ok _ := rfl
  have simple := Graph.simple_of_check (by decide) built rfl (by decide)
  have within : [0, 0, 1] ∈ Vectors 3 := ⟨rfl, by decide⟩
  rcases violatedConstraints_onEdges simple within (.list _) .none with ⟨_, _, coverings, _⟩
  have both : agreeing .directed [(2, 1), (3, 2), (1, 2)] [0, 0, 1] 0 = [(1, 2), (1, 2)] := by decide +kernel
  have violated := (coverings _ rfl).1
  rw [both] at violated
  exact violated

end Selection

end EnergyTables
