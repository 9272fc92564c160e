import EnergyTables.Family.IndependentSet
import EnergyTables.Family.VertexCovering
import EnergyTables.Proofs.Coloring.MonochromaticEdges
import EnergyTables.Proofs.Graph.Insertions
import EnergyTables.Proofs.Weights.Sameness

namespace EnergyTables

variable {left right : Graph} {colors weights : Value}

theorem Weights.Offered.same_self {count : Nat} {unit : String} {kept : Value} (offered : Weights.Offered count weights)
    (normalized : Weights.normalize weights count unit = .ok kept) : Weights.same kept kept = .ok true := by
  rcases offered.exists_bears normalized with ⟨numbers, bears, _⟩
  rw [bears.same_eq_ok bears, decide_eq_true rfl]

namespace Coloring

theorem make_of_alike (alike : left.Alike right) (palette? : Option Palette) (colors weights : Value) :
    make palette? right colors weights =
      (do let coloring ← make palette? left colors weights; return { coloring with graph := right }) := by
  rw [make_eq, make_eq, alike.checkVertices_eq]
  simp only [ofSize, alike.edgeCount_eq, bind_assoc]
  congr 1
  funext _
  congr 1
  funext _
  congr 1
  funext size
  congr 1
  funext same
  cases same with
  | false => rfl
  | true => simp

theorem problem_of_alike (alike : left.Alike right) {coloring : Coloring} (onLeft : coloring.graph = left) :
    coloring.problem = problem { coloring with graph := right } := by
  simp only [problem, constraints, onLeft, alike.vertexCount_eq, alike.edgeCount_eq, alike.sortedEdges_eq]

theorem make_agrees (alike : left.Alike right) (same : left.same right = .ok true) (palette? : Option Palette)
    (reflexive : colors.equal colors = .ok true) (offered : Weights.Offered left.edgeCount weights) :
    Outcome.Agrees (fun one other => one.same other = .ok true ∧ one.problem = other.problem)
      (make palette? left colors weights) (make palette? right colors weights) := by
  rw [make_of_alike alike]
  cases made : make palette? left colors weights with
  | error fault => exact .error fault
  | ok coloring =>
    rcases eq_of_make made with ⟨onLeft, _, normalized⟩
    refine .ok ⟨?_, problem_of_alike alike onLeft⟩
    rw [Coloring.same, onLeft, (asked_of_make made).2.1, reflexive, same, offered.same_self normalized]
    rfl

end Coloring

theorem Graph.Alike.agrees {α : Type} {related : α → α → Prop} (alike : left.Alike right)
    (offered : Weights.Offered left.vertexCount weights) (build : Graph → Value → α)
    (relates : ∀ kept, Weights.same kept kept = .ok true → related (build left kept) (build right kept)) :
    Outcome.Agrees related
      (do left.checkVertices; return build left (← Weights.normalize weights left.vertexCount "vertices"))
      (do right.checkVertices; return build right (← Weights.normalize weights right.vertexCount "vertices")) := by
  rw [← alike.checkVertices_eq, ← alike.vertexCount_eq]
  apply (Outcome.agrees_rfl _).bind
  intro _ _ _
  cases normalized : Weights.normalize weights left.vertexCount "vertices" with
  | error fault => exact .error fault
  | ok kept => exact .ok (relates kept (offered.same_self normalized))

theorem VertexCovering.make_agrees (alike : left.Alike right) (same : left.same right = .ok true)
    (offered : Weights.Offered left.vertexCount weights) :
    Outcome.Agrees (fun one other => VertexCovering.same one other = .ok true ∧ one.problem = other.problem)
      (make left weights) (make right weights) := by
  apply alike.agrees offered VertexCovering.mk
  refine fun kept weighed => ⟨?_, ?_⟩
  · rw [VertexCovering.same, same, Outcome.ok_bind, if_pos rfl, weighed]
  · simp only [problem, Selection.onEdges, alike.vertexCount_eq, alike.edgeCount_eq, alike.sortedEdges_eq]

theorem IndependentSet.make_agrees (alike : left.Alike right) (same : left.same right = .ok true)
    (offered : Weights.Offered left.vertexCount weights) :
    Outcome.Agrees (fun one other => IndependentSet.same one other = .ok true ∧ one.problem = other.problem)
      (make left weights) (make right weights) := by
  apply alike.agrees offered IndependentSet.mk
  refine fun kept weighed => ⟨?_, ?_⟩
  · rw [IndependentSet.same, same, Outcome.ok_bind, if_pos rfl, weighed]
  · simp only [problem, Selection.onEdges, alike.vertexCount_eq, alike.edgeCount_eq, alike.sortedEdges_eq]

/-- The order of insertions is immaterial. The edges of a graph in order are those inserted, each once; graphs are the
    same where the same vertices and edges were inserted; and the problems on graphs that are the same fail with the same
    fault, or are equal and pose one and the same problem, with its constraints, tables and best configurations. -/
theorem Graph.insertions_orderless (first second : List Insertion) :
    ∃ left right, ofInsertions .undirected first = .ok left ∧ ofInsertions .undirected second = .ok right ∧
      (∀ vertex, vertex ∈ left.vertices ↔ ∃ number ∈ insertedVertices first, vertex = .int number) ∧
      (∃ edges : List (Int × Int), left.sortedEdges = .ok (edges.map pairOf) ∧
        edges.Pairwise (fun edge other => toLex edge < toLex other) ∧
        ∀ edge, edge ∈ edges ↔ edge ∈ (insertedEdges first).map turned) ∧
      (∃ same, left.same right = .ok same ∧ (same = true ↔ SameContent first second)) ∧
      (left.same right = .ok true →
        (∀ (palette? : Option Palette) (colors weights : Value), colors.equal colors = .ok true →
          Weights.Offered left.edgeCount weights →
          Outcome.Agrees (fun one other => one.same other = .ok true ∧ one.problem = other.problem)
            (Coloring.make palette? left colors weights) (Coloring.make palette? right colors weights)) ∧
        ∀ weights, Weights.Offered left.vertexCount weights →
          Outcome.Agrees (fun one other => VertexCovering.same one other = .ok true ∧ one.problem = other.problem)
            (VertexCovering.make left weights) (VertexCovering.make right weights) ∧
          Outcome.Agrees (fun one other => IndependentSet.same one other = .ok true ∧ one.problem = other.problem)
            (IndependentSet.make left weights) (IndependentSet.make right weights)) := by
  rcases exists_ofInsertions .undirected first with ⟨left, vertices, made, links, members⟩
  rcases exists_ofInsertions .undirected second with ⟨right, others, madeToo, linksToo, membersToo⟩
  refine ⟨left, right, made, madeToo, fun vertex => ?_, ⟨ranked .undirected (insertedEdges first), ?_, ?_, ?_⟩,
    exists_same_iff_sameContent made madeToo, fun same => ?_⟩
  · simp only [links.mem_vertices_iff, members]
  · exact links.sortedEdges_eq_ok (by decide)
  · exact ranked_undirected_increasing _
  · exact fun edge => mem_ranked_undirected
  · have alike := links.alike linksToo (by decide) (by decide) same
    refine ⟨fun palette? colors weights reflexive offered => ?_, fun weights offered => ⟨?_, ?_⟩⟩
    · exact Coloring.make_agrees alike same palette? reflexive offered
    · exact VertexCovering.make_agrees alike same offered
    · exact IndependentSet.make_agrees alike same offered

theorem Graph.insertions_orderless_path :
    ∃ left right,
      ofInsertions .undirected [.edge 1 2, .edge 2 3] = .ok left ∧
      ofInsertions .undirected [.vertex 3, .edge 3 2, .edge 2 1, .edge 1 2] = .ok right ∧
      left.same right = .ok true ∧
      Outcome.Agrees (fun one other => Coloring.same one other = .ok true ∧ one.problem = other.problem)
        (Coloring.make none left (.int 2) (.list [.int 5, .int 7]))
        (Coloring.make none right (.int 2) (.list [.int 5, .int 7])) ∧
      Outcome.Agrees (fun one other => VertexCovering.same one other = .ok true ∧ one.problem = other.problem)
        (VertexCovering.make left .none) (VertexCovering.make right .none) := by
  rcases insertions_orderless [.edge 1 2, .edge 2 3] [.vertex 3, .edge 3 2, .edge 2 1, .edge 1 2] with
    ⟨left, right, made, madeToo, _, _, ⟨same, compared, same_iff⟩, interchange⟩
  have content : SameContent [.edge 1 2, .edge 2 3] [.vertex 3, .edge 3 2, .edge 2 1, .edge 1 2] := by
    simp only [SameContent, insertedVertices, insertedEdges, Insertion.vertices, Insertion.edges, turned,
      List.flatMap_cons, List.flatMap_nil, List.map_append, List.map_cons, List.map_nil, List.mem_append,
      List.mem_cons, List.not_mem_nil, or_false, false_or, Prod.forall, Prod.mk.injEq]
    constructor <;> intros <;> omega
  rw [same_iff.2 content] at compared
  have few : left.vertexCount = 3 := by
    cases made
    rfl
  rcases interchange compared with ⟨colorings, selections⟩
  refine ⟨left, right, made, madeToo, compared, ?_, (selections _ ?_).1⟩
  · exact colorings none (.int 2) _ (by rw [Value.equal_int]; rfl) (.given (.list (Weights.forall₂_int [5, 7])))
  · rw [few]
    exact .absent (by decide)

end EnergyTables
