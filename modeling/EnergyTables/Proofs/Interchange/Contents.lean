import EnergyTables.Instance
import EnergyTables.Proofs.Coloring.MonochromaticEdges
import EnergyTables.Proofs.Graph.Sameness
import EnergyTables.Proofs.Selection.Packing
import EnergyTables.Proofs.Value.Keys
import EnergyTables.Proofs.Weights.Sameness

namespace EnergyTables

theorem Graph.Simple.same_eq_ok {left right : Graph} {leftKind rightKind : GraphKind}
    {leftVertices rightVertices : List Int} {leftEdges rightEdges : List (Int × Int)} {leftCount rightCount : Nat}
    (simple : left.Simple leftKind leftVertices leftEdges leftCount)
    (simpleToo : right.Simple rightKind rightVertices rightEdges rightCount) :
    left.same right =
      .ok (decide (leftCount = rightCount ∧ ranked leftKind leftEdges = ranked rightKind rightEdges)) := by
  rcases simple.exists_links with ⟨all, links, members⟩
  rcases simpleToo.exists_links with ⟨allToo, linksToo, membersToo⟩
  rcases links.exists_same linksToo simple.listable simpleToo.listable with ⟨same, found, same_iff⟩
  have counts : (∀ vertex, vertex ∈ all ↔ vertex ∈ allToo) ↔ leftCount = rightCount := by
    simp only [members, membersToo]
    constructor
    · intro within
      have first := within leftCount
      have second := within rightCount
      omega
    · rintro rfl _
      exact Iff.rfl
  rw [found]
  apply congrArg Except.ok
  rw [Bool.eq_iff_iff, same_iff, decide_eq_true_iff, counts]

/-- What a problem is made of, as far as it takes part in comparisons. Sets are compared as a tuple of tuples. -/
inductive Content
  | coloring (size count : Nat) (edges : List (Int × Int)) (numbers : List Rat)
  | vertexCovering (count : Nat) (edges : List (Int × Int)) (numbers : List Rat)
  | independentSet (count : Nat) (edges : List (Int × Int)) (numbers : List Rat)
  | setPacking (sets : Value) (numbers : List Rat)

namespace Content

def Matches : Content → Content → Prop
  | setPacking sets numbers, setPacking others second => sets.sameKey others = true ∧ numbers = second
  | left, right => left = right

variable {left middle right : Content}

theorem Matches.symm (same : left.Matches right) : right.Matches left := by
  cases left with
  | setPacking sets numbers =>
    cases right with
    | setPacking others second => exact ⟨(Value.sameKey_comm _ _).trans same.1, same.2.symm⟩
    | _ => cases same
  | _ =>
    cases same
    rfl

theorem Matches.trans (first : left.Matches middle) (second : middle.Matches right) : left.Matches right := by
  cases left with
  | setPacking sets numbers =>
    cases middle with
    | setPacking others between =>
      cases right with
      | setPacking last numbersToo =>
        exact ⟨(Value.sameKey_congr _ _ first.1 _).trans second.1, first.2.trans second.2⟩
      | _ => cases second
    | _ => cases first
  | _ =>
    cases first
    exact second

end Content

/-- A problem with its content: rational weights, one for each item, on a graph without loops or on sets of the elements
    admitted. -/
inductive Instance.Holds (among : Value → Prop) : Instance → Content → Prop
  | coloring {coloring : Coloring} {kind : GraphKind} {vertices : List Int} {edges : List (Int × Int)}
      {size count : Nat} {numbers : List Rat} (simple : coloring.graph.Simple kind vertices edges count)
      (asked : coloring.colors = .int size) (sized : coloring.paletteSize = size)
      (bears : Weights.Bears coloring.weights numbers) :
      Holds among (.coloring coloring) (.coloring size count (Graph.ranked kind edges) numbers)
  | vertexCovering {covering : VertexCovering} {kind : GraphKind} {vertices : List Int} {edges : List (Int × Int)}
      {count : Nat} {numbers : List Rat} (simple : covering.graph.Simple kind vertices edges count)
      (bears : Weights.Bears covering.weights numbers) (counted : numbers.length = count) :
      Holds among (.vertexCovering covering) (.vertexCovering count (Graph.ranked kind edges) numbers)
  | independentSet {independent : IndependentSet} {kind : GraphKind} {vertices : List Int} {edges : List (Int × Int)}
      {count : Nat} {numbers : List Rat} (simple : independent.graph.Simple kind vertices edges count)
      (bears : Weights.Bears independent.weights numbers) (counted : numbers.length = count) :
      Holds among (.independentSet independent) (.independentSet count (Graph.ranked kind edges) numbers)
  | setPacking {packing : SetPacking} {numbers : List Rat}
      (elements : ∀ set ∈ packing.sets, ∀ element ∈ set, among element)
      (bears : Weights.Bears packing.weights numbers) (counted : numbers.length = packing.sets.length) :
      Holds among (.setPacking packing) (.setPacking (.tuple (packing.sets.map .tuple)) numbers)

namespace Instance

open Weights

variable {among : Value → Prop} {left right subject : Instance} {content other : Content}

theorem exists_tuple_of_elements {sets : List (List Value)} (elements : ∀ set ∈ sets, ∀ element ∈ set, among element) :
    ∃ items, Value.tuple (sets.map .tuple) = .tuple items ∧
      ∀ item ∈ items, ∃ set, item = Value.tuple set ∧ ∀ element ∈ set, among element := by
  refine ⟨_, rfl, List.forall_mem_map.2 fun set member => ?_⟩
  exact ⟨set, rfl, elements set member⟩

theorem unless_eq_ok (first second : Bool) :
    (do
      if !(← (.ok first : Outcome Bool)) then return false
      .ok second) = (.ok (first && second) : Outcome Bool) := by
  cases first <;> rfl

theorem guarded_eq_ok (first second : Bool) :
    (do if ← (.ok first : Outcome Bool) then .ok second else return false) = (.ok (first && second) : Outcome Bool) := by
  cases first <;> rfl

/-- Problems can be compared, and are equal where their contents match. -/
theorem Holds.exists_same (equalAsKeys : Value.EqualAsKeys among) (holds : left.Holds among content)
    (holdsToo : right.Holds among other) :
    ∃ same, left.same right = .ok same ∧ (same = true ↔ content.Matches other) := by
  cases holds with
  | @coloring coloring _ _ _ size count numbers simple asked _ bears =>
    cases holdsToo with
    | @coloring coloringToo _ _ _ sizeToo countToo numbersToo simpleToo askedToo _ bearsToo =>
      rw [Instance.same, Coloring.same, asked, askedToo, Value.equal_int, simple.same_eq_ok simpleToo,
        bears.same_eq_ok bearsToo, unless_eq_ok, unless_eq_ok]
      exact ⟨_, rfl, by simp [Content.Matches, and_assoc]⟩
    | _ => exact ⟨false, rfl, by simp [Content.Matches]⟩
  | @vertexCovering covering _ _ _ count numbers simple bears _ =>
    cases holdsToo with
    | @vertexCovering coveringToo _ _ _ countToo numbersToo simpleToo bearsToo _ =>
      rw [Instance.same, VertexCovering.same, simple.same_eq_ok simpleToo, bears.same_eq_ok bearsToo, guarded_eq_ok]
      exact ⟨_, rfl, by simp [Content.Matches, and_assoc]⟩
    | _ => exact ⟨false, rfl, by simp [Content.Matches]⟩
  | @independentSet independent _ _ _ count numbers simple bears _ =>
    cases holdsToo with
    | @independentSet independentToo _ _ _ countToo numbersToo simpleToo bearsToo _ =>
      rw [Instance.same, IndependentSet.same, simple.same_eq_ok simpleToo, bears.same_eq_ok bearsToo, guarded_eq_ok]
      exact ⟨_, rfl, by simp [Content.Matches, and_assoc]⟩
    | _ => exact ⟨false, rfl, by simp [Content.Matches]⟩
  | @setPacking packing numbers elements bears _ =>
    cases holdsToo with
    | @setPacking packingToo numbersToo elementsToo bearsToo _ =>
      have compared := equalAsKeys.tuples.tuples.equal_eq_ok _ _ (exists_tuple_of_elements elements)
        (exists_tuple_of_elements elementsToo)
      rw [Instance.same, SetPacking.same, compared, bears.same_eq_ok bearsToo, guarded_eq_ok]
      exact ⟨_, rfl, by simp [Content.Matches]⟩
    | _ => exact ⟨false, rfl, by simp [Content.Matches]⟩

end Instance

end EnergyTables
