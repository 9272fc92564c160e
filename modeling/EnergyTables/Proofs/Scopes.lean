import EnergyTables.Proofs.Codec.RoundTrips
import EnergyTables.Proofs.Qubo.NormalForm
import EnergyTables.Proofs.Selection.Packing
import EnergyTables.Proofs.Weights.Updates

namespace EnergyTables

open EnergyTables.Graph

namespace Constraint

def pairsOf (scopes : List (List Int)) : List (Int × Int) :=
  scopes.filterMap fun scope =>
    match scope with
    | [first, second] => some (first, second)
    | _ => none

/-- Scopes of one variable or of two, each in increasing order and within the count, the pairs in lexicographic
    order. -/
structure WellFormed (variableCount : Int) (scopes : List (List Int)) : Prop where
  small : ∀ scope ∈ scopes, scope.length = 1 ∨ scope.length = 2
  increasing : ∀ scope ∈ scopes, scope.Pairwise (· < ·)
  inside : ∀ scope ∈ scopes, ∀ index ∈ scope, 1 ≤ index ∧ index ≤ variableCount
  ordered : (pairsOf scopes).Pairwise NotAfter

variable {variableCount : Int} {scopes left right : List (List Int)} {indices : List Int} {pairs : List (Int × Int)}

theorem pairsOf_singles (indices : List Int) : pairsOf (indices.map fun index => [index]) = [] := by
  rw [pairsOf, List.filterMap_map, List.filterMap_eq_nil_iff]
  exact fun _ _ => rfl

theorem pairsOf_pairs (pairs : List (Int × Int)) : pairsOf (pairs.map fun pair => [pair.1, pair.2]) = pairs := by
  rw [pairsOf, List.filterMap_map]
  exact List.filterMap_some

theorem pairsOf_append (left right : List (List Int)) : pairsOf (left ++ right) = pairsOf left ++ pairsOf right :=
  List.filterMap_append

theorem wellFormed_singles (inside : ∀ index ∈ indices, 1 ≤ index ∧ index ≤ variableCount) :
    WellFormed variableCount (indices.map fun index => [index]) where
  small := List.forall_mem_map.2 fun _ _ => .inl rfl
  increasing := List.forall_mem_map.2 fun _ _ => List.pairwise_singleton _ _
  inside := List.forall_mem_map.2 fun index member other same => by
    rw [List.mem_singleton.1 same]
    exact inside index member
  ordered := by
    rw [pairsOf_singles]
    exact .nil

theorem wellFormed_pairs (inside : ∀ pair ∈ pairs, 1 ≤ pair.1 ∧ pair.1 < pair.2 ∧ pair.2 ≤ variableCount)
    (ordered : pairs.Pairwise NotAfter) : WellFormed variableCount (pairs.map fun pair => [pair.1, pair.2]) where
  small := List.forall_mem_map.2 fun _ _ => .inr rfl
  increasing := List.forall_mem_map.2 fun pair member => List.pairwise_pair.2 (inside pair member).2.1
  inside := List.forall_mem_map.2 fun pair member index listed => by
    have ends := inside pair member
    simp only [List.mem_cons, List.not_mem_nil, or_false] at listed
    omega
  ordered := by rwa [pairsOf_pairs]

theorem WellFormed.append (front : WellFormed variableCount left) (back : WellFormed variableCount right)
    (ordered : (pairsOf left ++ pairsOf right).Pairwise NotAfter) : WellFormed variableCount (left ++ right) where
  small := List.forall_mem_append.2 ⟨front.small, back.small⟩
  increasing := List.forall_mem_append.2 ⟨front.increasing, back.increasing⟩
  inside := List.forall_mem_append.2 ⟨front.inside, back.inside⟩
  ordered := by rwa [pairsOf_append]

theorem WellFormed.checked (wellFormed : WellFormed variableCount scopes) :
    ∀ scope ∈ scopes, checkVariables variableCount scope = .ok () :=
  fun scope member => checkVariables_eq_ok_iff.2 (wellFormed.inside scope member)

theorem exists_loop_of_mapM {ι β : Type} {step : ι → Outcome β} {endsOf : ι → Int × Int} {make : ι → List Int → β}
    (steps : ∀ item, step item = do
      return make item (← scopeOf (.tuple [.int (endsOf item).1, .int (endsOf item).2])))
    {items : List ι} {loop : ι} (member : loop ∈ items) (isLoop : (endsOf loop).1 = (endsOf loop).2) :
    ∃ item ∈ items, ∃ vertex, endsOf item = (vertex, vertex) ∧
      items.mapM step = refuse (.repeatedVariables [vertex, vertex]) := by
  have fails : step loop = refuse (.repeatedVariables [(endsOf loop).1, (endsOf loop).2]) := by
    rw [steps, scopeOf_ends, if_pos isLoop, Outcome.refuse_bind]
    rfl
  obtain ⟨item, listed, fault, failed, traversal⟩ := Outcome.exists_mapM_error ⟨loop, member, _, fails⟩
  rw [steps, scopeOf_ends] at failed
  split at failed
  next same =>
    cases failed
    refine ⟨item, listed, (endsOf item).1, Prod.ext rfl same.symm, ?_⟩
    rw [traversal, ← same]
    rfl
  next => cases failed

theorem stated_repeatedVariables (vertex : Int) : Fault.stated (.repeatedVariables [vertex, vertex]) =
    if Numeral.writes vertex then .repeatedVariables [vertex, vertex] else .invalid := by
  have both : [vertex, vertex].all Numeral.writes = Numeral.writes vertex := by simp
  rw [Fault.stated, Fault.isWritable, both]

end Constraint

open Constraint Selection

section Loops

variable {graph : Graph} {kind : GraphKind} {edges : List (Int × Int)} {vertex : Int}

theorem Graph.loop_mem_ranked : (vertex, vertex) ∈ ranked kind edges ↔ (vertex, vertex) ∈ edges := by
  rw [mem_ranked]
  simp

theorem Selection.onEdges_eq_error (sorted : graph.sortedEdges = .ok ((ranked kind edges).map pairOf))
    (loop : (vertex, vertex) ∈ edges) (tag : String) (rule : List Int → Value → Outcome Bool) :
    ∃ vertex, (vertex, vertex) ∈ edges ∧ onEdges graph tag rule = refuse (.repeatedVariables [vertex, vertex]) := by
  rw [onEdges, sorted, Outcome.ok_bind, List.mapM_map]
  obtain ⟨edge, member, vertex, isLoop, failed⟩ := @exists_loop_of_mapM _ _ _ (fun edge : Int × Int => edge)
    (fun _ scope => HardConstraint.mk scope tag (rule scope)) (fun _ => rfl) _ _ (loop_mem_ranked.2 loop) rfl
  exact ⟨vertex, loop_mem_ranked.1 (isLoop ▸ member : (vertex, vertex) ∈ ranked kind edges), failed⟩

theorem Coloring.constraints_eq_error {coloring : Coloring}
    (sorted : coloring.graph.sortedEdges = .ok ((ranked kind edges).map pairOf)) {weights : List Value}
    (items : coloring.weights.items = .ok weights) (counted : weights.length = (ranked kind edges).length)
    (loop : (vertex, vertex) ∈ edges) :
    ∃ vertex, (vertex, vertex) ∈ edges ∧ coloring.constraints = refuse (.repeatedVariables [vertex, vertex]) := by
  -- an edge is read only together with a weight, and there is one for each
  have firsts : ((ranked kind edges).zip weights).map Prod.fst = ranked kind edges := List.map_fst_zip counted.ge
  have listed : (vertex, vertex) ∈ ((ranked kind edges).zip weights).map Prod.fst := by
    rw [firsts]
    exact loop_mem_ranked.2 loop
  obtain ⟨entry, member, isLoop⟩ := List.mem_map.1 listed
  rw [constraints, sorted, Outcome.ok_bind, items, Outcome.ok_bind, List.zip_map_left, List.mapM_map]
  obtain ⟨found, foundMember, other, otherLoop, failed⟩ := @exists_loop_of_mapM _ _ _
    (fun entry : (Int × Int) × Value => entry.1)
    (fun entry scope => SoftConstraint.mk scope "edge" entry.2 (energy scope entry.2)) (fun _ => rfl) _ entry member
    (by rw [isLoop])
  have ranked_loop : (other, other) ∈ ranked kind edges := otherLoop ▸ (List.of_mem_zip foundMember).1
  exact ⟨other, loop_mem_ranked.1 ranked_loop, failed⟩

end Loops

def Problem.Lists (problem : Problem) (scopes : List (List Int)) : Prop :=
  ∃ hard soft, problem.hardConstraints = .ok hard ∧ problem.softConstraints = .ok soft ∧
    hard.map HardConstraint.scope ++ soft.map SoftConstraint.scope = scopes

/-- One of the lists of constraints fails for a repeated variable, and the other does not fail. -/
def Problem.Repeats (problem : Problem) (vertex : Int) : Prop :=
  (problem.hardConstraints = refuse (.repeatedVariables [vertex, vertex]) ∧ ∃ soft, problem.softConstraints = .ok soft) ∨
    (∃ hard, problem.hardConstraints = .ok hard) ∧ problem.softConstraints = refuse (.repeatedVariables [vertex, vertex])

def Graph.Pairs (graph : Graph) (pairs : List (Int × Int)) : Prop :=
  ∃ listed : List (Int × Int), graph.edges = .ok (listed.map pairOf) ∧ pairs.Perm (listed.map turned) ∧
    pairs.length = graph.edgeCount

namespace Problem

variable {problem : Problem} {vertex : Int} {fault : Fault} {scopes : List (List Int)}

def Fails (problem : Problem) (fault : Fault) : Prop :=
  problem.hardConstraints = .error fault ∨ problem.softConstraints = .error fault

theorem Repeats.fails_iff (repeats : problem.Repeats vertex) :
    problem.Fails fault ↔ fault = Fault.stated (.repeatedVariables [vertex, vertex]) := by
  rcases repeats with ⟨hard, soft, listed⟩ | ⟨⟨hard, listed⟩, soft⟩
  · rw [Fails, hard, listed]
    constructor
    · rintro (same | absurd)
      · exact (Except.error.inj same).symm
      · cases absurd
    · rintro rfl
      exact .inl rfl
  · rw [Fails, listed, soft]
    constructor
    · rintro (absurd | same)
      · cases absurd
      · exact (Except.error.inj same).symm
    · rintro rfl
      exact .inr rfl

theorem Lists.not_fails (lists : problem.Lists scopes) : ¬problem.Fails fault := by
  obtain ⟨hard, soft, hardListed, softListed, _⟩ := lists
  rw [Fails, hardListed, softListed]
  rintro (absurd | absurd)
  · cases absurd
  · cases absurd

end Problem

namespace Weights

/-- Weights for so many items, that have an item for each where there are any. -/
structure Serves (weights : Argument) (count : Nat) : Prop where
  small : (count : Int) < Value.sizeLimit
  itemized : 0 < count → weights.Itemized

variable {weights : Argument} {kept : Value} {count : Nat} {unit : String}

theorem Serves.exists_items (serves : Serves weights count) (normalized : weights.normalize count unit = .ok kept) :
    ∃ items, kept.items = .ok items ∧ (0 < count → items.length = count) := by
  obtain ⟨counted, keeps⟩ := Argument.kept_of_normalize serves.small normalized
  rcases Nat.eq_zero_or_pos count with none | some
  · obtain ⟨items, listed⟩ := Argument.exists_items_of_normalize serves.small normalized
    exact ⟨items, listed, by omega⟩
  · have itemized := serves.itemized some
    obtain ⟨items, listed, lengths, _⟩ := Weights.exists_items (keeps itemized) (counted itemized.1)
    exact ⟨items, listed, fun _ => lengths⟩

theorem Serves.exists_soft (serves : Serves weights count) (normalized : weights.normalize count unit = .ok kept)
    (tag : String) (energy : List Int → Value → Value → Outcome Value) :
    ∃ soft, onItems count kept tag energy = .ok soft ∧
      soft.map SoftConstraint.scope = (List.range count).map fun (index : Nat) => [(index : Int) + 1] := by
  rcases Nat.eq_zero_or_pos count with none | some
  · subst none
    exact ⟨[], rfl, rfl⟩
  · obtain ⟨counted, keeps⟩ := Argument.kept_of_normalize serves.small normalized
    have itemized := serves.itemized some
    obtain ⟨soft, _, made, _, scopes, _⟩ :=
      Instance.exists_onItems (keeps itemized) (counted itemized.1) tag energy
    exact ⟨soft, made, scopes⟩

end Weights

def itemScopes (count : Nat) : List (List Int) := (List.range count).map fun (index : Nat) => [(index : Int) + 1]

theorem itemScopes_eq (count : Nat) :
    itemScopes count = ((List.range count).map fun (index : Nat) => (index : Int) + 1).map fun index => [index] := by
  rw [List.map_map]
  rfl

theorem wellFormed_itemScopes (count : Nat) : WellFormed count (itemScopes count) := by
  rw [itemScopes_eq]
  refine wellFormed_singles (List.forall_mem_map.2 fun index member => ?_)
  have bound := List.mem_range.1 member
  omega

theorem wellFormed_pairs_items {count : Nat} {pairs : List (Int × Int)}
    (inside : ∀ pair ∈ pairs, 1 ≤ pair.1 ∧ pair.1 < pair.2 ∧ pair.2 ≤ count) (ordered : pairs.Pairwise NotAfter) :
    WellFormed count ((pairs.map fun pair => [pair.1, pair.2]) ++ itemScopes count) ∧
      pairsOf ((pairs.map fun pair => [pair.1, pair.2]) ++ itemScopes count) = pairs := by
  have singles : pairsOf (itemScopes count) = [] := by rw [itemScopes_eq, pairsOf_singles]
  constructor
  · apply (wellFormed_pairs inside ordered).append (wellFormed_itemScopes count)
    rwa [singles, List.append_nil, pairsOf_pairs]
  · rw [pairsOf_append, singles, List.append_nil, pairsOf_pairs]

def Graph.OnIntegers (graph : Graph) (edges : List (Int × Int)) : Prop :=
  ∃ kind, ∃ vertices : List Int, kind ≠ .parallel ∧ build kind (vertices.map .int) (edges.map pairOf) = .ok graph

/-- Where an edge is a loop the constraints fail for one, and otherwise they are well-formed, with a pair for each
    edge of the graph. -/
structure Problem.Settles (problem : Problem) (graph? : Option Graph) (edges : List (Int × Int)) : Prop where
  repeats : ∀ vertex, (vertex, vertex) ∈ edges → ∃ vertex, (vertex, vertex) ∈ edges ∧ problem.Repeats vertex
  lists : (∀ vertex, (vertex, vertex) ∉ edges) → ∃ scopes, problem.Lists scopes ∧
    WellFormed problem.variableCount scopes ∧ ∀ graph ∈ graph?, graph.Pairs (pairsOf scopes)

section Graphs

variable {graph : Graph} {kind : GraphKind} {vertices : List Int} {edges : List (Int × Int)} {count : Nat}
  {problem : Problem} {weights : Weights.Argument} {kept : Value} {unit : String}

theorem Graph.OnIntegers.exists_ranked (onIntegers : graph.OnIntegers edges) : ∃ kind,
    graph.sortedEdges = .ok ((ranked kind edges).map pairOf) ∧ graph.edgeCount = (ranked kind edges).length := by
  obtain ⟨kind, vertices, listable, built⟩ := onIntegers
  obtain ⟨all, links, _⟩ := exists_links_of_build built
  exact ⟨kind, links.sortedEdges_eq_ok listable, links.edgeCount_eq listable⟩

theorem Graph.OnIntegers.exists_simple (onIntegers : graph.OnIntegers edges) (checked : graph.checkVertices = .ok ())
    (loopless : ∀ vertex, (vertex, vertex) ∉ edges) :
    ∃ kind vertices, graph.Simple kind vertices edges graph.vertexCount := by
  obtain ⟨kind, vertices, listable, built⟩ := onIntegers
  refine ⟨kind, vertices, simple_of_check listable built checked ?_⟩
  rintro ⟨source, target⟩ member loop
  obtain rfl : source = target := loop
  exact loopless source member

theorem Graph.Simple.pairs (simple : graph.Simple kind vertices edges count) : graph.Pairs (ranked kind edges) := by
  obtain ⟨listed, given, same⟩ := simple.exists_listed
  exact ⟨listed, given, same.symm, simple.edgeCount_eq.symm⟩

theorem Problem.settles_onEdges (onIntegers : graph.OnIntegers edges) (checked : graph.checkVertices = .ok ())
    (serves : Weights.Serves weights graph.vertexCount)
    (normalized : weights.normalize graph.vertexCount unit = .ok kept)
    (counted : problem.variableCount = graph.vertexCount) {tag softTag : String}
    {rule : List Int → Value → Outcome Bool} {energy : List Int → Value → Value → Outcome Value}
    (constrained : problem.hardConstraints = onEdges graph tag rule)
    (priced : problem.softConstraints = onItems graph.vertexCount kept softTag energy) :
    problem.Settles (some graph) edges := by
  obtain ⟨soft, softListed, softScopes⟩ := serves.exists_soft normalized softTag energy
  constructor
  · intro vertex loop
    obtain ⟨kind, sorted, _⟩ := onIntegers.exists_ranked
    obtain ⟨found, member, failed⟩ := onEdges_eq_error sorted loop tag rule
    exact ⟨found, member, .inl ⟨constrained.trans failed, soft, priced.trans softListed⟩⟩
  · intro loopless
    obtain ⟨kind, vertices, simple⟩ := onIntegers.exists_simple checked loopless
    obtain ⟨wellFormed, pairs⟩ :=
      wellFormed_pairs_items (fun _ member => simple.ranked_inside member) (pairwise_ranked kind edges)
    refine ⟨_, ⟨_, soft, constrained.trans (onEdges_eq_ok simple tag rule), priced.trans softListed, rfl⟩, ?_⟩
    rw [softScopes, List.map_map, counted]
    refine ⟨wellFormed, fun _ same => ?_⟩
    cases Option.some.inj same
    exact (congrArg graph.Pairs pairs).mpr simple.pairs

theorem Coloring.settles {palette? : Option Palette} {colors : Value} {coloring : Coloring}
    (onIntegers : graph.OnIntegers edges) (serves : Weights.Serves weights graph.edgeCount)
    (made : construct palette? graph colors weights = .ok coloring) : coloring.problem.Settles (some graph) edges := by
  obtain ⟨_, checked, _⟩ := Outcome.bind_eq_ok_iff.1 made
  obtain ⟨rfl, _, _, _, _, normalized⟩ := eq_of_construct made
  obtain ⟨items, listed, lengths⟩ := serves.exists_items normalized
  constructor
  · intro vertex loop
    obtain ⟨kind, sorted, edgeCount⟩ := onIntegers.exists_ranked
    have some_edge : 0 < coloring.graph.edgeCount :=
      edgeCount ▸ List.length_pos_of_mem (loop_mem_ranked.2 loop)
    obtain ⟨found, member, failed⟩ := constraints_eq_error sorted listed ((lengths some_edge).trans edgeCount) loop
    exact ⟨found, member, .inr ⟨⟨[], rfl⟩, failed⟩⟩
  · intro loopless
    obtain ⟨kind, vertices, simple⟩ := onIntegers.exists_simple checked loopless
    have ranks := simple.edgeCount_eq
    have covers : (ranked kind edges).length ≤ items.length := by omega
    refine ⟨_, ⟨[], _, rfl, constraints_eq_ok_of_items simple listed, rfl⟩, ?_⟩
    rw [List.map_nil, List.nil_append, scopes_edgeConstraint covers, pairsOf_pairs]
    refine ⟨wellFormed_pairs (fun _ member => simple.ranked_inside member) (pairwise_ranked kind edges), fun _ same => ?_⟩
    cases Option.some.inj same
    exact simple.pairs

theorem VertexCovering.settles {covering : VertexCovering} (onIntegers : graph.OnIntegers edges)
    (serves : Weights.Serves weights graph.vertexCount) (made : construct graph weights = .ok covering) :
    covering.problem.Settles (some graph) edges := by
  obtain ⟨_, checked, _⟩ := Outcome.bind_eq_ok_iff.1 made
  obtain ⟨rfl, normalized⟩ := eq_of_construct made
  exact Problem.settles_onEdges onIntegers checked serves normalized rfl rfl rfl

theorem IndependentSet.settles {independent : IndependentSet} (onIntegers : graph.OnIntegers edges)
    (serves : Weights.Serves weights graph.vertexCount) (made : construct graph weights = .ok independent) :
    independent.problem.Settles (some graph) edges := by
  obtain ⟨_, checked, _⟩ := Outcome.bind_eq_ok_iff.1 made
  obtain ⟨rfl, normalized⟩ := eq_of_construct made
  exact Problem.settles_onEdges onIntegers checked serves normalized rfl rfl rfl

end Graphs

theorem SetPacking.settles {sets : Value} {weights : Weights.Argument} {packing : SetPacking}
    (made : construct sets weights = .ok packing)
    (keys : ∀ set ∈ packing.sets, Value.areKeys set = true) (serves : Weights.Serves weights packing.sets.length) :
    packing.problem.Settles none [] := by
  obtain ⟨soft, softListed, softScopes⟩ := serves.exists_soft (normalize_of_construct made) "set" gain
  have inside : ∀ pair ∈ meetings packing.sets, 1 ≤ pair.1 ∧ pair.1 < pair.2 ∧ pair.2 ≤ packing.sets.length := by
    intro pair member
    obtain ⟨front, back, _, _, before, _, backStands, _, rfl⟩ := mem_meetings.1 member
    have bound := (List.getElem?_eq_some_iff.1 backStands).1
    omega
  refine ⟨fun _ loop => absurd loop List.not_mem_nil, fun _ => ⟨_, ⟨_, soft,
    disjointness_eq_ok (comparable_of_keys fun _ => keys), softListed, rfl⟩, ?_,
    fun _ absurd => (Option.not_mem_none _ absurd).elim⟩⟩
  rw [softScopes, List.map_map]
  exact (wellFormed_pairs_items inside ((pairwise_meetings packing.sets).imp le_of_lt)).1

namespace Qubo

theorem pairwise_above (size : Nat) : (above size).Pairwise fun left right => toLex left < toLex right := by
  refine List.pairwise_flatMap.2 ⟨fun row _ => ?_, ?_⟩
  · refine List.pairwise_map.2 ((List.pairwise_lt_range' ..).imp fun before => ?_)
    exact Prod.Lex.toLex_lt_toLex.2 (.inr ⟨rfl, before⟩)
  · refine List.pairwise_lt_range.imp fun before left leftMember right rightMember => ?_
    obtain ⟨_, _, rfl⟩ := List.mem_map.1 leftMember
    obtain ⟨_, _, rfl⟩ := List.mem_map.1 rightMember
    exact Prod.Lex.toLex_lt_toLex.2 (.inl before)

theorem scopes_terms (matrix : Matrix) : (linearTerms matrix ++ quadraticTerms matrix).map SoftConstraint.scope =
    (((live matrix (diagonal matrix.size)).map fun place => (place.1 : Int) + 1).map fun index => [index]) ++
      ((live matrix (above matrix.size)).map fun place => ((place.1 : Int) + 1, (place.2 : Int) + 1)).map
        fun pair => [pair.1, pair.2] := by
  rw [linearTerms_eq, quadraticTerms_eq, flatMap_term, flatMap_term, List.map_append]
  simp only [List.map_map, Function.comp_def]

theorem settles (qubo : Qubo) : qubo.problem.Settles none [] := by
  have pairs_inside : ∀ pair ∈ (live qubo.matrix (above qubo.matrix.size)).map
      (fun place => ((place.1 : Int) + 1, (place.2 : Int) + 1)),
      1 ≤ pair.1 ∧ pair.1 < pair.2 ∧ pair.2 ≤ qubo.matrix.size := by
    refine List.forall_mem_map.2 fun place member => ?_
    have bounds := mem_above.1 (mem_live.1 member).1
    omega
  have pairs_ordered : ((live qubo.matrix (above qubo.matrix.size)).map
      (fun place => ((place.1 : Int) + 1, (place.2 : Int) + 1))).Pairwise NotAfter := by
    refine List.pairwise_map.2 (((pairwise_above _).filter _).imp fun before => ?_)
    rw [NotAfter, Prod.Lex.toLex_le_toLex]
    rcases Prod.Lex.toLex_lt_toLex.1 before with row | ⟨same, column⟩
    · exact .inl (by simpa using row)
    · exact .inr ⟨by rw [same], by simpa using column.le⟩
  refine ⟨fun _ loop => absurd loop List.not_mem_nil,
    fun _ => ⟨_, ⟨[], _, rfl, rfl, scopes_terms qubo.matrix⟩, ?_, fun _ absurd => (Option.not_mem_none _ absurd).elim⟩⟩
  apply (wellFormed_singles ?_).append (wellFormed_pairs pairs_inside pairs_ordered)
  · rwa [pairsOf_singles, pairsOf_pairs]
  · refine List.forall_mem_map.2 fun place member => ?_
    have bounds := mem_diagonal.1 (mem_live.1 member).1
    change 1 ≤ (place.1 : Int) + 1 ∧ (place.1 : Int) + 1 ≤ (qubo.matrix.size : Int)
    omega

end Qubo

/-- The problems of the families as their constructors make them, with the graph that a problem is on and the edges that
    the graph was given. -/
inductive Instance.Bundled : Instance → Option Graph → List (Int × Int) → Prop
  | coloring {palette? : Option Palette} {graph : Graph} {edges : List (Int × Int)} {colors : Value}
      {weights : Weights.Argument} {coloring : Coloring} (onIntegers : graph.OnIntegers edges)
      (made : Coloring.construct palette? graph colors weights = .ok coloring)
      (serves : Weights.Serves weights graph.edgeCount) : Bundled (.coloring coloring) (some graph) edges
  | vertexCovering {graph : Graph} {edges : List (Int × Int)} {weights : Weights.Argument} {covering : VertexCovering}
      (onIntegers : graph.OnIntegers edges) (made : VertexCovering.construct graph weights = .ok covering)
      (serves : Weights.Serves weights graph.vertexCount) : Bundled (.vertexCovering covering) (some graph) edges
  | independentSet {graph : Graph} {edges : List (Int × Int)} {weights : Weights.Argument} {independent : IndependentSet}
      (onIntegers : graph.OnIntegers edges) (made : IndependentSet.construct graph weights = .ok independent)
      (serves : Weights.Serves weights graph.vertexCount) : Bundled (.independentSet independent) (some graph) edges
  | setPacking {sets : Value} {weights : Weights.Argument} {packing : SetPacking}
      (made : SetPacking.construct sets weights = .ok packing) (keys : ∀ set ∈ packing.sets, Value.areKeys set = true)
      (serves : Weights.Serves weights packing.sets.length) : Bundled (.setPacking packing) none []
  | qubo {given : Weights.Argument} {qubo : Qubo} (made : Qubo.construct given = .ok qubo) : Bundled (.qubo qubo) none []

theorem Instance.Bundled.settles {subject : Instance} {graph? : Option Graph} {edges : List (Int × Int)}
    (bundled : subject.Bundled graph? edges) : subject.problem.Settles graph? edges := by
  cases bundled with
  | coloring onIntegers made serves => exact Coloring.settles onIntegers serves made
  | vertexCovering onIntegers made serves => exact VertexCovering.settles onIntegers serves made
  | independentSet onIntegers made serves => exact IndependentSet.settles onIntegers serves made
  | setPacking made keys serves => exact SetPacking.settles made keys serves
  | @qubo _ qubo => exact qubo.settles

/-- The constraints of a problem fail exactly where an edge is a loop, and then for the variable that a loop
    repeats. Otherwise each is on one variable or on two of the problem in increasing order, so that none is refused for
    a variable outside; the pairs are in lexicographic order, and on a graph there is one for each edge. -/
theorem Instance.Bundled.constraints_wellFormed {subject : Instance} {graph? : Option Graph} {edges : List (Int × Int)}
    (bundled : subject.Bundled graph? edges) :
    ((∃ fault, subject.problem.Fails fault) ↔ ∃ vertex, (vertex, vertex) ∈ edges) ∧
    (∀ fault, subject.problem.Fails fault → ∃ vertex, (vertex, vertex) ∈ edges ∧
      fault = if Numeral.writes vertex then .repeatedVariables [vertex, vertex] else .invalid) ∧
    ((∀ vertex, (vertex, vertex) ∉ edges) → ∃ hard soft, subject.problem.hardConstraints = .ok hard ∧
      subject.problem.softConstraints = .ok soft ∧
      ∀ scopes, scopes = hard.map HardConstraint.scope ++ soft.map SoftConstraint.scope →
        WellFormed subject.problem.variableCount scopes ∧
        (∀ scope ∈ scopes, checkVariables subject.problem.variableCount scope = .ok ()) ∧
        ∀ graph ∈ graph?, graph.Pairs (pairsOf scopes)) := by
  have settles := bundled.settles
  by_cases loop : ∃ vertex, (vertex, vertex) ∈ edges
  · obtain ⟨found, loopFound⟩ := loop
    obtain ⟨vertex, member, repeats⟩ := settles.repeats found loopFound
    refine ⟨⟨fun _ => ⟨vertex, member⟩, fun _ => ⟨_, repeats.fails_iff.2 rfl⟩⟩,
      fun fault fails => ⟨vertex, member, (repeats.fails_iff.1 fails).trans (stated_repeatedVariables vertex)⟩,
      fun loopless => absurd loopFound (loopless found)⟩
  · have loopless := not_exists.1 loop
    obtain ⟨scopes, lists, wellFormed, pairs⟩ := settles.lists loopless
    refine ⟨⟨fun ⟨_, fails⟩ => absurd fails lists.not_fails, fun absurd => (loop absurd).elim⟩,
      fun fault fails => absurd fails lists.not_fails, fun _ => ?_⟩
    obtain ⟨hard, soft, hardListed, softListed, rfl⟩ := lists
    refine ⟨hard, soft, hardListed, softListed, ?_⟩
    rintro _ rfl
    exact ⟨wellFormed, wellFormed.checked, pairs⟩

def Graph.bothArcs : Graph := ⟨.directed, [(.int 2, [⟨1, .int 1⟩]), (.int 1, [⟨0, .int 2⟩])], 2⟩

theorem Instance.Bundled.constraints_wellFormed_bothArcs :
    Graph.build .directed ([2].map .int) ([(1, 2), (2, 1)].map pairOf) = .ok Graph.bothArcs ∧
    ∃ coloring soft, Coloring.make none Graph.bothArcs (.int 2) (.list [.int 3, .int 4]) = .ok coloring ∧
      coloring.problem.softConstraints = .ok soft ∧ WellFormed 2 (soft.map SoftConstraint.scope) ∧
      Graph.bothArcs.Pairs (pairsOf (soft.map SoftConstraint.scope)) := by
  have built : Graph.build .directed ([2].map .int) ([(1, 2), (2, 1)].map pairOf) = .ok Graph.bothArcs := rfl
  have made : Coloring.make none Graph.bothArcs (.int 2) (.list [.int 3, .int 4]) = .ok _ := rfl
  have serves : Weights.Serves (.given (.list [.int 3, .int 4])) 2 :=
    ⟨by decide, fun _ => ⟨trivial, fun value same => by cases same; trivial⟩⟩
  have bundled := Instance.Bundled.coloring ⟨.directed, [2], by decide, built⟩ made serves
  have loopless : ∀ vertex : Int, (vertex, vertex) ∉ [((1 : Int), (2 : Int)), (2, 1)] := by
    intro vertex member
    simp only [List.mem_cons, List.not_mem_nil, or_false, Prod.mk.injEq] at member
    omega
  obtain ⟨hard, soft, none, listed, scopes⟩ := bundled.constraints_wellFormed.2.2 loopless
  cases none
  obtain ⟨wellFormed, _, pairs⟩ := scopes _ rfl
  exact ⟨built, _, soft, made, listed, wellFormed, pairs _ rfl⟩

/-- A unit weight whose length is a word without sign has no items: without a loop there may be a fault, and with one
    none. So it is with an object that gives fewer items than its length says. -/
theorem Instance.exists_fails_loopless :
    (∃ packing, SetPacking.make (.list [.list [.int 1]]) (.unitWeight (.ofWord .uint8 1)) = .ok packing ∧
      ∃ fault, packing.problem.Fails fault) ∧
    (∃ graph coloring, Graph.build .undirected ([1].map .int) ([(1, 1)].map pairOf) = .ok graph ∧
      Coloring.make none graph (.int 2) (.unitWeight (.ofWord .uint8 1)) = .ok coloring ∧
      coloring.problem.hardConstraints = .ok [] ∧ coloring.problem.softConstraints = .ok []) ∧
    ∃ packing, SetPacking.construct (.list [.list [.int 1]]) (.foreign (.ok 1) (.ok []) (.error .invalid)) = .ok packing ∧
      ∃ fault, packing.problem.Fails fault :=
  ⟨⟨_, rfl, _, .inr rfl⟩, ⟨_, _, rfl, rfl, rfl, rfl⟩, _, rfl, _, .inr rfl⟩

end EnergyTables
