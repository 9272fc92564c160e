import EnergyTables.Graph
import EnergyTables.Proofs.Value.Comparison
import Mathlib.Data.List.Nodup
import Mathlib.Data.List.Perm.Subperm

namespace EnergyTables

namespace Graph

def pairOf (ends : Int × Int) : Value × Value := (.int ends.1, .int ends.2)

def neighboursAt (graph : Graph) (place : Nat) : List Neighbour := (graph.adjacency[place]?.map (·.2)).getD []

/-- Each vertex lists, once and by their places, the vertices joined to it. -/
structure Joins (graph : Graph) (vertices : List Int) (joined : Int → Int → Prop) : Prop where
  kind_eq : graph.kind = .undirected
  vertices_eq : graph.vertices = vertices.map .int
  distinct : vertices.Nodup
  inside : ∀ source target, joined source target → source ∈ vertices ∧ target ∈ vertices
  once : ∀ place, ((graph.neighboursAt place).map Neighbour.place).Nodup
  neighbours : ∀ place source, vertices[place]? = some source → ∀ neighbour, neighbour ∈ graph.neighboursAt place ↔
    ∃ target, vertices[neighbour.place]? = some target ∧ neighbour.key = .int target ∧ joined source target

variable {graph : Graph} {vertices : List Int} {joined : Int → Int → Prop}

theorem joins_empty : Joins (empty .undirected) [] fun _ _ => False where
  kind_eq := rfl
  vertices_eq := rfl
  distinct := List.nodup_nil
  inside _ _ := False.elim
  once _ := List.nodup_nil
  neighbours place source found := by cases found

theorem Joins.vertexCount_eq (joins : graph.Joins vertices joined) : graph.vertexCount = vertices.length := by
  have lengths := congrArg List.length joins.vertices_eq
  rwa [Graph.vertices, List.length_map, List.length_map] at lengths

theorem Joins.placeOf?_eq_none (joins : graph.Joins vertices joined) {vertex : Int} (new : vertex ∉ vertices) :
    graph.placeOf? (.int vertex) = none := by
  rw [placeOf?, joins.vertices_eq, List.findIdx?_eq_none_iff]
  intro other member
  obtain ⟨known, knownMember, rfl⟩ := List.mem_map.1 member
  rw [Value.sameKey_int, decide_eq_false_iff_not]
  rintro rfl
  exact new knownMember

theorem Joins.exists_placeOf? (joins : graph.Joins vertices joined) {vertex : Int} (member : vertex ∈ vertices) :
    ∃ place, graph.placeOf? (.int vertex) = some place ∧ vertices[place]? = some vertex := by
  cases found : graph.placeOf? (.int vertex) with
  | none =>
    rw [placeOf?, joins.vertices_eq, List.findIdx?_eq_none_iff] at found
    have differs := found _ (List.mem_map_of_mem member)
    rw [Value.sameKey_int, decide_eq_false_iff_not] at differs
    exact absurd rfl differs
  | some place =>
    rw [placeOf?, joins.vertices_eq, List.findIdx?_eq_some_iff_getElem] at found
    rcases found with ⟨bound, same, _⟩
    rw [List.getElem_map, Value.sameKey_int, decide_eq_true_iff] at same
    rw [List.length_map] at bound
    exact ⟨place, rfl, by rw [List.getElem?_eq_getElem bound, same]⟩

theorem getElem?_concat_eq_some_iff {vertex source : Int} {place : Nat} :
    (vertices ++ [vertex])[place]? = some source ↔ vertices[place]? = some source ∨
      place = vertices.length ∧ source = vertex := by
  rcases Nat.lt_trichotomy place vertices.length with inside | rfl | outside
  · rw [List.getElem?_append_left inside]
    exact ⟨Or.inl, fun either => either.elim id fun last => absurd last.1 inside.ne⟩
  · simp [eq_comm]
  · rw [List.getElem?_eq_none (by simp; omega), List.getElem?_eq_none outside.le]
    exact ⟨Or.inl, fun either => either.elim id fun last => absurd last.1 outside.ne'⟩

theorem Joins.neighboursAt_length (joins : graph.Joins vertices joined) : graph.neighboursAt vertices.length = [] := by
  have length : graph.adjacency.length = vertices.length := joins.vertexCount_eq
  rw [neighboursAt, List.getElem?_eq_none length.le]
  rfl

theorem neighboursAt_append (graph : Graph) (vertex : Value) (place : Nat) :
    neighboursAt { graph with adjacency := graph.adjacency ++ [(vertex, [])] } place = graph.neighboursAt place := by
  unfold neighboursAt
  rcases Nat.lt_trichotomy place graph.adjacency.length with inside | rfl | outside
  · simp only [List.getElem?_append_left inside]
  · simp
  · rw [List.getElem?_eq_none (by simp; omega), List.getElem?_eq_none outside.le]

theorem Joins.append (joins : graph.Joins vertices joined) {vertex : Int} (new : vertex ∉ vertices) :
    Joins { graph with adjacency := graph.adjacency ++ [(.int vertex, [])] } (vertices ++ [vertex]) joined where
  kind_eq := joins.kind_eq
  vertices_eq := by
    have same := joins.vertices_eq
    rw [Graph.vertices] at same ⊢
    rw [List.map_append, same, List.map_append, List.map_singleton, List.map_singleton]
  distinct := List.nodup_append.2 ⟨joins.distinct, List.nodup_singleton _, by
    rintro known member _ only rfl
    exact new (List.mem_singleton.1 only ▸ member)⟩
  inside source target isJoined :=
    ⟨List.mem_append_left _ (joins.inside _ _ isJoined).1, List.mem_append_left _ (joins.inside _ _ isJoined).2⟩
  once place := by
    rw [neighboursAt_append]
    exact joins.once place
  neighbours place source found neighbour := by
    rw [neighboursAt_append]
    rcases getElem?_concat_eq_some_iff.1 found with known | ⟨rfl, rfl⟩
    · rw [joins.neighbours place source known neighbour]
      constructor
      · rintro ⟨target, stands, key, isJoined⟩
        exact ⟨target, getElem?_concat_eq_some_iff.2 (.inl stands), key, isJoined⟩
      · rintro ⟨target, stands, key, isJoined⟩
        rcases getElem?_concat_eq_some_iff.1 stands with stands | ⟨_, rfl⟩
        · exact ⟨target, stands, key, isJoined⟩
        · exact absurd (joins.inside _ _ isJoined).2 new
    · rw [joins.neighboursAt_length]
      constructor
      · intro member
        cases member
      · rintro ⟨_, _, _, isJoined⟩
        exact absurd (joins.inside _ _ isJoined).1 new

theorem Joins.addVertex (joins : graph.Joins vertices joined) (vertex : Int) :
    ∃ next place grown, graph.addVertex (.int vertex) = .ok (next, place) ∧ next.Joins grown joined ∧
      grown[place]? = some vertex ∧
      (∀ (place : Nat) other, vertices[place]? = some other → grown[place]? = some other) ∧
      ∀ other, other ∈ grown ↔ other ∈ vertices ∨ other = vertex := by
  have key : (Value.int vertex).isKey = true := rfl
  by_cases member : vertex ∈ vertices
  · obtain ⟨place, found, stands⟩ := joins.exists_placeOf? member
    refine ⟨graph, place, vertices, ?_, joins, stands, fun _ _ stands => stands, fun other => ?_⟩
    · simp only [Graph.addVertex, key, found, Bool.not_true, Bool.false_eq_true, if_false]
    · exact ⟨Or.inl, fun either => either.elim id fun same => same ▸ member⟩
  · refine ⟨{ graph with adjacency := graph.adjacency ++ [(.int vertex, [])] }, graph.vertexCount, vertices ++ [vertex],
      ?_, joins.append member, ?_, fun _ _ stands => getElem?_concat_eq_some_iff.2 (.inl stands), fun other => by simp⟩
    · simp only [Graph.addVertex, key, joins.placeOf?_eq_none member, Bool.not_true, Bool.false_eq_true, if_false]
      rfl
    · rw [joins.vertexCount_eq]
      simp

theorem neighboursAt_join (graph : Graph) (start place : Nat) (target : Neighbour) (bound : start < graph.vertexCount) :
    (graph.join start target).neighboursAt place =
      if start = place ∧ target.place ∉ (graph.neighboursAt place).map Neighbour.place then
        graph.neighboursAt place ++ [target]
      else graph.neighboursAt place := by
  have inside : start < graph.adjacency.length := bound
  unfold neighboursAt join
  simp only [List.getElem?_modify]
  by_cases same : start = place
  · subst same
    simp only [List.getElem?_eq_getElem inside, Option.map_eq_map, Option.map_some, if_pos, Option.getD_some, true_and,
      List.any_eq_true, decide_eq_true_iff, List.mem_map]
    split
    · rfl
    · rfl
  · simp only [same, if_false, false_and]
    cases graph.adjacency[place]? <;> rfl

theorem Joins.place_unique (joins : graph.Joins vertices joined) {left right : Nat} {vertex : Int}
    (leftStands : vertices[left]? = some vertex) (rightStands : vertices[right]? = some vertex) : left = right :=
  (List.getElem?_inj (List.getElem?_eq_some_iff.1 leftStands).1 joins.distinct).1 (leftStands.trans rightStands.symm)

theorem Joins.joined_of_known (joins : graph.Joins vertices joined) {start finish : Nat} {source target : Int}
    (starts : vertices[start]? = some source) (finishes : vertices[finish]? = some target)
    (known : finish ∈ (graph.neighboursAt start).map Neighbour.place) : joined source target := by
  obtain ⟨neighbour, member, rfl⟩ := List.mem_map.1 known
  obtain ⟨other, stands, _, isJoined⟩ := (joins.neighbours start source starts neighbour).1 member
  rw [finishes] at stands
  cases stands
  exact isJoined

theorem Joins.mem_concat (joins : graph.Joins vertices joined) {start finish : Nat} {source target : Int}
    (starts : vertices[start]? = some source) (finishes : vertices[finish]? = some target) (neighbour : Neighbour) :
    neighbour ∈ graph.neighboursAt start ++ [⟨finish, .int target⟩] ↔ ∃ other,
      vertices[neighbour.place]? = some other ∧ neighbour.key = .int other ∧ (joined source other ∨ other = target) := by
  rw [List.mem_append, joins.neighbours start source starts neighbour, List.mem_singleton]
  constructor
  · rintro (⟨other, stands, key, isJoined⟩ | rfl)
    · exact ⟨other, stands, key, .inl isJoined⟩
    · exact ⟨target, finishes, rfl, .inr rfl⟩
  · rintro ⟨other, stands, key, isJoined | rfl⟩
    · exact .inl ⟨other, stands, key, isJoined⟩
    · rcases neighbour with ⟨place, named⟩
      obtain rfl : place = finish := joins.place_unique stands finishes
      obtain rfl : named = .int other := key
      exact .inr rfl

theorem Joins.join (joins : graph.Joins vertices joined) {start finish : Nat} {source target : Int}
    (starts : vertices[start]? = some source) (finishes : vertices[finish]? = some target) :
    (graph.join start ⟨finish, .int target⟩).Joins vertices
      fun left right => joined left right ∨ left = source ∧ right = target where
  kind_eq := joins.kind_eq
  vertices_eq := by
    rw [← joins.vertices_eq, Graph.vertices, Graph.join, Graph.vertices]
    apply List.ext_getElem?
    intro place
    simp only [List.getElem?_map, List.getElem?_modify]
    cases graph.adjacency[place]? with
    | none => rfl
    | some entry => split <;> rfl
  distinct := joins.distinct
  inside left right := by
    rintro (isJoined | ⟨rfl, rfl⟩)
    · exact joins.inside left right isJoined
    · exact ⟨List.mem_of_getElem? starts, List.mem_of_getElem? finishes⟩
  once place := by
    have bound : start < graph.vertexCount := joins.vertexCount_eq ▸ (List.getElem?_eq_some_iff.1 starts).1
    rw [neighboursAt_join graph start place _ bound]
    split
    · rename_i new
      rw [List.map_append, List.nodup_append]
      refine ⟨joins.once place, List.nodup_singleton _, ?_⟩
      rintro known member _ only rfl
      exact new.2 (List.mem_singleton.1 only ▸ member)
    · exact joins.once place
  neighbours place left found neighbour := by
    have bound : start < graph.vertexCount := joins.vertexCount_eq ▸ (List.getElem?_eq_some_iff.1 starts).1
    rw [neighboursAt_join graph start place _ bound]
    by_cases same : start = place
    · subst same
      rw [starts] at found
      cases found
      by_cases known : finish ∈ (graph.neighboursAt start).map Neighbour.place
      · have isJoined := joins.joined_of_known starts finishes known
        rw [if_neg (fun new => new.2 known), joins.neighbours start source starts neighbour]
        refine exists_congr fun other => and_congr_right fun _ => and_congr_right fun _ => ?_
        exact ⟨Or.inl, fun either => either.elim id fun ends => ends.2 ▸ isJoined⟩
      · rw [if_pos ⟨rfl, known⟩, joins.mem_concat starts finishes neighbour]
        simp only [true_and]
    · rw [if_neg (fun new => same new.1), joins.neighbours place left found neighbour]
      refine exists_congr fun other => and_congr_right fun _ => and_congr_right fun _ => ?_
      refine ⟨Or.inl, fun either => either.elim id fun ends => ?_⟩
      exact absurd (joins.place_unique starts (ends.1 ▸ found)) same

theorem Joins.recount (joins : graph.Joins vertices joined) (count : Nat) :
    Joins { graph with parallelCount := count } vertices joined := ⟨joins.kind_eq, joins.vertices_eq, joins.distinct,
      joins.inside, joins.once, joins.neighbours⟩

theorem Joins.hasVertex_iff (joins : graph.Joins vertices joined) (vertex : Int) :
    graph.hasVertex (.int vertex) = true ↔ vertex ∈ vertices := by
  by_cases member : vertex ∈ vertices
  · rcases joins.exists_placeOf? member with ⟨place, found, _⟩
    simp [hasVertex, found, member]
  · simp [hasVertex, joins.placeOf?_eq_none member, member]

theorem length_of_numbered {count : Nat} (distinct : vertices.Nodup)
    (numbered : ∀ vertex, vertex ∈ vertices ↔ 1 ≤ vertex ∧ vertex ≤ count) : vertices.length = count := by
  have numbers : ((List.range count).map fun (index : Nat) => (index : Int) + 1).Perm vertices := by
    rw [List.perm_ext_iff_of_nodup (List.nodup_range.map fun left right => by simp) distinct]
    intro vertex
    simp only [List.mem_map, List.mem_range, numbered]
    constructor
    · rintro ⟨index, bound, rfl⟩
      omega
    · rintro ⟨positive, bound⟩
      exact ⟨vertex.toNat - 1, by omega, by omega⟩
  simpa using numbers.length_eq.symm

theorem Joins.checkVertices_of_numbered (joins : graph.Joins vertices joined)
    (numbered : ∀ vertex, vertex ∈ vertices ↔ 1 ≤ vertex ∧ vertex ≤ graph.vertexCount) :
    graph.checkVertices = .ok () := by
  have all : ((List.range graph.vertexCount).map fun (index : Nat) => Value.int (index + 1)).all graph.hasVertex
      = true := by
    simp only [List.all_map, List.all_eq_true, List.mem_range, Function.comp_apply, joins.hasVertex_iff, numbered]
    omega
  rw [checkVertices, if_pos all]
  rfl

/-- A graph whose vertices can serve as variables has these and no others. -/
theorem Joins.numbered_of_check (joins : graph.Joins vertices joined) (checked : graph.checkVertices = .ok ()) :
    ∀ vertex, vertex ∈ vertices ↔ 1 ≤ vertex ∧ vertex ≤ graph.vertexCount := by
  have all : ∀ index < graph.vertexCount, ((index : Int) + 1) ∈ vertices := by
    intro index bound
    by_contra missing
    have absent : ((List.range graph.vertexCount).map fun (index : Nat) => Value.int (index + 1)).all graph.hasVertex
        = false := by
      rw [List.all_eq_false]
      refine ⟨_, List.mem_map_of_mem (List.mem_range.2 bound), ?_⟩
      rwa [joins.hasVertex_iff]
    rw [checkVertices, absent, if_neg Bool.false_ne_true] at checked
    rcases Outcome.bind_eq_ok_iff.1 checked with ⟨_, _, failed⟩
    cases failed
  have numbers : ((List.range graph.vertexCount).map fun (index : Nat) => (index : Int) + 1).Perm vertices := by
    refine (List.subperm_of_subset ?_ ?_).perm_of_length_le ?_
    · exact List.nodup_range.map fun left right (same : (left : Int) + 1 = right + 1) => by omega
    · intro vertex member
      rcases List.mem_map.1 member with ⟨index, bound, rfl⟩
      exact all index (List.mem_range.1 bound)
    · rw [List.length_map, List.length_range, joins.vertexCount_eq]
  intro vertex
  rw [← numbers.mem_iff]
  simp only [List.mem_map, List.mem_range]
  constructor
  · rintro ⟨index, bound, rfl⟩
    omega
  · rintro ⟨positive, bound⟩
    exact ⟨vertex.toNat - 1, by omega, by omega⟩

end Graph

end EnergyTables
