import EnergyTables.Proofs.Evaluation.Alike
import EnergyTables.Proofs.Selection.Packing

namespace EnergyTables

theorem Graph.nodup_ranked (edges : List (Int × Int)) : (ranked .undirected edges).Nodup :=
  (List.perm_insertionSort NotAfter _).nodup_iff.2 (List.nodup_dedup _)

namespace SetPacking

open EnergyTables.Graph

variable {edges : List (Int × Int)} {number : Int × Int → Int} {count : Nat} {sets : List (List Int)}

/-- The sets list, vertex by vertex and in any order, the numbers of the edges at the vertex; no two edges have the same
    number. -/
structure ListIncident (edges : List (Int × Int)) (number : Int × Int → Int) (count : Nat) (sets : List (List Int)) :
    Prop where
  counted : sets.length = count
  apart : ∀ edge ∈ edges, ∀ other ∈ edges, number edge = number other → edge = other
  mem_iff : ∀ (place : Nat) (set : List Int), sets[place]? = some set → ∀ key, key ∈ set ↔
    ∃ edge ∈ edges, (edge.1 = place + 1 ∨ edge.2 = place + 1) ∧ number edge = key

theorem ListIncident.common_iff (incident : ListIncident edges number count sets) {front back : Nat}
    (before : front < back) {left right : List Int} (frontStands : sets[front]? = some left)
    (backStands : sets[back]? = some right) (ordered : ∀ edge ∈ edges, edge.1 < edge.2) :
    (∃ key, key ∈ left ∧ key ∈ right) ↔ ((front : Int) + 1, (back : Int) + 1) ∈ edges := by
  constructor
  · rintro ⟨key, leftMember, rightMember⟩
    obtain ⟨edge, member, atFront, numbered⟩ := (incident.mem_iff front left frontStands key).1 leftMember
    obtain ⟨other, otherMember, atBack, otherNumbered⟩ := (incident.mem_iff back right backStands key).1 rightMember
    obtain rfl := incident.apart edge member other otherMember (numbered.trans otherNumbered.symm)
    have less := ordered edge member
    have ends : edge = ((front : Int) + 1, (back : Int) + 1) := Prod.ext (by omega) (by omega)
    rwa [← ends]
  · intro member
    exact ⟨number _, (incident.mem_iff front left frontStands _).2 ⟨_, member, .inl rfl, rfl⟩,
      (incident.mem_iff back right backStands _).2 ⟨_, member, .inr rfl, rfl⟩⟩

def keysOf (sets : List (List Int)) : List (List Value) := sets.map (List.map .int)

theorem exists_sameKey_iff {left right : List Int} :
    (∃ element ∈ left.map Value.int, ∃ other ∈ right.map Value.int, element.sameKey other = true) ↔
      ∃ key, key ∈ left ∧ key ∈ right := by
  simp [Value.sameKey_int]

theorem mem_meetings_keysOf {pair : Int × Int} : pair ∈ meetings (keysOf sets) ↔
    ∃ (front back : Nat) (left right : List Int), front < back ∧ sets[front]? = some left ∧ sets[back]? = some right ∧
      (∃ key, key ∈ left ∧ key ∈ right) ∧ pair = ((front : Int) + 1, (back : Int) + 1) := by
  rw [mem_meetings]
  constructor
  · rintro ⟨front, back, left, right, before, frontStands, backStands, meet, rfl⟩
    rw [keysOf, List.getElem?_map, Option.map_eq_some_iff] at frontStands backStands
    obtain ⟨left, frontStands, rfl⟩ := frontStands
    obtain ⟨right, backStands, rfl⟩ := backStands
    exact ⟨front, back, left, right, before, frontStands, backStands, exists_sameKey_iff.1 meet, rfl⟩
  · rintro ⟨front, back, left, right, before, frontStands, backStands, meet, rfl⟩
    refine ⟨front, back, left.map .int, right.map .int, before, ?_, ?_, exists_sameKey_iff.2 meet, rfl⟩
    · rw [keysOf, List.getElem?_map, frontStands]
      rfl
    · rw [keysOf, List.getElem?_map, backStands]
      rfl

/-- The sets that meet are those of joined vertices, in the order of the edges. -/
theorem ListIncident.meetings_eq {graph : Graph} {vertices : List Int}
    (simple : graph.Simple .undirected vertices edges count)
    (incident : ListIncident (ranked .undirected edges) number count sets) :
    meetings (keysOf sets) = ranked .undirected edges := by
  have ordered : ∀ edge ∈ ranked .undirected edges, edge.1 < edge.2 := fun edge member =>
    (simple.ranked_inside member).2.1
  have members : ∀ pair, pair ∈ meetings (keysOf sets) ↔ pair ∈ ranked .undirected edges := by
    intro pair
    rw [mem_meetings_keysOf]
    constructor
    · rintro ⟨front, back, left, right, before, frontStands, backStands, meet, rfl⟩
      exact (incident.common_iff before frontStands backStands ordered).1 meet
    · intro member
      have inside := simple.ranked_inside member
      have counted := incident.counted
      have frontBound : pair.1.toNat - 1 < sets.length := by omega
      have backBound : pair.2.toNat - 1 < sets.length := by omega
      have before : pair.1.toNat - 1 < pair.2.toNat - 1 := by omega
      have places : pair = (((pair.1.toNat - 1 : Nat) : Int) + 1, ((pair.2.toNat - 1 : Nat) : Int) + 1) :=
        Prod.ext (by omega) (by omega)
      refine ⟨_, _, _, _, before, List.getElem?_eq_getElem frontBound, List.getElem?_eq_getElem backBound, ?_, places⟩
      rw [incident.common_iff before (List.getElem?_eq_getElem frontBound) (List.getElem?_eq_getElem backBound) ordered,
        ← places]
      exact member
  -- both lists increase, so with the same members they are the same list
  have increase := pairwise_meetings (keysOf sets)
  have distinct : (meetings (keysOf sets)).Nodup := increase.imp fun less same => by
    subst same
    exact lt_irrefl _ less
  have sorted : (meetings (keysOf sets)).Pairwise NotAfter := increase.imp le_of_lt
  exact ((List.perm_ext_iff_of_nodup distinct (nodup_ranked edges)).2 members).eq_of_pairwise' sorted
    (pairwise_ranked .undirected edges)

theorem areKeys_ints (numbers : List Int) : Value.areKeys (numbers.map .int) = true := by
  induction numbers with
  | nil => rfl
  | cons number numbers ih => rw [List.map_cons, Value.areKeys, ih]; rfl

theorem comparable_keysOf (sets : List (List Int)) : Comparable (keysOf sets) := by
  apply comparable_of_keys
  intro _ set member
  obtain ⟨numbers, _, rfl⟩ := List.mem_map.1 member
  exact areKeys_ints numbers

end SetPacking

theorem Weights.normalize_unit {weights kept : Value} {expected : Int} {unit : String}
    (normalized : normalize weights expected unit = .ok kept) (other : String) :
    normalize weights expected other = .ok kept := by
  cases weights with
  | none => exact normalized
  | _ =>
    obtain ⟨given, counted, rest⟩ := Outcome.bind_eq_ok_iff.1 normalized
    refine Outcome.bind_eq_ok_iff.2 ⟨given, counted, ?_⟩
    by_cases differ : (given : Int) ≠ expected
    · rw [if_pos differ] at rest
      cases rest
    · rw [if_neg differ] at rest ⊢
      exact rest

namespace Selection

theorem onPairs_alike (pairs : List (Int × Int)) (tag other : String) (rule : List Int → Value → Outcome Bool) :
    List.Forall₂ HardConstraint.Alike (pairs.map (onPair tag rule)) (pairs.map (onPair other rule)) := by
  rw [List.forall₂_map_left_iff, List.forall₂_map_right_iff, List.forall₂_same]
  exact fun _ _ => ⟨rfl, rfl⟩

theorem onItems_agrees (count : Nat) (weights : Value) (tag other : String)
    (energy : List Int → Value → Value → Outcome Value) :
    Outcome.Agrees (List.Forall₂ SoftConstraint.Alike) (onItems count weights tag energy)
      (onItems count weights other energy) := by
  apply Outcome.mapM_agrees
  rw [List.forall₂_same]
  intro index _
  apply (Outcome.agrees_rfl _).bind
  rintro weight _ rfl
  exact .ok ⟨rfl, rfl⟩

end Selection

open Selection

section Incident

variable {graph : Graph} {vertices : List Int} {edges : List (Int × Int)} {number : Int × Int → Int} {count : Nat}
  {sets : List (List Int)} {weights given : Value} {rows : List Value}

theorem SetPacking.make_keysOf (lists : given.Lists rows)
    (listed : List.Forall₂ (fun row set => row.Lists (set.map Value.int)) rows sets) (weights : Value) :
    make given weights = do return ⟨keysOf sets, ← Weights.normalize weights sets.length "sets"⟩ := by
  have items : rows.mapM Value.items = .ok (keysOf sets) := by
    rw [Outcome.mapM_eq_ok_iff, keysOf, List.forall₂_map_right_iff]
    exact listed.imp fun _ _ row => row.items_eq
  rw [make, construct, lists.items_eq, Outcome.ok_bind, items, Outcome.ok_bind, keysOf, List.length_map]
  rfl

theorem SetPacking.disjointness_keysOf (simple : graph.Simple .undirected vertices edges count)
    (incident : ListIncident (Graph.ranked .undirected edges) number count sets) (kept : Value) :
    disjointness ⟨keysOf sets, kept⟩ =
      .ok ((Graph.ranked .undirected edges).map (onPair "disjoint" someUnselected)) := by
  rw [← incident.meetings_eq simple]
  exact @disjointness_eq_ok ⟨keysOf sets, kept⟩ (comparable_keysOf sets)

theorem IndependentSet.alike_keysOf (simple : graph.Simple .undirected vertices edges count)
    (incident : SetPacking.ListIncident (Graph.ranked .undirected edges) number count sets) (kept : Value) :
    (IndependentSet.mk graph kept).problem.Alike (SetPacking.mk (SetPacking.keysOf sets) kept).problem := by
  have counts : graph.vertexCount = (SetPacking.keysOf sets).length := by
    rw [simple.vertexCount_eq, SetPacking.keysOf, List.length_map, incident.counted]
  constructor
  · exact congrArg Nat.cast counts
  · rfl
  · rfl
  · show Outcome.Agrees _ (onEdges graph "no_edge" someUnselected) (SetPacking.disjointness _)
    rw [onEdges_eq_ok simple, SetPacking.disjointness_keysOf simple incident]
    exact .ok (onPairs_alike _ _ _ _)
  · show Outcome.Agrees _ (onItems graph.vertexCount kept "vertex" gain) (onItems _ kept "set" gain)
    rw [counts]
    exact onItems_agrees _ _ _ _ _

/-- With sets that list the numbers of the edges at each vertex, packings are independent sets: either both problems are
    made or neither, their hard constraints are on the edges by their ranks, and they have the same tables, energies and
    best configurations. -/
theorem IndependentSet.interchanges_packing (simple : graph.Simple .undirected vertices edges count)
    (incident : SetPacking.ListIncident (Graph.ranked .undirected edges) number count sets) (lists : given.Lists rows)
    (listed : List.Forall₂ (fun row set => row.Lists (set.map Value.int)) rows sets) (weights : Value) :
    ((∃ independent, make graph weights = .ok independent) ↔ ∃ packing, SetPacking.make given weights = .ok packing) ∧
    ∀ independent packing, make graph weights = .ok independent → SetPacking.make given weights = .ok packing →
      independent.problem.hardConstraints =
        .ok ((Graph.ranked .undirected edges).map (onPair "no_edge" someUnselected)) ∧
      packing.problem.hardConstraints =
        .ok ((Graph.ranked .undirected edges).map (onPair "disjoint" someUnselected)) ∧
      independent.problem.energyTerms = packing.problem.energyTerms ∧
      (∀ configuration, independent.problem.energy configuration = packing.problem.energy configuration ∧
        independent.problem.isFeasible configuration = packing.problem.isFeasible configuration) ∧
      ∀ limit, independent.problem.findBest limit = packing.problem.findBest limit := by
  rw [make_eq simple, SetPacking.make_keysOf lists listed, incident.counted]
  constructor
  · constructor
    · rintro ⟨_, made⟩
      obtain ⟨kept, normalized, rfl⟩ := Outcome.map_eq_ok_iff.1 made
      exact ⟨_, Outcome.map_eq_ok_iff.2 ⟨kept, Weights.normalize_unit normalized "sets", rfl⟩⟩
    · rintro ⟨_, made⟩
      obtain ⟨kept, normalized, rfl⟩ := Outcome.map_eq_ok_iff.1 made
      exact ⟨_, Outcome.map_eq_ok_iff.2 ⟨kept, Weights.normalize_unit normalized "vertices", rfl⟩⟩
  · intro independent packing isolates packs
    obtain ⟨kept, normalized, rfl⟩ := Outcome.map_eq_ok_iff.1 isolates
    obtain ⟨other, otherNormalized, rfl⟩ := Outcome.map_eq_ok_iff.1 packs
    obtain rfl : kept = other :=
      Except.ok.inj ((Weights.normalize_unit normalized "sets").symm.trans otherNormalized)
    have alike := alike_keysOf simple incident kept
    exact ⟨onEdges_eq_ok simple "no_edge" someUnselected, SetPacking.disjointness_keysOf simple incident kept,
      alike.energyTerms_eq,
      fun configuration => ⟨alike.energy_eq configuration, alike.isFeasible_eq configuration⟩, alike.findBest_eq⟩

theorem IndependentSet.interchanges_packing_path :
    ∃ (graph : Graph) (independent : IndependentSet) (packing : SetPacking),
      Graph.build .undirected ([1, 2, 3, 4].map .int) ([(2, 1), (3, 2)].map Graph.pairOf) = .ok graph ∧
      make graph (.list ([5, -2, 7, 1].map .int)) = .ok independent ∧
      SetPacking.make (.list [.list [.int 7], .tuple [.int 9, .int 7], .list [.int 9], .list []])
        (.list ([5, -2, 7, 1].map .int)) = .ok packing ∧
      independent.problem.energyTerms = packing.problem.energyTerms ∧
      independent.problem.findBest (.int 16) = packing.problem.findBest (.int 16) := by
  have built : Graph.build .undirected ([1, 2, 3, 4].map .int) ([(2, 1), (3, 2)].map Graph.pairOf) = .ok _ := rfl
  have simple := Graph.simple_of_check (by decide) built rfl (by decide)
  have ranks : Graph.ranked .undirected [(2, 1), (3, 2)] = [(1, 2), (2, 3)] := by decide +kernel
  have incident : SetPacking.ListIncident (Graph.ranked .undirected [(2, 1), (3, 2)])
      (fun edge => if edge.1 = 1 then 7 else 9) 4 [[7], [9, 7], [9], []] := by
    rw [ranks]
    refine ⟨rfl, by decide, fun place set stands key => ?_⟩
    match place, stands with
    | 0, rfl => simp [eq_comm]
    | 1, rfl => simp [eq_comm, or_comm]
    | 2, rfl => simp [eq_comm]
    | 3, rfl => simp
  have listed : List.Forall₂ (fun (row : Value) (set : List Int) => row.Lists (set.map Value.int))
      [.list [.int 7], .tuple [.int 9, .int 7], .list [.int 9], .list []] [[7], [9, 7], [9], []] :=
    .cons (.list _) (.cons (.tuple _) (.cons (.list _) (.cons (.list _) .nil)))
  obtain ⟨_, interchange⟩ := interchanges_packing simple incident (.list _) listed (.list ([5, -2, 7, 1].map .int))
  obtain ⟨_, _, terms, _, best⟩ := interchange _ _ rfl rfl
  exact ⟨_, _, _, built, rfl, rfl, terms, best _⟩

end Incident

end EnergyTables
