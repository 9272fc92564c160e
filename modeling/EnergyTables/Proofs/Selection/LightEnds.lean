import EnergyTables.Proofs.Graph.Predicates
import EnergyTables.Proofs.Selection.BestSelections

namespace EnergyTables

namespace Selection

variable {format : IntFormat} {numbers : List Int} {pairs : List (Int × Int)} {bits : List Nat} {count place : Nat}

def weightAt (numbers : List Int) (index : Int) : Int := numbers.getD (index.toNat - 1) 0

theorem set_mem_vectors (within : bits ∈ Vectors count) (place : Nat) : bits.set place 1 ∈ Vectors count := by
  constructor
  · rw [List.length_set, within.1]
  · intro bit member
    rcases List.mem_or_eq_of_mem_set member with member | rfl
    · exact within.2 bit member
    · exact le_rfl

theorem total_set_one (within : bits ∈ Vectors numbers.length) (bound : place < numbers.length)
    (unselected : bits.getD place 0 = 0) :
    total numbers (bits.set place 1) = total numbers bits + numbers.getD place 0 := by
  induction numbers generalizing bits place with
  | nil => cases bound
  | cons number numbers ih =>
    obtain ⟨bit, bits, rfl, -, within⟩ := exists_cons_of_mem_vectors within
    cases place with
    | zero =>
      have zero : bit = 0 := by simpa using unselected
      simp [total_cons, zero, add_comm]
    | succ place =>
      have rest := ih within (Nat.lt_of_succ_lt_succ bound) (by simpa using unselected)
      rw [List.set_cons_succ, total_cons, total_cons, rest, List.getD_cons_succ, add_assoc]

theorem bitAt_set_self {index : Int} (bound : index.toNat - 1 < bits.length) :
    bitAt (bits.set (index.toNat - 1) 1) index = 1 := by
  rw [bitAt, List.getD_eq_getElem _ _ (by rwa [List.length_set]), List.getElem_set_self]

theorem bitAt_eq_zero_of_set {index : Int} (unselected : bitAt (bits.set place 1) index = 0) :
    bitAt bits index = 0 := by
  by_cases same : place = index.toNat - 1
  · subst same
    by_cases bound : index.toNat - 1 < bits.length
    · rw [bitAt_set_self bound] at unselected
      cases unselected
    · rwa [List.set_eq_of_length_le (Nat.le_of_not_lt bound)] at unselected
  · rwa [bitAt, List.getD_eq_getElem?_getD, List.getElem?_set_ne same, ← List.getD_eq_getElem?_getD] at unselected

theorem agreements_append (front back : List (Int × Int)) (bit : Nat) (bits : List Nat) :
    agreements (front ++ back) bit bits = agreements front bit bits + agreements back bit bits := List.countP_append

theorem agreements_cons (pair : Int × Int) (pairs : List (Int × Int)) (bit : Nat) (bits : List Nat) :
    agreements (pair :: pairs) bit bits =
      agreements pairs bit bits + if bitAt bits pair.1 = bit ∧ bitAt bits pair.2 = bit then 1 else 0 := by
  simp only [agreements, List.countP_cons, decide_eq_true_iff]

/-- To select an end of a pair that has none selected settles this pair and makes no other worse. -/
theorem agreements_set_lt {pair : Int × Int} (member : pair ∈ pairs) {index : Int}
    (atEnd : index = pair.1 ∨ index = pair.2) (bound : index.toNat - 1 < bits.length)
    (uncovered : bitAt bits pair.1 = 0 ∧ bitAt bits pair.2 = 0) :
    agreements pairs 0 (bits.set (index.toNat - 1) 1) < agreements pairs 0 bits := by
  obtain ⟨front, back, rfl⟩ := List.append_of_mem member
  have fewer (others : List (Int × Int)) :
      agreements others 0 (bits.set (index.toNat - 1) 1) ≤ agreements others 0 bits := by
    apply List.countP_mono_left
    intro other _ both
    rw [decide_eq_true_iff] at both ⊢
    exact ⟨bitAt_eq_zero_of_set both.1, bitAt_eq_zero_of_set both.2⟩
  have settled : ¬ (bitAt (bits.set (index.toNat - 1) 1) pair.1 = 0 ∧
      bitAt (bits.set (index.toNat - 1) 1) pair.2 = 0) := by
    have selected := bitAt_set_self bound
    rcases atEnd with rfl | rfl
    · simp [selected]
    · simp [selected]
  have frontFewer := fewer front
  have backFewer := fewer back
  rw [agreements_append, agreements_append, agreements_cons, agreements_cons, if_neg settled, if_pos uncovered]
  omega

theorem avoids_of_least (inside : ∀ pair ∈ pairs,
      (1 ≤ pair.1 ∧ pair.1 ≤ numbers.length) ∧ (1 ≤ pair.2 ∧ pair.2 ≤ numbers.length))
    (light : ∀ pair ∈ pairs, weightAt numbers pair.1 < format.sentinel ∨ weightAt numbers pair.2 < format.sentinel)
    (within : bits ∈ Vectors numbers.length)
    (least : ∀ others ∈ Vectors numbers.length,
      exactEnergy format numbers pairs 0 1 bits ≤ exactEnergy format numbers pairs 0 1 others) :
    Avoids pairs 0 bits := by
  intro pair member uncovered
  obtain ⟨index, atEnd, lighter⟩ : ∃ index, (index = pair.1 ∨ index = pair.2) ∧
      weightAt numbers index < format.sentinel := by
    rcases light pair member with lighter | lighter
    · exact ⟨_, .inl rfl, lighter⟩
    · exact ⟨_, .inr rfl, lighter⟩
  have bounds : 1 ≤ index ∧ index ≤ numbers.length := by
    rcases atEnd with rfl | rfl
    · exact (inside pair member).1
    · exact (inside pair member).2
  have unselected : bitAt bits index = 0 := by
    rcases atEnd with rfl | rfl
    · exact uncovered.1
    · exact uncovered.2
  have bound : index.toNat - 1 < numbers.length := by omega
  -- to select the light end saves a sentinel and costs less than one, so the vector would not be least
  have fewer := agreements_set_lt member atEnd (by rwa [within.1]) uncovered
  have dearer := total_set_one within bound unselected
  have saved : (agreements pairs 0 (bits.set (index.toNat - 1) 1) + 1) * format.sentinel ≤
      agreements pairs 0 bits * format.sentinel :=
    mul_le_mul_of_nonneg_right (by exact_mod_cast fewer) format.sentinel_nonneg
  have undercut := least _ (set_mem_vectors within (index.toNat - 1))
  simp only [exactEnergy, one_mul, add_mul, dearer, weightAt] at undercut saved lighter
  omega

theorem exactEnergy_nonneg (positive : ∀ number ∈ numbers, 0 < number) (within : bits ∈ Vectors numbers.length)
    (bit : Nat) : 0 ≤ exactEnergy format numbers pairs bit 1 bits := by
  rw [exactEnergy, one_mul, total_eq_marked within]
  exact add_nonneg (mul_nonneg (Int.natCast_nonneg _) format.sentinel_nonneg) (Weights.marked_bounds positive _).1

/-- Where each pair has a light end and no energy leaves the words, a search finds vectors that avoid the pairs. -/
theorem Poses.exists_avoiding {problem : Problem} {kept : Value} (poses : Poses problem format numbers kept pairs 0 1)
    (signed : format.signed = true) (positive : ∀ number ∈ numbers, 0 < number)
    (held : ∀ number ∈ numbers, format.Holds number ∧ format.Holds (-number))
    (light : ∀ pair ∈ pairs, weightAt numbers pair.1 < format.sentinel ∨ weightAt numbers pair.2 < format.sentinel)
    (fits : ∀ bits ∈ Vectors numbers.length, exactEnergy format numbers pairs 0 1 bits ≤ format.greatest) {limit : Int}
    (enough : (2 ^ numbers.length : Nat) ≤ limit) :
    ∃ best : List (List Nat), problem.findBest (.int limit) = .ok (best.map (List.map fun (bit : Nat) => .int bit)) ∧
      best ≠ [] ∧ ∀ bits ∈ best, bits ∈ Vectors numbers.length ∧ Avoids pairs 0 bits := by
  have holds : ∀ bits ∈ Vectors numbers.length, format.Holds (exactEnergy format numbers pairs 0 1 bits) := by
    intro bits within
    apply IntFormat.holds_of_abs_le signed
    rw [abs_of_nonneg (exactEnergy_nonneg positive within 0)]
    exact fits bits within
  refine ⟨_, poses.findBest_eq_ok held holds enough, ?_, fun bits member => ?_⟩
  · rw [Ne, Search.minimisers_eq_nil_iff]
    exact List.ne_nil_of_mem (mem_vectors_bits.2 (replicate_mem_vectors _ le_rfl))
  · obtain ⟨within, least⟩ := mem_minimisers_bits.1 member
    exact ⟨within, avoids_of_least poses.inside light within least⟩

end Selection

open Selection Flavor

theorem Weights.normalize_array {storage : Storage} {shape : List Nat} {count : Nat} (writeable : Bool)
    (entries : List Value) (unit : String) :
    normalize (.array storage (count :: shape) writeable entries) count unit =
      .ok (.array storage (count :: shape) false entries) := by
  simp [normalize, Value.length]

theorem Weights.holds_words {format : IntFormat} (signed : format.signed = true) {words : List (Word format)}
    (positive : ∀ word ∈ words, 0 < word.val) :
    ∀ number ∈ words.map Word.val, format.Holds number ∧ format.Holds (-number) := by
  refine List.forall_mem_map.2 fun word member => ⟨word.held, IntFormat.holds_of_abs_le signed ?_⟩
  rw [abs_neg, abs_of_pos (positive word member)]
  exact word.held.2

namespace Graph.Simple

variable {graph : Graph} {kind : GraphKind} {vertices : List Int} {edges : List (Int × Int)} {count : Nat}
  {bits : List Nat}

theorem isCovering_of_avoids (simple : graph.Simple kind vertices edges count) (within : bits ∈ Vectors count)
    (avoids : Avoids (ranked kind edges) 0 bits) {configuration : Value}
    (lists : configuration.Lists (bits.map fun (bit : Nat) => .int bit)) :
    graph.isCovering configuration = .ok true := by
  rw [simple.isCovering_eq_ok within.1 lists]
  refine congrArg Except.ok (List.all_eq_true.2 fun edge member => ?_)
  have covered : ¬ (choiceAt bits edge.1 = 0 ∧ choiceAt bits edge.2 = 0) := avoids edge member
  rw [decide_eq_false covered]
  rfl

end Graph.Simple

/-- Where each edge has an end lighter than the sentinel, and no sentinels and weights add up beyond the words, all that
    a search finds are coverings; to select every vertex is one. -/
theorem VertexCovering.findBest_covers {graph : Graph} {kind : GraphKind} {vertices : List Int}
    {edges : List (Int × Int)} {format : IntFormat} {words : List (Word format)}
    (simple : graph.Simple kind vertices edges words.length) (signed : format.signed = true)
    (positive : ∀ word ∈ words, 0 < word.val)
    (light : ∀ edge ∈ edges, weightAt (words.map Word.val) edge.1 < format.sentinel ∨
      weightAt (words.map Word.val) edge.2 < format.sentinel)
    (fits : ∀ bits ∈ Vectors words.length,
      exactEnergy format (words.map Word.val) (Graph.ranked kind edges) 0 1 bits ≤ format.greatest)
    (writeable : Bool) {limit : Int} (enough : (2 ^ words.length : Nat) ≤ limit) :
    ∃ (covering : VertexCovering) (best : List (List Nat)),
      make graph (.array (.word format) [words.length] writeable (words.map fun word => .number (.word format word))) =
        .ok covering ∧
      covering.problem.findBest (.int limit) = .ok (best.map (List.map fun (bit : Nat) => .int bit)) ∧ best ≠ [] ∧
      (∀ bits ∈ best, graph.isCovering (.list (bits.map fun (bit : Nat) => .int bit)) = .ok true) ∧
      graph.isCovering (.list (List.replicate words.length (.int 1))) = .ok true := by
  have lengths : (words.map Word.val).length = words.length := List.length_map _
  have made : make graph (.array (.word format) [words.length] writeable
      (words.map fun word => .number (.word format word))) = .ok ⟨graph, .array (.word format) [words.length] false
        (words.map fun word => .number (.word format word))⟩ := by
    rw [make_eq simple, Weights.normalize_array]
    rfl
  have poses := VertexCovering.poses simple (.array writeable words) lengths made
  have lighter := (@Graph.forall_ranked kind edges (fun source target =>
    weightAt (words.map Word.val) source < format.sentinel ∨ weightAt (words.map Word.val) target < format.sentinel)
    fun _ _ => Or.symm).2 light
  rw [← lengths] at fits enough
  obtain ⟨best, found, some, avoid⟩ := poses.exists_avoiding signed (List.forall_mem_map.2 positive)
    (Weights.holds_words signed positive) lighter fits enough
  rw [lengths] at avoid
  refine ⟨_, best, made, found, some, fun bits member => ?_, ?_⟩
  · exact simple.isCovering_of_avoids (avoid bits member).1 (avoid bits member).2 (.list _)
  · have inside := poses.inside
    rw [lengths] at inside
    have covering := simple.isCovering_of_avoids (replicate_mem_vectors _ le_rfl) (avoids_replicate inside one_ne_zero)
      (.list _)
    rwa [List.map_replicate] at covering

theorem VertexCovering.findBest_covers_path : ∃ (graph : Graph) (covering : VertexCovering) (best : List (List Nat)),
    Graph.build .undirected ([1, 2, 3].map .int) ([(1, 2), (3, 2)].map Graph.pairOf) = .ok graph ∧
    make graph (.array (.word .int8) [3] true ([3, 100, 10].map fun weight => .number (.ofWord .int8 weight))) =
      .ok covering ∧
    covering.problem.findBest (.int 8) = .ok (best.map (List.map fun (bit : Nat) => .int bit)) ∧ best ≠ [] ∧
    ∀ bits ∈ best, graph.isCovering (.list (bits.map fun (bit : Nat) => .int bit)) = .ok true := by
  have built : Graph.build .undirected ([1, 2, 3].map .int) ([(1, 2), (3, 2)].map Graph.pairOf) = .ok _ := rfl
  have simple := Graph.simple_of_check (by decide) built rfl (by decide)
  have fits : ∀ bits ∈ Search.vectors [0, 1] 3,
      exactEnergy .int8 (([3, 100, 10].map (Word.wrap .int8)).map Word.val) (Graph.ranked .undirected [(1, 2), (3, 2)]) 0 1
        bits ≤ IntFormat.int8.greatest := by decide +kernel
  obtain ⟨covering, best, made, found, some, covers, _⟩ :=
    @VertexCovering.findBest_covers _ _ _ _ _ ([3, 100, 10].map (Word.wrap .int8)) simple rfl (by decide)
      (by decide +kernel) (fun bits within => fits bits (mem_vectors_bits.2 within)) true 8 (by decide)
  exact ⟨_, covering, best, built, made, found, some, covers⟩

/-- Two joined vertices that both weigh more than the sentinel are left out. So are vertices of weight one when the
    sentinels of all their edges together wrap around to a negative energy. -/
theorem VertexCovering.exists_best_not_covering :
    (∃ (graph : Graph) (covering : VertexCovering),
      Graph.build .undirected ([1, 2].map .int) ([(1, 2)].map Graph.pairOf) = .ok graph ∧
      make graph (.array (.word .int8) [2] true ([12, 12].map fun weight => .number (.ofWord .int8 weight))) =
        .ok covering ∧
      covering.problem.findBest (.int 4) = .ok [[.int 0, .int 0]] ∧
      graph.isCovering (.list [.int 0, .int 0]) = .ok false) ∧
    ∃ (graph : Graph) (covering : VertexCovering) (best : List (List Value)),
      Graph.build .undirected ([1, 2, 3, 4, 5, 6].map .int) ([(1, 2), (1, 3), (1, 4), (1, 5), (2, 3), (2, 4), (2, 6),
        (3, 5), (3, 6), (4, 5), (4, 6), (5, 6)].map Graph.pairOf) = .ok graph ∧
      make graph (.array (.word .int8) [6] true ([1, 1, 1, 1, 1, 1].map fun weight => .number (.ofWord .int8 weight))) =
        .ok covering ∧
      covering.problem.findBest (.int 64) = .ok best ∧ List.replicate 6 (.int 0) ∈ best ∧
      graph.isCovering (.list (List.replicate 6 (.int 0))) = .ok false := by
  constructor
  · exact ⟨_, _, rfl, rfl, rfl, rfl⟩
  · have built : Graph.build .undirected ([1, 2, 3, 4, 5, 6].map .int) ([(1, 2), (1, 3), (1, 4), (1, 5), (2, 3), (2, 4),
        (2, 6), (3, 5), (3, 6), (4, 5), (4, 6), (5, 6)].map Graph.pairOf) = .ok _ := rfl
    have simple := Graph.simple_of_check (by decide) built rfl (by decide)
    have poses := VertexCovering.poses simple (.array true ([1, 1, 1, 1, 1, 1].map (Word.wrap .int8))) rfl rfl
    have positive : ∀ word ∈ [1, 1, 1, 1, 1, 1].map (Word.wrap .int8), 0 < word.val := by decide
    have found := poses.findBest_words (Weights.holds_words rfl positive) (le_refl 64)
    refine ⟨_, _, _, built, rfl, found, List.mem_map.2 ⟨List.replicate 6 0, ?_, rfl⟩, rfl⟩
    rw [Search.mem_minimisers]
    decide +kernel

end EnergyTables
