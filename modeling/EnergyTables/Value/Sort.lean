import EnergyTables.Fault

namespace EnergyTables

namespace Value

def takeRun {α : Type} (goesOn : α → α → Outcome Bool) (taken : List α) : List α → Outcome (List α × List α)
  | [] => .ok (taken, [])
  | item :: rest => do
    match taken with
    | [] => takeRun goesOn [item] rest
    | last :: _ => if ← goesOn last item then takeRun goesOn (item :: taken) rest else return (taken, item :: rest)

def firstRun {α : Type} (less : α → α → Outcome Bool) : List α → Outcome (List α × List α)
  | first :: second :: rest => do
    if ← less second first then takeRun (fun last item => less item last) [second, first] rest
    else
      let (run, rest) ← takeRun (fun last item => do return !(← less item last)) [second, first] rest
      return (run.reverse, rest)
  | items => .ok (items, [])

/-- The place for an item between two places of a sorted list, found by halving. -/
def insertionPlace {α : Type} (less : α → α → Outcome Bool) (item : α) (sorted : List α) (low high : Nat) :
    Outcome Nat := do
  if low < high then
    match sorted[(low + high) / 2]? with
    | some middle =>
      if ← less item middle then insertionPlace less item sorted low ((low + high) / 2)
      else insertionPlace less item sorted ((low + high) / 2 + 1) high
    | Option.none => return low
  else return low
termination_by high - low

def insertSorted {α : Type} (less : α → α → Outcome Bool) (sorted : List α) (item : α) : Outcome (List α) := do
  let place ← insertionPlace less item sorted 0 sorted.length
  return sorted.take place ++ item :: sorted.drop place

/-- The list sorted; items of which neither precedes the other keep their order. -/
def sort {α : Type} (less : α → α → Outcome Bool) (items : List α) : Outcome (List α) := do
  let (run, rest) ← firstRun less items
  rest.foldlM (insertSorted less) run

structure Total {α : Type} (domain : α → Prop) (less : α → α → Outcome Bool) (precedes : α → α → Bool) : Prop where
  decides : ∀ left right, domain left → domain right → less left right = .ok (precedes left right)
  asymm : ∀ left right, precedes left right = true → precedes right left = false
  trans : ∀ left middle right, precedes middle left = false → precedes right middle = false →
    precedes right left = false

def Ordered {α : Type} (precedes : α → α → Bool) (items : List α) : Prop :=
  items.Pairwise fun earlier later => precedes later earlier = false

theorem takeRun_eq_ok {α : Type} {domain : α → Prop} {goesOn : α → α → Outcome Bool} (follows : α → α → Bool)
    (relation : α → α → Prop)
    (decides : ∀ last item, domain last → domain item → goesOn last item = .ok (follows last item))
    (relates : ∀ last item, follows last item = true → relation item last)
    (trans : ∀ left middle right, relation left middle → relation middle right → relation left right)
    (items : List α) (last : α) (taken : List α) (inDomain : ∀ item ∈ (last :: taken) ++ items, domain item)
    (chained : (last :: taken).Pairwise relation) :
    ∃ run rest, takeRun goesOn (last :: taken) items = .ok (run, rest) ∧
      run.reverse ++ rest = (last :: taken).reverse ++ items ∧ run.Pairwise relation := by
  induction items generalizing last taken with
  | nil => exact ⟨_, _, rfl, by simp, chained⟩
  | cons item items ih =>
    have decided := decides last item (inDomain _ (by simp)) (inDomain _ (by simp))
    simp only [takeRun, decided, bind, Except.bind]
    cases goes : follows last item with
    | false => exact ⟨_, _, rfl, by simp, chained⟩
    | true =>
      have chained : (item :: last :: taken).Pairwise relation := by
        refine List.pairwise_cons.2 ⟨fun earlier member => ?_, chained⟩
        rcases List.mem_cons.1 member with rfl | member
        · exact relates _ _ goes
        · exact trans _ _ _ (relates _ _ goes) ((List.pairwise_cons.1 chained).1 _ member)
      obtain ⟨run, rest, result, same, ordered⟩ := ih item (last :: taken) (fun each member => inDomain each (by
        simp only [List.mem_append, List.mem_cons] at member ⊢; grind)) chained
      exact ⟨run, rest, result, by simpa using same, ordered⟩

section Total

variable {α : Type} {domain : α → Prop} {less : α → α → Outcome Bool} {precedes : α → α → Bool}

theorem firstRun_eq_ok (total : Total domain less precedes) (items : List α)
    (inDomain : ∀ item ∈ items, domain item) :
    ∃ run rest, firstRun less items = .ok (run, rest) ∧ (run ++ rest).Perm items ∧ Ordered precedes run := by
  match items with
  | [] => exact ⟨[], [], rfl, by simp, List.Pairwise.nil⟩
  | [item] => exact ⟨[item], [], rfl, by simp, List.pairwise_singleton _ _⟩
  | first :: second :: rest =>
    have decided := total.decides second first (inDomain _ (by simp)) (inDomain _ (by simp))
    have members : ∀ item ∈ ([second, first] : List α) ++ rest, domain item := fun item member =>
      inDomain item (by simp only [List.mem_append, List.mem_cons] at member ⊢; grind)
    simp only [firstRun, decided, bind, Except.bind]
    cases descends : precedes second first with
    | true =>
      obtain ⟨run, remaining, result, same, ordered⟩ :=
        takeRun_eq_ok (fun last item => precedes item last) (fun later earlier => precedes earlier later = false)
          (fun last item held other => total.decides item last other held)
          (fun last item goes => total.asymm _ _ goes)
          (fun left middle right one two => total.trans _ _ _ one two) rest second [first] members
          (by simp [total.asymm _ _ descends])
      refine ⟨run, remaining, result, ?_, ordered⟩
      exact ((List.reverse_perm run).symm.append_right _).trans (by rw [same]; simp)
    | false =>
      obtain ⟨run, remaining, result, same, ordered⟩ :=
        takeRun_eq_ok (fun last item => !precedes item last) (fun later earlier => precedes later earlier = false)
          (fun last item held other => show (do return !(← less item last)) = _ by
            rw [total.decides item last other held]; rfl)
          (fun last item goes => by simpa using goes)
          (fun left middle right one two => total.trans _ _ _ two one) rest second [first] members
          (by simp [descends])
      refine ⟨run.reverse, remaining, ?_, by rw [same]; simp, List.pairwise_reverse.2 ordered⟩
      simp only [bind, Except.bind] at result
      simp only [result]
      rfl

theorem insertionPlace_eq_ok (total : Total domain less precedes) (item : α) (sorted : List α) (held : domain item)
    (inDomain : ∀ other ∈ sorted, domain other) (ordered : Ordered precedes sorted) (low high : Nat)
    (within : high ≤ sorted.length) (between : low ≤ high)
    (below : ∀ other ∈ sorted.take low, precedes item other = false)
    (above : ∀ other ∈ sorted.drop high, precedes other item = false) :
    ∃ place, insertionPlace less item sorted low high = .ok place ∧ place ≤ sorted.length ∧
      (∀ other ∈ sorted.take place, precedes item other = false) ∧
      (∀ other ∈ sorted.drop place, precedes other item = false) := by
  rw [insertionPlace]
  split
  case isFalse notBelow =>
    obtain rfl : low = high := by omega
    exact ⟨low, rfl, within, below, above⟩
  case isTrue smaller =>
    have inside : (low + high) / 2 < sorted.length := by omega
    have member : sorted[(low + high) / 2] ∈ sorted := List.getElem_mem inside
    have halves := List.pairwise_iff_getElem.1 ordered
    simp only [List.getElem?_eq_getElem inside, total.decides _ _ held (inDomain _ member), bind, Except.bind]
    split
    case isTrue goes =>
      refine insertionPlace_eq_ok total item sorted held inDomain ordered low _ (by omega) (by omega) below ?_
      intro other found
      obtain ⟨index, bound, rfl⟩ := List.mem_iff_getElem.1 found
      rw [List.getElem_drop]
      rw [List.length_drop] at bound
      cases index with
      | zero => exact total.asymm _ _ goes
      | succ index =>
        exact total.trans _ _ _ (total.asymm _ _ goes) (halves _ _ inside (by omega) (by omega))
    case isFalse stays =>
      have stays : precedes item sorted[(low + high) / 2] = false := by simpa using stays
      refine insertionPlace_eq_ok total item sorted held inDomain ordered _ high within (by omega) ?_ above
      intro other found
      obtain ⟨index, bound, rfl⟩ := List.mem_iff_getElem.1 found
      rw [List.getElem_take]
      rw [List.length_take] at bound
      by_cases last : index = (low + high) / 2
      · subst last; exact stays
      · exact total.trans _ _ _ (halves _ _ (by omega) inside (by omega)) stays
termination_by high - low

theorem insertSorted_eq_ok (total : Total domain less precedes) (item : α) (sorted : List α) (held : domain item)
    (inDomain : ∀ other ∈ sorted, domain other) (ordered : Ordered precedes sorted) :
    ∃ inserted, insertSorted less sorted item = .ok inserted ∧ inserted.Perm (item :: sorted) ∧
      Ordered precedes inserted := by
  obtain ⟨place, found, within, below, above⟩ := insertionPlace_eq_ok total item sorted held inDomain ordered 0
    sorted.length (Nat.le_refl _) (Nat.zero_le _) (by simp) (by simp)
  refine ⟨sorted.take place ++ item :: sorted.drop place, by simp only [insertSorted, found]; rfl, ?_, ?_⟩
  · exact List.perm_middle.trans (by rw [List.take_append_drop])
  · have halves := ordered
    rw [← List.take_append_drop place sorted] at halves
    obtain ⟨left, right, across⟩ := List.pairwise_append.1 halves
    refine List.pairwise_append.2 ⟨left, List.pairwise_cons.2 ⟨above, right⟩, fun earlier before later after => ?_⟩
    rcases List.mem_cons.1 after with rfl | after
    · exact below _ before
    · exact across _ before _ after

theorem foldlM_insertSorted_eq_ok (total : Total domain less precedes) (items : List α) (sorted : List α)
    (inDomain : ∀ item ∈ sorted ++ items, domain item) (ordered : Ordered precedes sorted) :
    ∃ result, items.foldlM (insertSorted less) sorted = .ok result ∧ result.Perm (sorted ++ items) ∧
      Ordered precedes result := by
  induction items generalizing sorted with
  | nil => exact ⟨sorted, rfl, by simp, ordered⟩
  | cons item items ih =>
    obtain ⟨inserted, found, permuted, ordered⟩ := insertSorted_eq_ok total item sorted (inDomain _ (by simp))
      (fun other member => inDomain _ (List.mem_append_left _ member)) ordered
    have permuted : (inserted ++ items).Perm (sorted ++ item :: items) :=
      (permuted.append_right items).trans List.perm_middle.symm
    obtain ⟨result, folded, same, ordered⟩ := ih inserted (fun other member => inDomain _ (permuted.mem_iff.1 member))
      ordered
    exact ⟨result, by simp only [List.foldlM_cons, found]; exact folded, same.trans permuted, ordered⟩

/-- Where the comparison is a total order of the items, sorting gives the items themselves in that order. -/
theorem sort_eq_ok (total : Total domain less precedes) (items : List α) (inDomain : ∀ item ∈ items, domain item) :
    ∃ sorted, sort less items = .ok sorted ∧ sorted.Perm items ∧ Ordered precedes sorted := by
  obtain ⟨run, rest, found, permuted, ordered⟩ := firstRun_eq_ok total items inDomain
  obtain ⟨sorted, folded, same, ordered⟩ := foldlM_insertSorted_eq_ok total rest run
    (fun item member => inDomain _ (permuted.mem_iff.1 member)) ordered
  exact ⟨sorted, by simp only [sort, found]; exact folded, same.trans permuted, ordered⟩

end Total

end Value

end EnergyTables
