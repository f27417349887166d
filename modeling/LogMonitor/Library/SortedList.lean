import Mathlib.Data.List.Induction
import Mathlib.Data.List.Sort
import Mathlib.Order.Basic

/-!
Lists in the order of a key, as vectors that are searched by halving: where a
search ends, what an insertion at that place does, and what a cut by the key
leaves of it, and when insertions one after the other sort stably.
-/

namespace LogMonitor.Library.SortedList

universe u v

variable {α : Type u} {κ : Type v}

/-- The elements with the property are exactly those before `position`. -/
structure PartitionPoint (property : α → Bool) (list : List α) (position : Nat) : Prop where
  before : ∀ element ∈ list.take position, property element = true
  after : ∀ element ∈ list.drop position, property element = false

section PartitionPoint

variable {property : α → Bool} {list : List α} {position : Nat}

theorem PartitionPoint.take (point : PartitionPoint property list position) :
    list.take position = list.filter property := by
  have split : list.filter property =
      (list.take position).filter property ++ (list.drop position).filter property := by
    rw [← List.filter_append, List.take_append_drop]
  rw [split, List.filter_eq_self.mpr point.before,
    List.filter_eq_nil_iff.mpr fun element inside => by simp [point.after element inside],
    List.append_nil]

theorem PartitionPoint.drop (point : PartitionPoint property list position) :
    list.drop position = list.filter (fun element => !property element) := by
  have split : list.filter (fun element => !property element) =
      (list.take position).filter (fun element => !property element) ++
        (list.drop position).filter (fun element => !property element) := by
    rw [← List.filter_append, List.take_append_drop]
  rw [split, List.filter_eq_nil_iff.mpr fun element inside => by simp [point.before element inside],
    List.filter_eq_self.mpr fun element inside => by simp [point.after element inside],
    List.nil_append]

/-- A place is the partition point when its two sides are told apart by their indices. -/
theorem PartitionPoint.of_indices
    (before : ∀ (index : Nat) (inside : index < list.length), index < position →
      property list[index] = true)
    (after : ∀ (index : Nat) (inside : index < list.length), position ≤ index →
      property list[index] = false) : PartitionPoint property list position where
  before element inside := by
    obtain ⟨index, bound, rfl⟩ := List.getElem_of_mem inside
    rw [List.length_take] at bound
    rw [List.getElem_take]
    exact before index (by omega) (by omega)
  after element inside := by
    obtain ⟨index, bound, rfl⟩ := List.getElem_of_mem inside
    rw [List.length_drop] at bound
    rw [List.getElem_drop]
    exact after (position + index) (by omega) (by omega)

end PartitionPoint

variable [LinearOrder κ] (key : α → κ)

def Ordered (list : List α) : Prop := list.Pairwise fun first second => key first ≤ key second

/-- The new element goes to the end if nothing is beyond it, and otherwise in front of the
first element that is not below it. -/
def insertOrdered (element : α) (list : List α) : List α :=
  if ∀ other ∈ list, key other ≤ key element then list ++ [element]
  else
    list.filter (key · < key element) ++
      element :: list.filter (fun other => !decide (key other < key element))

variable {key} {list : List α}

theorem Ordered.getElem_le (ordered : Ordered key list) {first second : Nat}
    (inside : first < list.length) (bound : second < list.length) (before : first ≤ second) :
    key list[first] ≤ key list[second] := by
  rcases Nat.lt_or_eq_of_le before with less | rfl
  · exact List.pairwise_iff_getElem.mp ordered first second _ bound less
  · exact le_rfl

theorem Ordered.le_getLast (ordered : Ordered key list) {last : α} (ends : list.getLast? = some last)
    {element : α} (inside : element ∈ list) : key element ≤ key last := by
  obtain ⟨init, rfl⟩ := List.getLast?_eq_some_iff.mp ends
  rcases List.mem_append.mp inside with earlier | same
  · exact (List.pairwise_append.mp ordered).2.2 element earlier last (List.mem_singleton_self last)
  · rw [List.mem_singleton.mp same]

theorem Ordered.filter (ordered : Ordered key list) (property : α → Bool) :
    Ordered key (list.filter property) :=
  List.Pairwise.filter property ordered

theorem perm_insertOrdered (element : α) (list : List α) :
    (insertOrdered key element list).Perm (element :: list) := by
  unfold insertOrdered
  split
  next => exact List.perm_append_singleton element list
  next =>
    apply List.perm_middle.trans
    exact (List.filter_append_perm _ list).cons element

theorem Ordered.insertOrdered (ordered : Ordered key list) (element : α) :
    Ordered key (insertOrdered key element list) := by
  unfold SortedList.insertOrdered
  split
  next last =>
    refine List.pairwise_append.mpr ⟨ordered, List.pairwise_singleton .., fun other inside new same => ?_⟩
    rw [List.mem_singleton.mp same]
    exact last other inside
  next =>
    have below : ∀ other ∈ list.filter (key · < key element), key other < key element :=
      fun other inside => by simpa using List.of_mem_filter inside
    have above : ∀ other ∈ list.filter (fun other => !decide (key other < key element)), key element ≤ key other :=
      fun other inside => not_lt.mp (by simpa using List.of_mem_filter inside)
    refine List.pairwise_append.mpr ⟨ordered.filter _, List.pairwise_cons.mpr
      ⟨above, ordered.filter _⟩, fun first earlier second later => ?_⟩
    rcases List.mem_cons.mp later with rfl | behind
    · exact (below first earlier).le
    · exact (below first earlier).le.trans (above second behind)

theorem filter_insertOrdered (element : α) (list : List α) (cutoff : κ) :
    (insertOrdered key element list).filter (cutoff ≤ key ·) =
      if cutoff ≤ key element then insertOrdered key element (list.filter (cutoff ≤ key ·))
      else list.filter (cutoff ≤ key ·) := by
  split
  next recent =>
    have same : (∀ other ∈ list, key other ≤ key element) ↔
        ∀ other ∈ list.filter (cutoff ≤ key ·), key other ≤ key element := by
      constructor
      · exact fun all other inside => all other (List.mem_of_mem_filter inside)
      · intro visible other inside
        by_cases kept : cutoff ≤ key other
        · exact visible other (List.mem_filter.mpr ⟨inside, by simpa using kept⟩)
        · exact (not_le.mp kept).le.trans recent
    unfold insertOrdered
    by_cases last : ∀ other ∈ list, key other ≤ key element
    · rw [if_pos last, if_pos (same.mp last), List.filter_append,
        List.filter_cons_of_pos (by simpa using recent), List.filter_nil]
    · rw [if_neg last, if_neg (mt same.mpr last), List.filter_append,
        List.filter_cons_of_pos (by simpa using recent)]
      simp only [List.filter_filter, Bool.and_comm]
  next old =>
    unfold insertOrdered
    split
    next =>
      rw [List.filter_append, List.filter_cons_of_neg (by simpa using old), List.filter_nil,
        List.append_nil]
    next =>
      have hidden : (list.filter (key · < key element)).filter (cutoff ≤ key ·) = [] := by
        apply List.filter_eq_nil_iff.mpr
        intro other inside
        have below : key other < key element := by simpa using List.of_mem_filter inside
        simpa using below.trans (not_le.mp old)
      rw [List.filter_append, hidden, List.nil_append, List.filter_cons_of_neg (by simpa using old),
        List.filter_filter]
      apply List.filter_congr
      intro other _
      by_cases kept : cutoff ≤ key other
      · have above : ¬ key other < key element := not_lt.mpr ((not_le.mp old).le.trans kept)
        simp [kept, above]
      · simp [kept]

section Stable

variable (key) in
/-- The list put in order, where equal keys keep the order they had. -/
structure StableSort (sorted list : List α) : Prop where
  ordered : Ordered key sorted
  ties : ∀ k, sorted.filter (key · = k) = list.filter (key · = k)

theorem StableSort.mem_iff {sorted : List α} (stable : StableSort key sorted list) (element : α) :
    element ∈ sorted ↔ element ∈ list := by
  have same : element ∈ sorted.filter (key · = key element) ↔
      element ∈ list.filter (key · = key element) := by rw [stable.ties]
  simpa using same

theorem StableSort.unique {first second : List α} (left : StableSort key first list)
    (right : StableSort key second list) : first = second := by
  have ordered := left.ordered
  have other := right.ordered
  have ties : ∀ k, first.filter (key · = k) = second.filter (key · = k) := fun k =>
    (left.ties k).trans (right.ties k).symm
  clear left right
  induction first generalizing second with
  | nil =>
    cases second with
    | nil => rfl
    | cons y second => simpa using ties (key y)
  | cons x first ih =>
    cases second with
    | nil => simpa using ties (key x)
    | cons y second =>
      obtain ⟨least, tail⟩ := List.pairwise_cons.mp ordered
      obtain ⟨lowest, rest⟩ := List.pairwise_cons.mp other
      have same : key x = key y := by
        apply le_antisymm
        · have inside : y ∈ (x :: first).filter (key · = key y) := by rw [ties]; simp
          rcases List.mem_cons.mp (List.mem_of_mem_filter inside) with rfl | later
          · exact le_rfl
          · exact least y later
        · have inside : x ∈ (y :: second).filter (key · = key x) := by rw [← ties]; simp
          rcases List.mem_cons.mp (List.mem_of_mem_filter inside) with rfl | later
          · exact le_rfl
          · exact lowest x later
      have front := ties (key x)
      rw [List.filter_cons_of_pos (by simp), List.filter_cons_of_pos (by simp [same])] at front
      obtain ⟨rfl, -⟩ := List.cons.inj front
      congr 1
      apply ih tail rest
      intro k
      have both := ties k
      by_cases here : key x = k
      · rw [List.filter_cons_of_pos (by simpa using here),
          List.filter_cons_of_pos (by simpa using here)] at both
        exact (List.cons.inj both).2
      · rwa [List.filter_cons_of_neg (by simpa using here),
          List.filter_cons_of_neg (by simpa using here)] at both

theorem stableSort_mergeSort (list : List α) :
    StableSort key (list.mergeSort (key · ≤ key ·)) list := by
  have trans : ∀ a b c : α, decide (key a ≤ key b) = true → decide (key b ≤ key c) = true →
      decide (key a ≤ key c) = true := by
    intro a b c first second
    rw [decide_eq_true_eq] at first second ⊢
    exact first.trans second
  have total : ∀ a b : α, (decide (key a ≤ key b) || decide (key b ≤ key a)) = true := by
    intro a b
    simpa using le_total (key a) (key b)
  refine ⟨?_, fun k => ?_⟩
  · have sorted := List.pairwise_mergeSort trans total list
    exact sorted.imp fun le => of_decide_eq_true le
  · -- the elements with this key are in order as they stand, so the sort leaves them so
    have level : (list.filter (key · = k)).Pairwise fun a b => decide (key a ≤ key b) = true := by
      apply List.pairwise_of_forall_mem_list
      intro a left b right
      have one : key a = k := by simpa using List.of_mem_filter left
      have two : key b = k := by simpa using List.of_mem_filter right
      simp [one, two]
    have kept := (List.sublist_mergeSort trans total level List.filter_sublist).filter (key · = k)
    rw [List.filter_filter] at kept
    simp only [Bool.and_self] at kept
    have size := ((List.mergeSort_perm list (key · ≤ key ·)).filter (key · = k)).length_eq
    exact (kept.eq_of_length size.symm).symm

theorem stableSort_iff {sorted : List α} :
    StableSort key sorted list ↔ sorted = list.mergeSort (key · ≤ key ·) :=
  ⟨fun stable => stable.unique (stableSort_mergeSort list),
    fun same => same ▸ stableSort_mergeSort list⟩

/-- The new element goes behind those with its key if it goes to the end, and otherwise in front
of them. -/
theorem ties_insertOrdered (element : α) (list : List α) (k : κ) :
    (insertOrdered key element list).filter (key · = k) =
      if key element = k then
        if ∀ other ∈ list, key other ≤ key element then list.filter (key · = k) ++ [element]
        else element :: list.filter (key · = k)
      else list.filter (key · = k) := by
  unfold insertOrdered
  by_cases last : ∀ other ∈ list, key other ≤ key element
  · rw [if_pos last, if_pos last, List.filter_append]
    by_cases same : key element = k
    · rw [if_pos same, List.filter_cons_of_pos (by simpa using same), List.filter_nil]
    · rw [if_neg same, List.filter_cons_of_neg (by simpa using same), List.filter_nil,
        List.append_nil]
  · rw [if_neg last, if_neg last, List.filter_append]
    by_cases same : key element = k
    · have below : (list.filter (key · < key element)).filter (key · = k) = [] := by
        apply List.filter_eq_nil_iff.mpr
        intro other inside
        have less : key other < key element := by simpa using List.of_mem_filter inside
        simpa using (same ▸ less).ne
      have above : (list.filter (fun other => !decide (key other < key element))).filter
          (key · = k) = list.filter (key · = k) := by
        rw [List.filter_filter]
        apply List.filter_congr
        intro other _
        by_cases tied : key other = k
        · simp [tied, same]
        · simp [tied]
      rw [if_pos same, below, List.nil_append, List.filter_cons_of_pos (by simpa using same), above]
    · -- the elements with another key are all on one side
      rw [if_neg same, List.filter_cons_of_neg (by simpa using same), List.filter_filter,
        List.filter_filter]
      by_cases less : k < key element
      · have left : list.filter (fun other => decide (key other = k) &&
            decide (key other < key element)) = list.filter (key · = k) := by
          apply List.filter_congr
          intro other _
          by_cases tied : key other = k
          · simp [tied, less]
          · simp [tied]
        have right : list.filter (fun other => decide (key other = k) &&
            !decide (key other < key element)) = [] := by
          apply List.filter_eq_nil_iff.mpr
          intro other _
          by_cases tied : key other = k
          · simp [tied, less]
          · simp [tied]
        rw [left, right, List.append_nil]
      · have left : list.filter (fun other => decide (key other = k) &&
            decide (key other < key element)) = [] := by
          apply List.filter_eq_nil_iff.mpr
          intro other _
          by_cases tied : key other = k
          · simp [tied, less]
          · simp [tied]
        have right : list.filter (fun other => decide (key other = k) &&
            !decide (key other < key element)) = list.filter (key · = k) := by
          apply List.filter_congr
          intro other _
          by_cases tied : key other = k
          · simp [tied, less]
          · simp [tied]
        rw [left, right, List.nil_append]

theorem cons_eq_concat_iff (element : α) (list : List α) :
    element :: list = list ++ [element] ↔ ∀ other ∈ list, other = element := by
  induction list with
  | nil => simp
  | cons first list ih =>
    rw [List.cons_append, List.cons.injEq, List.forall_mem_cons, ← ih, eq_comm]
    refine and_congr_right fun same => ?_
    rw [same]

/-- An insertion keeps the stable order if the element goes to the end or meets no other with its
key. -/
theorem StableSort.insertOrdered_iff {sorted : List α} (stable : StableSort key sorted list)
    (element : α) :
    StableSort key (insertOrdered key element sorted) (list ++ [element]) ↔
      ((∃ other ∈ list, key element < key other) →
        ∀ other ∈ list, key other = key element → other = element) := by
  have late : (∀ other ∈ sorted, key other ≤ key element) ↔
      ¬∃ other ∈ list, key element < key other := by
    simp only [stable.mem_iff, not_exists, not_and, not_lt]
  have group : (∀ other ∈ list.filter (key · = key element), other = element) ↔
      ∀ other ∈ list, key other = key element → other = element := by
    simp only [List.mem_filter, decide_eq_true_eq, and_imp]
  have tied (k : κ) : (list ++ [element]).filter (key · = k) =
      if key element = k then list.filter (key · = k) ++ [element]
      else list.filter (key · = k) := by
    rw [List.filter_append]
    by_cases same : key element = k
    · rw [if_pos same, List.filter_cons_of_pos (by simpa using same), List.filter_nil]
    · rw [if_neg same, List.filter_cons_of_neg (by simpa using same), List.filter_nil,
        List.append_nil]
  constructor
  · rintro ⟨-, ties⟩ behind
    have here := ties (key element)
    rw [ties_insertOrdered, tied, if_pos rfl, if_pos rfl, if_neg (mt late.mp (not_not.mpr behind)),
      stable.ties, cons_eq_concat_iff] at here
    exact group.mp here
  · intro alone
    refine ⟨stable.ordered.insertOrdered element, fun k => ?_⟩
    rw [ties_insertOrdered, tied, stable.ties]
    by_cases same : key element = k
    · rw [if_pos same, if_pos same]
      split
      next => rfl
      next early =>
        rw [cons_eq_concat_iff, ← same]
        exact group.mpr (alone (not_not.mp (mt late.mpr early)))
    · rw [if_neg same, if_neg same]

variable (key) in
def insertAll (list : List α) : List α :=
  list.foldl (fun sorted element => insertOrdered key element sorted) []

variable (key) in
/-- An element that comes after one with a greater key finds none but itself with its own. -/
def TiesAtEnd (list : List α) : Prop :=
  ∀ earlier element, earlier ++ [element] <+: list → (∃ other ∈ earlier, key element < key other) →
    ∀ other ∈ earlier, key other = key element → other = element

theorem insertAll_concat (list : List α) (element : α) :
    insertAll key (list ++ [element]) = SortedList.insertOrdered key element (insertAll key list) :=
  List.foldl_concat ..

theorem ordered_insertAll (list : List α) : Ordered key (insertAll key list) := by
  induction list using List.reverseRecOn with
  | nil => exact List.Pairwise.nil
  | append_singleton list element ih =>
    rw [insertAll_concat]
    exact ih.insertOrdered element

/-- The insertions sort stably all the way if and only if ties come at the end only. -/
theorem stableSort_insertAll_iff (list : List α) :
    (∀ earlier, earlier <+: list → StableSort key (insertAll key earlier) earlier) ↔
      TiesAtEnd key list := by
  induction list using List.reverseRecOn with
  | nil =>
    constructor
    · intro _ earlier element before
      simp at before
    · intro _ earlier before
      rw [List.prefix_nil.mp before]
      exact ⟨List.Pairwise.nil, fun _ => rfl⟩
  | append_singleton list element ih =>
    constructor
    · intro stable earlier other before
      rcases List.prefix_concat_iff.mp before with whole | before
      · obtain ⟨rfl, single⟩ := List.append_inj' whole rfl
        obtain rfl := List.singleton_inj.mp single
        have last := stable (earlier ++ [other]) List.prefix_rfl
        rw [insertAll_concat] at last
        exact ((stable earlier (List.prefix_append ..)).insertOrdered_iff other).mp last
      · refine ih.mp (fun earlier before => ?_) earlier other before
        exact stable earlier (before.trans (List.prefix_append ..))
    · intro ties
      have fewer := ih.mpr fun earlier other before =>
        ties earlier other (before.trans (List.prefix_append ..))
      intro earlier before
      rcases List.prefix_concat_iff.mp before with rfl | before
      · rw [insertAll_concat]
        exact ((fewer list List.prefix_rfl).insertOrdered_iff element).mpr
          (ties list element List.prefix_rfl)
      · exact fewer earlier before

end Stable

end LogMonitor.Library.SortedList
