import LogMonitor.Library.Table
import Mathlib.Algebra.BigOperators.Group.List.Basic
import Mathlib.Algebra.Order.BigOperators.Group.List
import Mathlib.Data.Finset.Card
import Mathlib.Data.List.Induction
import Mathlib.Data.List.Sort

/-!
Scoring by hits. Each hit falls on a key and has a weight; the weights are added
up key by key, one hit is remembered for each key, and the keys with the largest
sums are taken.
-/

namespace LogMonitor.Library.Scoring

universe u v w x

variable {α : Type u} {ι : Type v} {K : Type w} [DecidableEq ι]

def hitsOn (key : α → ι) (i : ι) (hits : List α) : List α := hits.filter fun hit => key hit = i

@[simp] theorem mem_hitsOn {key : α → ι} {i : ι} {hits : List α} {hit : α} :
    hit ∈ hitsOn key i hits ↔ hit ∈ hits ∧ key hit = i := by
  simp [hitsOn]

theorem hitsOn_concat (key : α → ι) (i : ι) (hits : List α) (hit : α) :
    hitsOn key i (hits ++ [hit]) = hitsOn key i hits ++ if key hit = i then [hit] else [] := by
  unfold hitsOn
  rw [List.filter_append, List.filter_singleton]
  by_cases same : key hit = i <;> simp [same]

section Totals
variable [AddMonoid K] (key : α → ι) (weight : α → K)

/-- `totals[key] += weight`. -/
def accumulate (totals : Table ι K) (hit : α) : Table ι K :=
  totals.insert (key hit) ((totals.lookup (key hit)).getD 0 + weight hit)

def total (hits : List α) (i : ι) : K := ((hitsOn key i hits).map weight).sum

theorem total_append (first second : List α) (i : ι) :
    total key weight (first ++ second) i =
      total key weight first i + total key weight second i := by
  unfold total hitsOn
  rw [List.filter_append, List.map_append, List.sum_append]

theorem lookup_accumulated (hits : List α) (i : ι) :
    (hits.foldl (accumulate key weight) ∅).lookup i =
      if hitsOn key i hits = [] then none else some (total key weight hits i) := by
  induction hits using List.reverseRecOn with
  | nil => rfl
  | append_singleton hits hit ih =>
    have before : ((hits.foldl (accumulate key weight) ∅).lookup i).getD 0 =
        total key weight hits i := by
      rw [ih]
      split
      next empty => rw [total, empty]; rfl
      next => rfl
    rw [List.foldl_concat, accumulate, hitsOn_concat]
    by_cases here : key hit = i
    · rw [here, AList.lookup_insert, before, if_pos rfl, if_neg (by simp), total, total,
        hitsOn_concat, if_pos here, List.map_append, List.sum_append, List.map_singleton,
        List.sum_singleton]
    · rw [AList.lookup_insert_ne (Ne.symm here), ih, if_neg here, List.append_nil, total, total,
        hitsOn_concat, if_neg here, List.append_nil]

theorem mem_accumulated (hits : List α) (i : ι) :
    i ∈ hits.foldl (accumulate key weight) ∅ ↔ i ∈ hits.map key := by
  rw [← AList.lookup_isSome, lookup_accumulated]
  by_cases none : hitsOn key i hits = []
  · rw [if_pos none]
    refine iff_of_false (by simp) fun listed => ?_
    obtain ⟨hit, inside, rfl⟩ := List.mem_map.mp listed
    exact List.ne_nil_of_mem (mem_hitsOn.mpr ⟨inside, rfl⟩) none
  · rw [if_neg none]
    obtain ⟨hit, inside⟩ := List.exists_mem_of_ne_nil _ none
    obtain ⟨listed, rfl⟩ := mem_hitsOn.mp inside
    exact iff_of_true rfl (List.mem_map_of_mem listed)

def totals (hits : List α) : List (ι × K) :=
  (hits.foldl (accumulate key weight) ∅).entries.map fun entry => (entry.1, entry.2)

theorem mem_totals {hits : List α} {i : ι} {x : K} :
    (i, x) ∈ totals key weight hits ↔ hitsOn key i hits ≠ [] ∧ x = total key weight hits i := by
  have listed : (i, x) ∈ totals key weight hits ↔
      x ∈ (hits.foldl (accumulate key weight) ∅).lookup i := by
    rw [AList.mem_lookup_iff, totals, List.mem_map]
    constructor
    · rintro ⟨entry, inside, same⟩
      obtain ⟨rfl, rfl⟩ := Prod.mk.inj same
      exact inside
    · exact fun inside => ⟨_, inside, rfl⟩
  rw [listed, lookup_accumulated]
  by_cases none : hitsOn key i hits = []
  · simp [none]
  · simp [none, eq_comm]

theorem keys_totals (hits : List α) :
    (totals key weight hits).map Prod.fst = (hits.foldl (accumulate key weight) ∅).keys := by
  rw [totals, List.map_map]
  rfl

theorem nodup_totals (hits : List α) : ((totals key weight hits).map Prod.fst).Nodup := by
  rw [keys_totals]
  exact AList.keys_nodup _

theorem length_totals (hits : List α) :
    (totals key weight hits).length = (hits.map key).toFinset.card := by
  have same : ((totals key weight hits).map Prod.fst).toFinset = (hits.map key).toFinset := by
    ext i
    rw [keys_totals, List.mem_toFinset, List.mem_toFinset, ← mem_accumulated key weight]
    rfl
  rw [← same, List.toFinset_card_of_nodup (nodup_totals key weight hits), List.length_map]

end Totals

theorem sum_map_eq_iff {β : Type x} [AddCommMonoid K] [PartialOrder K] [IsOrderedCancelAddMonoid K]
    {f g : β → K} {list : List β} (below : ∀ b ∈ list, f b ≤ g b) :
    (list.map f).sum = (list.map g).sum ↔ ∀ b ∈ list, f b = g b := by
  induction list with
  | nil => simp
  | cons b rest ih =>
    have first := below b (List.mem_cons_self ..)
    have others : ∀ c ∈ rest, f c ≤ g c := fun c listed => below c (List.mem_cons_of_mem b listed)
    have sums : (rest.map f).sum ≤ (rest.map g).sum := List.sum_le_sum others
    rw [List.map_cons, List.map_cons, List.sum_cons, List.sum_cons, List.forall_mem_cons,
      ← ih others]
    exact add_eq_add_iff_eq_and_eq first sums

section Remembered
variable {β : Type x} [Zero K] [LT K] [DecidableLT K] (value : α → β) (weight : α → K)

def prefer (best : Option β) (hit : α) : Option β :=
  if best.isNone ∨ 0 < weight hit then some (value hit) else best

/-- The last hit that has a weight, or the first of all. -/
def remembered (hits : List α) : Option α :=
  ((hits.filter fun hit => 0 < weight hit).getLast?).or hits.head?

theorem remembered_isSome {hits : List α} : (remembered weight hits).isSome ↔ hits ≠ [] := by
  unfold remembered
  cases hits with
  | nil => simp
  | cons first rest => simp

theorem remembered_mem {hits : List α} {hit : α} (best : remembered weight hits = some hit) :
    hit ∈ hits := by
  rcases Option.or_eq_some_iff.mp best with last | ⟨-, first⟩
  · exact (List.mem_filter.mp (List.mem_of_getLast? last)).1
  · exact List.mem_of_head? first

theorem remembered_last {before after : List α} {hit : α} (positive : 0 < weight hit)
    (later : ∀ other ∈ after, ¬0 < weight other) :
    remembered weight (before ++ hit :: after) = some hit := by
  have none : (after.filter fun other => 0 < weight other) = [] := by simpa using later
  simp [remembered, List.filter_append, positive, none]

theorem foldl_prefer (hits : List α) :
    hits.foldl (prefer value weight) none = (remembered weight hits).map value := by
  induction hits using List.reverseRecOn with
  | nil => rfl
  | append_singleton hits hit ih =>
    rw [List.foldl_concat, ih]
    by_cases positive : 0 < weight hit
    · simp [prefer, remembered, positive]
    · cases hits with
      | nil => simp [prefer, remembered, positive]
      | cons first rest => simp [prefer, remembered, positive]

/-- What each key remembers is what a loop over its own hits does. -/
theorem foldl_update (key : α → ι) (step : Option β → α → Option β) (hits : List α)
    (s : ι → Option β) (i : ι) :
    (hits.foldl (fun s hit => Function.update s (key hit) (step (s (key hit)) hit)) s) i =
      (hitsOn key i hits).foldl step (s i) := by
  induction hits using List.reverseRecOn with
  | nil => rfl
  | append_singleton hits hit ih =>
    rw [List.foldl_concat, hitsOn_concat, List.foldl_append]
    by_cases here : key hit = i
    · rw [here, Function.update_self, ih, if_pos rfl]
      rfl
    · rw [Function.update_of_ne (Ne.symm here), ih, if_neg here]
      rfl

end Remembered

section Ranks
variable [LE K]

/-- A sort by descending scores; in which order it leaves equal ones is not said. -/
structure Ranking (ι : Type v) (K : Type w) [LE K] where
  sort : List (ι × K) → List (ι × K)
  perm : ∀ scores, (sort scores).Perm scores
  ordered : ∀ scores, (sort scores).Pairwise fun first second => second.2 ≤ first.2

variable (ranking : Ranking ι K) {scores : List (ι × K)}

omit [DecidableEq ι] in
theorem Ranking.mem_of_take {count : Nat} {taken : ι × K}
    (first : taken ∈ (ranking.sort scores).take count) : taken ∈ scores :=
  (ranking.perm scores).mem_iff.mp (List.mem_of_mem_take first)

omit [DecidableEq ι] in
theorem Ranking.length_take (count : Nat) :
    ((ranking.sort scores).take count).length = min count scores.length := by
  rw [List.length_take, (ranking.perm scores).length_eq]

omit [DecidableEq ι] in
theorem Ranking.nodup_take (distinct : (scores.map Prod.fst).Nodup) (count : Nat) :
    (((ranking.sort scores).take count).map Prod.fst).Nodup := by
  rw [List.map_take]
  exact (((ranking.perm scores).map Prod.fst).nodup_iff.mpr distinct).sublist (List.take_sublist ..)

omit [DecidableEq ι] in
theorem Ranking.ordered_take (count : Nat) :
    ((ranking.sort scores).take count).Pairwise fun first second => second.2 ≤ first.2 :=
  (ranking.ordered scores).sublist (List.take_sublist ..)

omit [DecidableEq ι] in
/-- Nothing that is left out has a larger score than something that is taken. -/
theorem Ranking.take_best {count : Nat} {taken other : ι × K}
    (first : taken ∈ (ranking.sort scores).take count) (listed : other ∈ scores)
    (omitted : other ∉ (ranking.sort scores).take count) : other.2 ≤ taken.2 := by
  have inside : other ∈ ranking.sort scores := (ranking.perm scores).mem_iff.mpr listed
  have ordered := ranking.ordered scores
  rw [← List.take_append_drop count (ranking.sort scores)] at inside ordered
  have later := (List.mem_append.mp inside).resolve_left omitted
  exact (List.pairwise_append.mp ordered).2.2 taken first other later

end Ranks

def Ranking.merge (ι : Type v) (K : Type w) [LinearOrder K] : Ranking ι K where
  sort scores := scores.mergeSort fun first second => decide (second.2 ≤ first.2)
  perm scores := List.mergeSort_perm scores _
  ordered scores := by
    let below (first second : ι × K) : Bool := decide (second.2 ≤ first.2)
    have chain (a b c : ι × K) (one : below a b) (two : below b c) : below a c :=
      decide_eq_true (le_trans (of_decide_eq_true two) (of_decide_eq_true one))
    have total (a b : ι × K) : below a b || below b a := by
      simpa [below] using le_total b.2 a.2
    exact (List.pairwise_mergeSort chain total scores).imp of_decide_eq_true

end LogMonitor.Library.Scoring
