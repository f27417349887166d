import Mathlib.Algebra.Order.Field.Basic
import Mathlib.Data.List.Induction
import Mathlib.Tactic.Linarith
import Mathlib.Tactic.Ring

/-!
The token bucket, over an ordered field. A bucket fills at a constant rate up to
its cap, and a request is accepted if it finds a token, which it takes. The
requests that a bucket accepts are those that keep every interval within the cap
and what flows in meanwhile.
-/

namespace LogMonitor.Library.Metering

universe u

structure Bucket (K : Type u) where
  level : K
  /-- The time of the last request, if there was one. -/
  last : Option K

variable {K : Type u} [Field K] [LinearOrder K]

section
variable (cap rate : K)

def refilled (bucket : Bucket K) (now : K) : K :=
  match bucket.last with
  | none => bucket.level
  | some earlier => min cap (bucket.level + (now - earlier) * rate)

def ask (bucket : Bucket K) (now : K) : Bool × Bucket K :=
  let level := refilled cap rate bucket now
  if level < 1 then (false, ⟨level, some now⟩) else (true, ⟨level - 1, some now⟩)

/-- The outcomes of a sequence of requests to a full bucket, and the bucket after them. -/
def asks (times : List K) : List (K × Bool) × Bucket K :=
  times.foldl
    (fun reached now =>
      let asked := ask cap rate reached.2 now
      (reached.1 ++ [(now, asked.1)], asked.2))
    ([], ⟨cap, none⟩)

end

omit [Field K] in
def acceptedIn (first last : K) (outcomes : List (K × Bool)) : Nat :=
  outcomes.countP fun outcome => outcome.2 && first ≤ outcome.1 && outcome.1 ≤ last

section
omit [Field K]

theorem acceptedIn_snoc (first last now : K) (accepted : Bool) (outcomes : List (K × Bool)) :
    acceptedIn first last (outcomes ++ [(now, accepted)]) =
      acceptedIn first last outcomes +
        if accepted ∧ first ≤ now ∧ now ≤ last then 1 else 0 := by
  simp [acceptedIn, List.countP_append, List.countP_singleton, and_assoc]

theorem acceptedIn_later (first : K) {last now : K} {outcomes : List (K × Bool)}
    (seen : ∀ time ∈ outcomes.map Prod.fst, time ≤ last) (later : last ≤ now) :
    acceptedIn first now outcomes = acceptedIn first last outcomes := by
  refine List.countP_congr fun outcome member => ?_
  have early : outcome.1 ≤ last := seen _ (List.mem_map_of_mem member)
  simp [early, early.trans later]

theorem acceptedIn_before {first : K} (last : K) {outcomes : List (K × Bool)}
    (seen : ∀ time ∈ outcomes.map Prod.fst, time < first) :
    acceptedIn first last outcomes = 0 := by
  refine List.countP_eq_zero.mpr fun outcome member => ?_
  have early : outcome.1 < first := seen _ (List.mem_map_of_mem member)
  simp [not_le.mpr early]

theorem le_of_snoc {times : List K} {last : K} (sorted : (times ++ [last]).Pairwise (· ≤ ·)) :
    ∀ time ∈ times ++ [last], time ≤ last := by
  intro time member
  rcases List.mem_append.mp member with old | new
  · exact (List.pairwise_append.mp sorted).2.2 time old last (by simp)
  · exact (List.mem_singleton.mp new).le

end

variable {cap rate : K}

theorem asks_snoc (times : List K) (now : K) :
    asks cap rate (times ++ [now]) =
      ((asks cap rate times).1 ++ [(now, (ask cap rate (asks cap rate times).2 now).1)],
        (ask cap rate (asks cap rate times).2 now).2) := by
  simp only [asks, List.foldl_append, List.foldl_cons, List.foldl_nil]

theorem asks_times (times : List K) : (asks cap rate times).1.map Prod.fst = times := by
  induction times using List.reverseRecOn with
  | nil => rfl
  | append_singleton times now ih => simp [asks_snoc, ih]

variable (cap rate) in
theorem ask_fst (bucket : Bucket K) (now : K) :
    (ask cap rate bucket now).1 = true ↔ 1 ≤ refilled cap rate bucket now := by
  unfold ask
  by_cases empty : refilled cap rate bucket now < 1
  · simp [empty]
  · simp [empty, not_lt.mp empty]

theorem ask_last (bucket : Bucket K) (now : K) :
    (ask cap rate bucket now).2.last = some now := by
  unfold ask
  by_cases empty : refilled cap rate bucket now < 1
  · simp [empty]
  · simp [empty]

theorem ask_level (bucket : Bucket K) (now : K) :
    (ask cap rate bucket now).2.level =
      refilled cap rate bucket now - if (ask cap rate bucket now).1 then 1 else 0 := by
  unfold ask
  by_cases empty : refilled cap rate bucket now < 1
  · simp [empty]
  · simp [empty]

theorem refilled_snoc (times : List K) (earlier now : K) :
    refilled cap rate (asks cap rate (times ++ [earlier])).2 now =
      min cap ((asks cap rate (times ++ [earlier])).2.level + (now - earlier) * rate) := by
  have seen : (asks cap rate (times ++ [earlier])).2.last = some earlier := by
    rw [asks_snoc, ask_last]
  rw [refilled, seen]

theorem refilled_le {bucket : Bucket K} (bound : bucket.level ≤ cap) (now : K) :
    refilled cap rate bucket now ≤ cap := by
  unfold refilled
  split
  next => exact bound
  next => exact min_le_left _ _

variable [IsStrictOrderedRing K]

theorem ask_nonneg {bucket : Bucket K} {now : K} (enough : 0 ≤ refilled cap rate bucket now) :
    0 ≤ (ask cap rate bucket now).2.level := by
  have found := ask_fst cap rate bucket now
  rw [ask_level]
  split
  next accepted => exact sub_nonneg.mpr (found.mp accepted)
  next => simpa using enough

theorem level_le (times : List K) : (asks cap rate times).2.level ≤ cap := by
  induction times using List.reverseRecOn with
  | nil => exact le_refl cap
  | append_singleton times now ih =>
    have capped : refilled cap rate (asks cap rate times).2 now ≤ cap := refilled_le ih now
    rw [asks_snoc, ask_level]
    split <;> linarith

variable (cap rate) in
omit [IsStrictOrderedRing K] in
theorem balance {first earlier now : K} {times : List K}
    (sorted : (times ++ [earlier]).Pairwise (· ≤ ·)) (covered : first ≤ earlier)
    (elapsed : earlier ≤ now) :
    acceptedIn first now (asks cap rate (times ++ [earlier])).1 +
        (asks cap rate (times ++ [earlier])).2.level =
      acceptedIn first earlier (asks cap rate times).1 +
        refilled cap rate (asks cap rate times).2 earlier := by
  rw [acceptedIn_later first (by rw [asks_times]; exact le_of_snoc sorted) elapsed, asks_snoc,
    acceptedIn_snoc, ask_level]
  by_cases accepted : (ask cap rate (asks cap rate times).2 earlier).1 = true
  · simp only [accepted, covered, le_refl, and_self, if_true]
    push_cast
    ring
  · simp only [accepted, Bool.false_eq_true, false_and, if_false, Nat.add_zero, sub_zero]

section Ordered
variable (full : 0 ≤ cap) (fills : 0 ≤ rate)
include full fills

theorem refilled_nonneg {times : List K} {now : K} (sorted : (times ++ [now]).Pairwise (· ≤ ·)) :
    0 ≤ refilled cap rate (asks cap rate times).2 now := by
  induction times using List.reverseRecOn generalizing now with
  | nil => exact full
  | append_singleton times earlier ih =>
    obtain ⟨sorted, -, latest⟩ := List.pairwise_append.mp sorted
    have elapsed : 0 ≤ now - earlier := sub_nonneg.mpr (latest earlier (by simp) now (by simp))
    have left : 0 ≤ (ask cap rate (asks cap rate times).2 earlier).2.level :=
      ask_nonneg (ih sorted)
    rw [refilled_snoc, asks_snoc]
    exact le_min full (add_nonneg left (mul_nonneg elapsed fills))

variable (cap) in
omit full in
/-- What an interval up to now took, with what is left for now, never exceeds the cap and the
inflow. -/
theorem conserved {first now : K} {times : List K} (sorted : (times ++ [now]).Pairwise (· ≤ ·))
    (begun : first ≤ now) :
    acceptedIn first now (asks cap rate times).1 + refilled cap rate (asks cap rate times).2 now ≤
      cap + (now - first) * rate := by
  induction times using List.reverseRecOn generalizing now with
  | nil =>
    have inflow : 0 ≤ (now - first) * rate := mul_nonneg (sub_nonneg.mpr begun) fills
    calc (acceptedIn first now [] : K) + cap = cap := by simp [acceptedIn]
      _ ≤ cap + (now - first) * rate := le_add_of_nonneg_right inflow
  | append_singleton times earlier ih =>
    obtain ⟨sorted, -, latest⟩ := List.pairwise_append.mp sorted
    have elapsed : earlier ≤ now := latest earlier (by simp) now (by simp)
    by_cases covered : first ≤ earlier
    · have before := ih sorted covered
      have moved := balance cap rate sorted covered elapsed
      have inflow : refilled cap rate (asks cap rate (times ++ [earlier])).2 now ≤
          (asks cap rate (times ++ [earlier])).2.level + (now - earlier) * rate := by
        rw [refilled_snoc]
        exact min_le_right _ _
      linarith
    · -- the interval begins after every request so far, so the cap alone is the bound
      have unused : acceptedIn first now (asks cap rate (times ++ [earlier])).1 = 0 :=
        acceptedIn_before now fun time member =>
          (le_of_snoc sorted time (by rwa [asks_times] at member)).trans_lt (not_le.mp covered)
      have capped : refilled cap rate (asks cap rate (times ++ [earlier])).2 now ≤ cap :=
        refilled_le (level_le _) now
      have inflow : 0 ≤ (now - first) * rate := mul_nonneg (sub_nonneg.mpr begun) fills
      rw [unused, Nat.cast_zero]
      linarith

variable (cap rate) in
omit full fills in
/-- Since the bucket was last full, nothing was lost. -/
theorem spent {now : K} {times : List K} (sorted : (times ++ [now]).Pairwise (· ≤ ·)) :
    ∃ first ∈ times ++ [now], first ≤ now ∧
      cap + (now - first) * rate ≤
        acceptedIn first now (asks cap rate times).1 +
          refilled cap rate (asks cap rate times).2 now := by
  induction times using List.reverseRecOn generalizing now with
  | nil =>
    refine ⟨now, by simp, le_refl now, ?_⟩
    rw [sub_self, zero_mul, add_zero]
    exact le_add_of_nonneg_left (Nat.cast_nonneg _)
  | append_singleton times earlier ih =>
    obtain ⟨sorted, -, latest⟩ := List.pairwise_append.mp sorted
    have elapsed : earlier ≤ now := latest earlier (by simp) now (by simp)
    obtain ⟨first, asked, covered, before⟩ := ih sorted
    have moved := balance cap rate sorted covered elapsed
    rw [refilled_snoc]
    rcases min_choice cap
      ((asks cap rate (times ++ [earlier])).2.level + (now - earlier) * rate) with capped | filling
    · refine ⟨now, by simp, le_refl now, ?_⟩
      rw [capped, sub_self, zero_mul, add_zero]
      exact le_add_of_nonneg_left (Nat.cast_nonneg _)
    · refine ⟨first, List.mem_append_left _ asked, covered.trans elapsed, ?_⟩
      rw [filling]
      linarith

/-- No interval accepts more than the cap and its inflow. -/
theorem acceptedIn_le {first last : K} (begun : first ≤ last) {times : List K}
    (sorted : times.Pairwise (· ≤ ·)) :
    acceptedIn first last (asks cap rate times).1 ≤ cap + (last - first) * rate := by
  induction times using List.reverseRecOn with
  | nil =>
    have inflow : 0 ≤ (last - first) * rate := mul_nonneg (sub_nonneg.mpr begun) fills
    calc (acceptedIn first last [] : K) = 0 := by simp [acceptedIn]
      _ ≤ cap + (last - first) * rate := add_nonneg full inflow
  | append_singleton times now ih =>
    by_cases inside : now ≤ last
    · have all : (times ++ [now] ++ [last]).Pairwise (· ≤ ·) := by
        refine List.pairwise_append.mpr ⟨sorted, List.pairwise_singleton _ _, ?_⟩
        intro time member final single
        have early := le_of_snoc sorted time member
        rw [List.mem_singleton.mp single]
        exact early.trans inside
      have within := conserved cap fills all begun
      have left := refilled_nonneg full fills all
      linarith
    · rw [asks_snoc, acceptedIn_snoc]
      simpa [inside] using ih (List.pairwise_append.mp sorted).1

omit full fills in
/-- A request is refused only if some interval that ends with it is used up. -/
theorem refused {now : K} {times : List K} (sorted : (times ++ [now]).Pairwise (· ≤ ·))
    (refusal : (ask cap rate (asks cap rate times).2 now).1 = false) :
    ∃ first ∈ times ++ [now], first ≤ now ∧
      cap + (now - first) * rate < acceptedIn first now (asks cap rate times).1 + 1 := by
  obtain ⟨first, asked, begun, used⟩ := spent cap rate sorted
  have empty : refilled cap rate (asks cap rate times).2 now < 1 := by
    by_contra found
    simp [(ask_fst cap rate _ _).mpr (not_lt.mp found)] at refusal
  exact ⟨first, asked, begun, by linarith⟩

theorem level_nonneg {times : List K} (sorted : times.Pairwise (· ≤ ·)) :
    0 ≤ (asks cap rate times).2.level := by
  induction times using List.reverseRecOn with
  | nil => exact full
  | append_singleton times now _ =>
    rw [asks_snoc]
    exact ask_nonneg (refilled_nonneg full fills sorted)

end Ordered

end LogMonitor.Library.Metering
