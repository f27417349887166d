import LogMonitor.Library.Metering
import LogMonitor.Server
import Mathlib.Tactic.NormNum

/-!
`rate_buckets_` under any sequence of calls: a bucket for each key that was
used, made by the first call with the key.
-/

namespace LogMonitor
open Library Library.ByteString

abbrev RateBuckets := Bytes → Option TokenBucket

namespace RateLimiter
open Metering TokenBucket

/-- `rate_buckets_[key].consume()`: a key that is missing gets a new bucket. -/
def charge (buckets : RateBuckets) (key : Bytes) (nowNs : Int) : Bool × RateBuckets :=
  let (allowed, bucket) := ((buckets key).getD {}).consume nowNs
  (allowed, Function.update buckets key (some bucket))

structure Call where
  key : Bytes
  nowNs : Int

def serve (calls : List Call) : List (Call × Bool) × RateBuckets :=
  calls.foldl
    (fun reached call =>
      let charged := charge reached.2 call.key call.nowNs
      (reached.1 ++ [(call, charged.1)], charged.2))
    ([], fun _ => none)

theorem serve_snoc (calls : List Call) (call : Call) :
    serve (calls ++ [call]) =
      ((serve calls).1 ++ [(call, (charge (serve calls).2 call.key call.nowNs).1)],
        (charge (serve calls).2 call.key call.nowNs).2) := by
  simp only [serve, List.foldl_append, List.foldl_cons, List.foldl_nil]

/-- Every outcome is what its call got from the buckets the calls before it left. -/
theorem serve_split {calls : List Call} {earlier later : List (Call × Bool)} {call : Call}
    {accepted : Bool} (split : (serve calls).1 = earlier ++ (call, accepted) :: later) :
    ∃ before after, calls = before ++ call :: after ∧ earlier = (serve before).1 ∧
      (charge (serve before).2 call.key call.nowNs).1 = accepted := by
  induction calls using List.reverseRecOn generalizing later with
  | nil => simp [serve] at split
  | append_singleton calls last ih =>
    rw [serve_snoc] at split
    rcases List.eq_nil_or_concat later with rfl | ⟨later, final, rfl⟩
    · obtain ⟨same, single⟩ := List.append_inj' split rfl
      obtain ⟨rfl, rfl⟩ := Prod.mk.inj (List.singleton_inj.mp single)
      exact ⟨calls, [], rfl, same.symm, rfl⟩
    · rw [List.concat_eq_append, ← List.cons_append, ← List.append_assoc] at split
      obtain ⟨before, after, rfl, rest⟩ := ih (List.append_inj' split rfl).1
      exact ⟨before, after ++ [last], by rw [List.append_assoc, List.cons_append], rest⟩

def callsOf (key : Bytes) (calls : List Call) : List Call :=
  calls.filter fun call => call.key = key

def outcomesOf (key : Bytes) (outcomes : List (Call × Bool)) : List (Call × Bool) :=
  outcomes.filter fun outcome => outcome.1.key = key

theorem callsOf_snoc (key : Bytes) (calls : List Call) (call : Call) :
    callsOf key (calls ++ [call]) =
      if call.key = key then callsOf key calls ++ [call] else callsOf key calls := by
  by_cases own : call.key = key
  · simp [callsOf, own]
  · simp [callsOf, own]

theorem outcomesOf_snoc (key : Bytes) (outcomes : List (Call × Bool)) (call : Call)
    (accepted : Bool) :
    outcomesOf key (outcomes ++ [(call, accepted)]) =
      if call.key = key then outcomesOf key outcomes ++ [(call, accepted)]
      else outcomesOf key outcomes := by
  by_cases own : call.key = key
  · simp [outcomesOf, own]
  · simp [outcomesOf, own]

theorem charge_other (buckets : RateBuckets) {key other : Bytes} (different : other ≠ key)
    (nowNs : Int) : (charge buckets key nowNs).2 other = buckets other := by
  simp [charge, Function.update_of_ne different]

theorem charge_same {buckets more : RateBuckets} {key : Bytes} (same : buckets key = more key)
    (nowNs : Int) :
    (charge buckets key nowNs).1 = (charge more key nowNs).1 ∧
      (charge buckets key nowNs).2 key = (charge more key nowNs).2 key := by
  simp [charge, same]

/-- A key sees its own calls only. -/
theorem serve_own (key : Bytes) (calls : List Call) :
    outcomesOf key (serve calls).1 = (serve (callsOf key calls)).1 ∧
      (serve calls).2 key = (serve (callsOf key calls)).2 key := by
  induction calls using List.reverseRecOn with
  | nil => exact ⟨rfl, rfl⟩
  | append_singleton calls call ih =>
    obtain ⟨outcomes, bucket⟩ := ih
    rw [serve_snoc, callsOf_snoc, outcomesOf_snoc]
    by_cases own : call.key = key
    · subst own
      obtain ⟨accepted, after⟩ := charge_same bucket call.nowNs
      simp only [if_true, serve_snoc]
      exact ⟨by rw [outcomes, accepted], after⟩
    · simp only [own, if_false]
      exact ⟨outcomes, by rw [charge_other _ (Ne.symm own), bucket]⟩

/-! ### The bucket of a key is the token bucket -/

def seconds (ns : Int) : Rat := ns / 1000000000

theorem seconds_le {first last : Int} : seconds first ≤ seconds last ↔ first ≤ last := by
  unfold seconds
  rw [div_le_div_iff_of_pos_right (by norm_num)]
  exact Int.cast_le

/-- What a bucket is as a bucket of tokens; a key that was never used has a full one. -/
def view : Option TokenBucket → Bucket Rat
  | none => ⟨maxTokens, none⟩
  | some bucket => ⟨bucket.tokens, some (seconds bucket.lastRefillNs)⟩

theorem consume_last (bucket : TokenBucket) (nowNs : Int) :
    (bucket.consume nowNs).2.lastRefillNs = nowNs := by
  unfold consume
  extract_lets tokens
  by_cases empty : tokens < 1
  · rw [if_pos empty]
  · rw [if_neg empty]

theorem consume_view {bucket : Option TokenBucket}
    (used : ∀ present, bucket = some present → 0 < present.lastRefillNs) (nowNs : Int) :
    (((bucket.getD {}).consume nowNs).1, view (some ((bucket.getD {}).consume nowNs).2)) =
      ask maxTokens refillPerSecond (view bucket) (seconds nowNs) := by
  cases bucket with
  | none =>
    have full : ¬ maxTokens < 1 := by norm_num [maxTokens]
    have first : ({} : TokenBucket).consume nowNs = (true, ⟨maxTokens - 1, nowNs⟩) := rfl
    rw [Option.getD_none, first]
    symm
    exact if_neg (t := (false, ⟨maxTokens, some (seconds nowNs)⟩)) full
  | some present =>
    have elapsed : (nowNs - present.lastRefillNs : Rat) / 1000000000 =
        seconds nowNs - seconds present.lastRefillNs := by
      unfold seconds
      ring
    simp only [Option.getD_some, consume, used present rfl, if_true, elapsed, view, ask, refilled]
    by_cases empty :
      min maxTokens (present.tokens + (seconds nowNs - seconds present.lastRefillNs) *
        refillPerSecond) < 1
    · rw [if_pos empty]
      symm
      exact if_pos empty
    · rw [if_neg empty]
      symm
      exact if_neg empty

def times (key : Bytes) (calls : List Call) : List Rat :=
  (callsOf key calls).map fun call => seconds call.nowNs

theorem times_snoc {key : Bytes} {call : Call} (own : call.key = key) (calls : List Call) :
    times key (calls ++ [call]) = times key calls ++ [seconds call.nowNs] := by
  rw [times, callsOf_snoc, if_pos own, List.map_append, ← times, List.map_singleton]

/-- What the calls with a key got is what a full bucket answers. -/
theorem serve_asks (key : Bytes) (calls : List Call)
    (positive : ∀ call ∈ callsOf key calls, 0 < call.nowNs) :
    (outcomesOf key (serve calls).1).map (fun outcome => (seconds outcome.1.nowNs, outcome.2)) =
        (asks maxTokens refillPerSecond (times key calls)).1 ∧
      view ((serve calls).2 key) = (asks maxTokens refillPerSecond (times key calls)).2 ∧
      ∀ present, (serve calls).2 key = some present → 0 < present.lastRefillNs := by
  induction calls using List.reverseRecOn with
  | nil => exact ⟨rfl, rfl, fun present absent => by contradiction⟩
  | append_singleton calls call ih =>
    rw [callsOf_snoc] at positive
    by_cases own : call.key = key
    · rw [if_pos own] at positive
      obtain ⟨outcomes, bucket, used⟩ := ih fun call member => positive call (List.mem_append_left _ member)
      have now : 0 < call.nowNs := positive call (by simp)
      have answered := consume_view used call.nowNs
      rw [bucket] at answered
      rw [times_snoc own, asks_snoc, serve_snoc, outcomesOf_snoc, if_pos own, ← answered]
      subst own
      rw [charge]
      dsimp only
      rw [Function.update_self]
      refine ⟨by rw [List.map_append, outcomes, List.map_singleton], rfl, ?_⟩
      intro present same
      obtain rfl := Option.some.inj same
      rw [consume_last]
      exact now
    · rw [if_neg own] at positive
      have shape : times key (calls ++ [call]) = times key calls := by
        rw [times, callsOf_snoc, if_neg own, ← times]
      rw [shape, serve_snoc, outcomesOf_snoc, if_neg own, charge_other _ (Ne.symm own)]
      exact ih positive

def acceptedIn (key : Bytes) (first last : Rat) (outcomes : List (Call × Bool)) : Nat :=
  outcomes.countP fun outcome =>
    outcome.1.key = key && outcome.2 && first ≤ seconds outcome.1.nowNs &&
      seconds outcome.1.nowNs ≤ last

theorem acceptedIn_outcomesOf (key : Bytes) (first last : Rat) (outcomes : List (Call × Bool)) :
    acceptedIn key first last outcomes =
      Metering.acceptedIn first last
        ((outcomesOf key outcomes).map fun outcome => (seconds outcome.1.nowNs, outcome.2)) := by
  rw [Metering.acceptedIn, List.countP_map, outcomesOf, List.countP_filter]
  refine List.countP_congr fun outcome _ => ?_
  simp only [Function.comp_apply, Bool.and_eq_true, decide_eq_true_eq]
  tauto

section
variable {key : Bytes} {calls : List Call}
  (positive : ∀ call ∈ callsOf key calls, 0 < call.nowNs)
  (ordered : (callsOf key calls).Pairwise fun call later => call.nowNs ≤ later.nowNs)
include positive ordered

omit positive in
theorem times_sorted : (times key calls).Pairwise (· ≤ ·) :=
  List.pairwise_map.mpr (ordered.imp seconds_le.mpr)

theorem acceptedIn_le {first last : Rat} (begun : first ≤ last) :
    acceptedIn key first last (serve calls).1 ≤ 100 + (last - first) * 100 / 60 := by
  obtain ⟨outcomes, -, -⟩ := serve_asks key calls positive
  rw [acceptedIn_outcomesOf, outcomes]
  calc (Metering.acceptedIn first last (asks maxTokens refillPerSecond (times key calls)).1 : Rat)
      ≤ maxTokens + (last - first) * refillPerSecond :=
        Metering.acceptedIn_le (by norm_num [maxTokens]) (by norm_num [refillPerSecond]) begun
          (times_sorted ordered)
    _ = 100 + (last - first) * 100 / 60 := by
        unfold maxTokens refillPerSecond
        ring

theorem tokens_bounds {bucket : TokenBucket} (present : (serve calls).2 key = some bucket) :
    0 ≤ bucket.tokens ∧ bucket.tokens ≤ 100 := by
  obtain ⟨-, same, -⟩ := serve_asks key calls positive
  rw [present] at same
  have level : bucket.tokens = (asks maxTokens refillPerSecond (times key calls)).2.level :=
    congrArg Bucket.level same
  rw [level]
  exact ⟨level_nonneg (by norm_num [maxTokens]) (by norm_num [refillPerSecond])
    (times_sorted ordered), level_le _⟩

end

theorem refused {key : Bytes} {calls : List Call} {call : Call} (own : call.key = key)
    (positive : ∀ other ∈ callsOf key (calls ++ [call]), 0 < other.nowNs)
    (ordered : (callsOf key (calls ++ [call])).Pairwise fun first later =>
      first.nowNs ≤ later.nowNs)
    (refusal : (charge (serve calls).2 key call.nowNs).1 = false) :
    ∃ first ≤ seconds call.nowNs,
      100 + (seconds call.nowNs - first) * 100 / 60 <
        acceptedIn key first (seconds call.nowNs) (serve calls).1 + 1 := by
  have sorted := times_sorted ordered
  rw [callsOf_snoc, if_pos own] at positive
  obtain ⟨outcomes, same, used⟩ :=
    serve_asks key calls fun call member => positive call (List.mem_append_left _ member)
  have answered := congrArg Prod.fst (consume_view used call.nowNs)
  rw [same] at answered
  rw [times_snoc own] at sorted
  obtain ⟨first, -, begun, full⟩ := Metering.refused sorted (answered.symm.trans refusal)
  refine ⟨first, begun, ?_⟩
  rw [acceptedIn_outcomesOf, outcomes]
  calc 100 + (seconds call.nowNs - first) * 100 / 60
      = maxTokens + (seconds call.nowNs - first) * refillPerSecond := by
        unfold maxTokens refillPerSecond
        ring
    _ < _ := full

/-- Of a key whose calls come at positive times that never go back, every interval accepts at most
the cap and its inflow, a call is rejected only if some interval that ends with it would exceed
that, the tokens stay between none and the cap, and the calls with other keys do not matter. -/
theorem exact_token_bucket (key : Bytes) (calls : List Call)
    (positive : ∀ call ∈ callsOf key calls, 0 < call.nowNs)
    (ordered : (callsOf key calls).Pairwise fun call later => call.nowNs ≤ later.nowNs) :
    (∀ first last, first ≤ last →
      acceptedIn key first last (serve calls).1 ≤ 100 + (last - first) * 100 / 60) ∧
    (∀ earlier call later, (serve calls).1 = earlier ++ (call, false) :: later →
      call.key = key → ∃ first ≤ seconds call.nowNs,
        100 + (seconds call.nowNs - first) * 100 / 60 <
          acceptedIn key first (seconds call.nowNs) earlier + 1) ∧
    (∀ before after bucket, calls = before ++ after → (serve before).2 key = some bucket →
      0 ≤ bucket.tokens ∧ bucket.tokens ≤ 100) ∧
    outcomesOf key (serve calls).1 = (serve (callsOf key calls)).1 := by
  refine ⟨fun first last => acceptedIn_le positive ordered, ?_, ?_, (serve_own key calls).1⟩
  · intro earlier call later split own
    obtain ⟨before, after, rfl, rfl, refusal⟩ := serve_split split
    have shape : callsOf key (before ++ call :: after) =
        callsOf key (before ++ [call]) ++ callsOf key after := by
      rw [callsOf, callsOf, callsOf, ← List.filter_append, List.append_assoc, List.singleton_append]
    rw [shape] at positive ordered
    rw [own] at refusal
    exact refused own (fun other member => positive other (List.mem_append_left _ member))
      (List.pairwise_append.mp ordered).1 refusal
  · rintro before after bucket rfl present
    rw [callsOf, List.filter_append, ← callsOf] at positive ordered
    exact tokens_bounds (fun call member => positive call (List.mem_append_left _ member))
      (List.pairwise_append.mp ordered).1 present

theorem exact_token_bucket_two :
    acceptedIn (text "k") 1 2
      (serve [⟨text "k", 1000000000⟩, ⟨text "j", 1500000000⟩, ⟨text "k", 2000000000⟩]).1 ≤
        (100 : Rat) + (2 - 1) * 100 / 60 :=
  (exact_token_bucket (text "k")
    [⟨text "k", 1000000000⟩, ⟨text "j", 1500000000⟩, ⟨text "k", 2000000000⟩]
    (by decide) (by decide)).1 1 2 (by norm_num)

end RateLimiter

end LogMonitor
