import LogMonitor.HttpServerTrace

/-!
The time of a log that the client dates itself. The handler turns seconds into
nanoseconds in 64 bits without a look at the size of the product, so what is
stored is the time that was sent only up to the year 2262.
-/

namespace LogMonitor.HttpServer
open Library Library.ByteString Library.SortedList Tsdb ProjectRoutes Server ProjectStore

/-- A log with a timestamp of its own, in seconds. -/
structure DatedLog where
  app : Bytes
  level : Bytes
  message : Bytes
  seconds : Int64
  positive : 0 < seconds.toInt

def Request.Carries (request : Request) (log : DatedLog) : Prop :=
  ∃ body, request.body = some body ∧
    readFields body = .ok (log.app, log.level, log.message, log.seconds)

section Stores

variable (cfg : Config)

/-- The store that a log with this key goes to: its project's, which is created if need be, or the
one behind the callback. -/
def storeOf (s : State) (key : Bytes) : Option Store :=
  if cfg.hasTenantMgr then
    match findByApiKey s.routes.tenantMgr.projectStore key with
    | none => none
    | some proj =>
      if proj.id = [] then none
      else some ((s.routes.tenantMgr.tsdbMap proj.id).getD (cfg.persisted proj.id))
  else if cfg.callbacks.insert then some s.tsdb
  else none

structure Accepted (s : State) (request : Request) (input : Input) (log : DatedLog)
    (before : Store) : Prop where
  carries : request.Carries log
  store : storeOf cfg s request.xApiKey = some before
  ok : (handleIngest cfg s request input).2.status = 200

/-- The time of the stored log is the one that was sent, as the integers have it: the app was last
seen no earlier, and among entries in the order of their times the log has its place. -/
structure DatedExactly (log : DatedLog) (before after : Store) (entry : TsdbEntry) : Prop where
  same : entry.appName = log.app ∧ entry.level = log.level ∧ entry.message = log.message
  inserted : after = before.insert entry
  time : entry.time = log.seconds.toInt * 1000000000
  seen : log.seconds.toInt * 1000000000 ≤ (after.getLastSeen log.app).toInt
  placed : Sorted before → ∃ earlier later, after.vector log.app = earlier ++ entry :: later ∧
    (∀ other ∈ earlier, other.time ≤ log.seconds.toInt * 1000000000) ∧
    ∀ other ∈ later, log.seconds.toInt * 1000000000 ≤ other.time

def StoredExactly (s : State) (request : Request) (input : Input) (log : DatedLog)
    (before : Store) : Prop :=
  ∃ after entry, storeOf cfg (handleIngest cfg s request input).1 request.xApiKey = some after ∧
    DatedExactly log before after entry

end Stores

section Handled

variable {cfg : Config} {s after : State} {key : Bytes} {entry : TsdbEntry} {nowNs : Int}

theorem jsonError_ne_ok {status : Nat} (error : status ≠ 200) (message : Bytes) :
    (jsonError cfg.toConfig status message).status ≠ 200 :=
  sendJson_ne_ok _ error _

theorem storeOf_routeIngest (mode : cfg.hasTenantMgr = true) (s : State) (key : Bytes)
    (entry : TsdbEntry) (buckets : RateBuckets) :
    storeOf cfg { s with
      routes := { s.routes with
        tenantMgr := (TenantManager.routeIngest cfg.persisted s.routes.tenantMgr key entry).1 }
      rateBuckets := buckets } key = (storeOf cfg s key).map fun store => store.insert entry := by
  unfold storeOf TenantManager.routeIngest
  rw [if_pos mode, if_pos mode]
  cases found : findByApiKey s.routes.tenantMgr.projectStore key with
  | none => simp [found]
  | some proj =>
    unfold TenantManager.ingestToProject TenantManager.getOrCreateTsdb
    by_cases unnamed : proj.id = []
    · simp [found, unnamed]
    · cases opened : s.routes.tenantMgr.tsdbMap proj.id with
      | none => simp [found, unnamed, opened]
      | some tsdb => simp [found, unnamed, opened]

theorem storeOf_vet (passed : vet cfg s key entry nowNs = (after, none)) :
    storeOf cfg after key = (storeOf cfg s key).map fun store => store.insert entry := by
  unfold vet at passed
  by_cases mode : cfg.hasTenantMgr = true
  · rw [if_pos mode] at passed
    split at passed
    next => exact nomatch (Prod.mk.inj passed).2
    next =>
      dsimp only at passed
      split at passed
      next => exact nomatch (Prod.mk.inj passed).2
      next => rw [← (Prod.mk.inj passed).1, storeOf_routeIngest mode]
  · rw [if_neg mode] at passed
    split at passed
    next => exact nomatch (Prod.mk.inj passed).2
    next checked allowed =>
      have tsdb : checked.tsdb = s.tsdb := by
        unfold authenticate at allowed
        split at allowed
        next => exact nomatch (Prod.mk.inj allowed).2
        next => rw [← (Prod.mk.inj allowed).1]
      rw [← (Prod.mk.inj passed).1, storeOf, storeOf, if_neg mode, if_neg mode, insertCb]
      split
      next => rw [Option.map_some, tsdb]
      next => rfl

theorem vet_refused {refusal : Response}
    (refused : vet cfg s key entry nowNs = (after, some refusal)) :
    refusal.status ≠ 200 := by
  have error {status : Nat} (message : Bytes) (other : status ≠ 200)
      (same : some (jsonError cfg.toConfig status message) = some refusal) :
      refusal.status ≠ 200 := by
    rw [← Option.some.inj same]
    exact jsonError_ne_ok other message
  unfold vet at refused
  split at refused
  next =>
    split at refused
    next => exact error _ (by decide) (Prod.mk.inj refused).2
    next =>
      dsimp only at refused
      split at refused
      next => exact error _ (by decide) (Prod.mk.inj refused).2
      next =>
        have answer := (Prod.mk.inj refused).2
        split at answer
        next => exact nomatch answer
        next => exact error _ (by decide) answer
  next =>
    split at refused
    next checked =>
      unfold authenticate at checked
      split at checked
      next => exact error _ (by decide) ((Prod.mk.inj checked).2.trans (Prod.mk.inj refused).2)
      next =>
        generalize RateLimiter.charge s.rateBuckets key nowNs = charged at checked
        obtain ⟨allowed, buckets⟩ := charged
        cases allowed with
        | true => exact nomatch (Prod.mk.inj checked).2
        | false =>
          exact error _ (by decide) ((Prod.mk.inj checked).2.trans (Prod.mk.inj refused).2)
    next => exact nomatch (Prod.mk.inj refused).2

theorem Accepted.store_after {request : Request} {input : Input} {log : DatedLog} {before : Store}
    (accepted : Accepted cfg s request input log before) :
    storeOf cfg (handleIngest cfg s request input).1 request.xApiKey =
      some (before.insert ⟨log.app, log.level, log.message, log.seconds * 1000000000⟩) := by
  obtain ⟨⟨body, sent, read⟩, store, ok⟩ := accepted
  unfold handleIngest at ok ⊢
  rw [sent] at ok ⊢
  dsimp only at ok ⊢
  by_cases whole : complete body = true
  · have positive : 0 < log.seconds := Int64.lt_iff_toInt_lt.mpr log.positive
    rw [if_neg (by simp [whole]), read] at ok ⊢
    dsimp only at ok ⊢
    rw [if_pos positive] at ok ⊢
    split at ok
    next refused refusal vetted =>
      exact absurd ok (vet_refused vetted)
    next checked vetted =>
      have entered := storeOf_vet vetted
      rw [store] at entered
      exact entered
  · rw [if_pos (by simp [whole])] at ok
    exact absurd ok (jsonError_ne_ok (by decide) _)

end Handled

theorem getLastSeen_insert (store : Store) (entry : TsdbEntry) :
    entry.time ≤ ((store.insert entry).getLastSeen entry.appName).toInt := by
  have seen : (store.insert entry).getLastSeen entry.appName =
      latest (store.getLastSeen entry.appName) entry.timestampNs := by
    simp [Store.getLastSeen, Store.insert, Store.see]
  rw [seen, latest_toInt]
  exact le_max_right _ _

/-- Where the inserted entry is in a vector that was in order. -/
theorem vector_insert {store : Store} (sorted : Sorted store) (entry : TsdbEntry) :
    ∃ earlier later, (store.insert entry).vector entry.appName = earlier ++ entry :: later ∧
      (∀ other ∈ earlier, other.time ≤ entry.time) ∧ ∀ other ∈ later, entry.time ≤ other.time := by
  have ordered := sorted.insert entry entry.appName
  have member : entry ∈ (store.insert entry).vector entry.appName := by
    rw [insert_vector, if_pos rfl, insertSorted_eq (sorted _), (perm_insertOrdered entry _).mem_iff]
    exact List.mem_cons_self ..
  obtain ⟨earlier, later, cut⟩ := List.append_of_mem member
  rw [cut] at ordered
  obtain ⟨-, behind, across⟩ := List.pairwise_append.mp ordered
  refine ⟨earlier, later, cut, fun other listed => ?_, (List.pairwise_cons.mp behind).1⟩
  exact across other listed entry (List.mem_cons_self ..)

theorem toInt_mul_billion {seconds : Int64} (positive : 0 < seconds.toInt)
    (small : seconds.toInt ≤ 9223372036) :
    (seconds * 1000000000).toInt = seconds.toInt * 1000000000 := by
  have billion : (1000000000 : Int64).toInt = 1000000000 := rfl
  rw [Int64.toInt_mul, billion]
  exact Int.bmod_eq_of_le (by omega) (by omega)

theorem StoredExactly.small {cfg : Config} {s : State} {request : Request} {input : Input}
    {log : DatedLog} {before : Store} (stored : StoredExactly cfg s request input log before) :
    log.seconds.toInt ≤ 9223372036 := by
  obtain ⟨_, entry, -, exact⟩ := stored
  have bound := entry.timestampNs.toInt_lt
  have time := exact.time
  unfold TsdbEntry.time at time
  omega

/-- The time of an accepted log is stored exactly if and only if it is at most 9223372036
seconds. -/
theorem stored_exactly_iff {cfg : Config} {s : State} {request : Request} {input : Input}
    {log : DatedLog} {before : Store} (accepted : Accepted cfg s request input log before) :
    StoredExactly cfg s request input log before ↔ log.seconds.toInt ≤ 9223372036 := by
  refine ⟨StoredExactly.small, fun small => ?_⟩
  have time := toInt_mul_billion log.positive small
  let entry : TsdbEntry := ⟨log.app, log.level, log.message, log.seconds * 1000000000⟩
  refine ⟨_, entry, accepted.store_after, ⟨rfl, rfl, rfl⟩, rfl, time, ?_, fun sorted => ?_⟩
  · rw [← time]
    exact getLastSeen_insert before entry
  · rw [← time]
    exact vector_insert sorted entry

def datedBody (seconds : Int64) : Json := .object [
  (text "app", .string (text "a")), (text "level", .string (text "INFO")),
  (text "message", .string (text "m")), (text "timestamp", .integer seconds.toInt)]

def datedRequest (seconds : Int64) : Request :=
  { logWith (text "k1") with body := some (datedBody seconds) }

theorem datedRequest_accepted {seconds : Int64} (positive : 0 < seconds.toInt) :
    Accepted tenantConfig tenantServer (datedRequest seconds) sampleInput
      ⟨text "a", text "INFO", text "m", seconds, positive⟩ Store.empty := by
  have whole : complete (datedBody seconds) = true := rfl
  have read : readFields (datedBody seconds) =
      .ok (text "a", text "INFO", text "m", seconds) := by
    conv_rhs => rw [← Int64.ofInt_toInt seconds]
    rfl
  have allowed : (RateLimiter.charge tenantServer.rateBuckets (text "k1") 1).1 = true :=
    TokenBucket.consume_new 1
  have vetted (entry : TsdbEntry) :
      ∃ after, vet tenantConfig tenantServer (datedRequest seconds).xApiKey entry
        sampleInput.consumeNs = (after, none) := by
    change ∃ after, vet tenantConfig tenantServer (text "k1") entry 1 = (after, none)
    unfold vet
    generalize RateLimiter.charge tenantServer.rateBuckets (text "k1") 1 = charged at allowed ⊢
    obtain ⟨passes, buckets⟩ := charged
    obtain rfl : passes = true := allowed
    exact ⟨_, rfl⟩
  have sent : (datedRequest seconds).body = some (datedBody seconds) := rfl
  refine ⟨⟨_, sent, read⟩, rfl, ?_⟩
  unfold handleIngest
  rw [sent]
  dsimp only
  rw [if_neg (by simp [whole]), read]
  dsimp only
  obtain ⟨after, passed⟩ := vetted ⟨text "a", text "INFO", text "m",
    if 0 < seconds then seconds * 1000000000 else sampleInput.clocks.systemNs⟩
  rw [passed]
  rfl

theorem stored_exactly_iff_seconds :
    StoredExactly tenantConfig tenantServer (datedRequest 1700000000) sampleInput
      ⟨text "a", text "INFO", text "m", 1700000000, by decide⟩ Store.empty :=
  (stored_exactly_iff (datedRequest_accepted (by decide))).mpr (by decide)

/-- The same date in milliseconds is accepted, and stored as another. -/
theorem milliseconds_misplaced :
    Accepted tenantConfig tenantServer (datedRequest 1700000000000) sampleInput
      ⟨text "a", text "INFO", text "m", 1700000000000, by decide⟩ Store.empty ∧
    ¬StoredExactly tenantConfig tenantServer (datedRequest 1700000000000) sampleInput
      ⟨text "a", text "INFO", text "m", 1700000000000, by decide⟩ Store.empty :=
  ⟨datedRequest_accepted (by decide), fun stored => absurd stored.small (by decide)⟩

end LogMonitor.HttpServer
