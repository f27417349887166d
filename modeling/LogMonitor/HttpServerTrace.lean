import LogMonitor.HttpServer

/-!
What a request that is answered 401 leaves behind. The single-tenant routes look
at the key before they charge its bucket; `/ingest` of the multi-tenant mode
charges the bucket of whatever key it is sent, and finds out afterwards whether
a project has it.
-/

namespace LogMonitor.HttpServer
open Library Library.ByteString Library.Transition AuthManager ProjectStore Tsdb ProjectRoutes Server

/-- What a refused request must leave alone. -/
def State.trace (s : State) :
    Store × (Bytes → Option Store) × List LogEntry × UInt64 × RateBuckets :=
  (s.tsdb, s.routes.tenantMgr.tsdbMap, s.ring, s.totalIngested, s.rateBuckets)

def Request.readable (request : Request) : Bool :=
  match request.body with
  | none => false
  | some body =>
    complete body &&
      match readFields body with
      | .ok _ => true
      | .error _ => false

variable (cfg : Config)

/-- A key that is accepted: the one of the single-tenant routes, or that of a project. -/
def Valid (s : State) (key : Bytes) : Prop :=
  key = cfg.apiKey ∨
    cfg.hasTenantMgr = true ∧ (findByApiKey s.routes.tenantMgr.projectStore key).isSome

structure Unknown (s : State) (request : Request) : Prop where
  mode : cfg.hasTenantMgr = true
  route : request.route = .ingest
  readable : request.readable = true
  sent : request.xApiKey ≠ []
  absent : findByApiKey s.routes.tenantMgr.projectStore request.xApiKey = none

/-- The tokens in a bucket when it is charged; a new one is full. -/
def tokensAt (bucket : Option TokenBucket) (nowNs : Int) : Rat :=
  match bucket with
  | none => TokenBucket.maxTokens
  | some bucket =>
    if 0 < bucket.lastRefillNs then
      min TokenBucket.maxTokens (bucket.tokens +
        (nowNs - bucket.lastRefillNs : Rat) / 1000000000 * TokenBucket.refillPerSecond)
    else bucket.tokens

def Leaks (s : State) (request : Request) (input : Input) : Prop :=
  Unknown cfg s request ∧ 1 ≤ tokensAt (s.rateBuckets request.xApiKey) input.consumeNs

inductive Label where
  | serve (request : Request) (input : Input) (response : Option Response)
  /-- The rest of the program goes on. -/
  | background (next : State)

/-- The rest of the program may do anything but write what only the server itself writes. -/
inductive Step : State → Label → State → Prop
  | serve (s : State) (request : Request) (input : Input) :
      Step s (.serve request input (handle cfg s request input).2) (handle cfg s request input).1
  | background {s : State} (next : State) (buckets : next.rateBuckets = s.rateBuckets)
      (ingested : next.totalIngested = s.totalIngested) : Step s (.background next) next

def Label.Leaks (label : Label) (s : State) : Prop :=
  match label with
  | .serve request input _ => HttpServer.Leaks cfg s request input
  | .background _ => False

/-! ### Charging a bucket -/

theorem consume_eq (bucket : TokenBucket) (nowNs : Int) :
    bucket.consume nowNs =
      if tokensAt (some bucket) nowNs < 1 then (false, ⟨tokensAt (some bucket) nowNs, nowNs⟩)
      else (true, ⟨tokensAt (some bucket) nowNs - 1, nowNs⟩) := rfl

theorem charge_fst (buckets : RateBuckets) (key : Bytes) (nowNs : Int) :
    (RateLimiter.charge buckets key nowNs).1 = true ↔ 1 ≤ tokensAt (buckets key) nowNs := by
  unfold RateLimiter.charge
  cases buckets key with
  | none =>
    have full : (1 : Rat) ≤ TokenBucket.maxTokens := by norm_num [TokenBucket.maxTokens]
    exact iff_of_true (TokenBucket.consume_new nowNs) full
  | some bucket =>
    rw [Option.getD_some, consume_eq]
    by_cases empty : tokensAt (some bucket) nowNs < 1
    · simp [empty]
    · simp [empty, not_lt.mp empty]

theorem tokensAt_le {bucket : TokenBucket} {nowNs : Int} (last : bucket.lastRefillNs = nowNs) :
    tokensAt (some bucket) nowNs ≤ bucket.tokens := by
  simp only [tokensAt, last, sub_self, zero_div, zero_mul, add_zero]
  split
  next => exact min_le_right _ _
  next => exact le_refl _

theorem charge_changes {buckets : RateBuckets} {key : Bytes} {nowNs : Int}
    (token : 1 ≤ tokensAt (buckets key) nowNs) :
    (RateLimiter.charge buckets key nowNs).2 ≠ buckets := by
  intro same
  have own : some (((buckets key).getD {}).consume nowNs).2 = buckets key := by
    simpa [RateLimiter.charge] using congrFun same key
  cases present : buckets key with
  | none => simp [present] at own
  | some bucket =>
    rw [present, Option.getD_some, consume_eq, if_neg (not_lt.mpr (present ▸ token)),
      Option.some.injEq] at own
    have flown : tokensAt (some bucket) nowNs ≤ bucket.tokens :=
      tokensAt_le (congrArg TokenBucket.lastRefillNs own).symm
    have taken : tokensAt (some bucket) nowNs - 1 = bucket.tokens :=
      congrArg TokenBucket.tokens own
    linarith

theorem isSome_charge {buckets : RateBuckets} {key other : Bytes} {nowNs : Int}
    (present : ((RateLimiter.charge buckets key nowNs).2 other).isSome) :
    other = key ∨ (buckets other).isSome := by
  by_cases same : other = key
  · exact .inl same
  · exact .inr (by rwa [RateLimiter.charge_other buckets same] at present)

/-! ### One request -/

/-- What the handling of a request may have done: it charged at most the bucket of the request's
key, an accepted or an unknown one, and it left no trace if it ended in a 401, unless an unknown
key leaks. -/
structure Handled (s : State) (request : Request) (input : Input) (after : State)
    (response : Option Response) : Prop where
  buckets : after.rateBuckets = s.rateBuckets ∨
    after.rateBuckets = (RateLimiter.charge s.rateBuckets request.xApiKey input.consumeNs).2 ∧
      (Valid cfg s request.xApiKey ∨ Unknown cfg s request)
  unauthorised : ∀ answer, response = some answer → answer.status = 401 →
    after.trace = s.trace ∨ Leaks cfg s request input

section Handlers

variable {cfg} {s : State} {request : Request} {input : Input}

theorem Handled.untouched {after : State} {response : Option Response}
    (same : after.trace = s.trace) : Handled cfg s request input after response :=
  ⟨.inl (congrArg (fun trace => trace.2.2.2.2) same), fun _ _ _ => .inl same⟩

/-- An answer with another status does not matter. -/
theorem Handled.answer {before after : State}
    (handled : Handled cfg s request input before none)
    (same : after.rateBuckets = before.rateBuckets) {response : Response}
    (other : response.status ≠ 401) : Handled cfg s request input after (some response) := by
  refine ⟨same ▸ handled.buckets, fun answer given status => ?_⟩
  obtain rfl := Option.some.inj given
  exact absurd status other

theorem sendJson_ne_unauthorised (cfg : ProjectRoutes.Config) {status : Nat} (other : status ≠ 401)
    (json : Json) : (sendJson cfg status json).status ≠ 401 := by
  rcases sendJson_status cfg status json with same | failed
  · rwa [same]
  · rw [failed]
    decide

theorem jsonError_ne_unauthorised (cfg : ProjectRoutes.Config) {status : Nat}
    (other : status ≠ 401) (message : Bytes) : (jsonError cfg status message).status ≠ 401 :=
  sendJson_ne_unauthorised cfg other _

set_option maxRecDepth 4096 in
/-- The message of an error is ASCII text, so it is written. -/
theorem unknownKey_status :
    (jsonError cfg.toConfig 401 (text "Unauthorized: unknown project API key")).status = 401 := by
  have written := cfg.dumpsErrors (text "Unauthorized: unknown project API key") (by decide)
  unfold jsonError sendJson
  cases dumped : cfg.dump (.object [(text "error",
      .string (text "Unauthorized: unknown project API key"))]) with
  | some body => rfl
  | none => simp [dumped] at written

/-- The check of the key charges the key of the server, or leaves the state. -/
theorem authenticate_handled (cfg : Config) (s : State) (request : Request) (input : Input) :
    Handled cfg s request input (authenticate cfg s request.xApiKey input.consumeNs).1
      (authenticate cfg s request.xApiKey input.consumeNs).2 := by
  unfold authenticate
  by_cases own : request.xApiKey = cfg.apiKey
  · rw [if_neg (not_not.mpr own)]
    refine ⟨.inr ⟨rfl, .inl (.inl own)⟩, fun answer refused status => ?_⟩
    by_cases allowed : (RateLimiter.charge s.rateBuckets request.xApiKey input.consumeNs).1 = true
    · simp [allowed] at refused
    · simp only [if_neg allowed, Option.some.injEq] at refused
      subst refused
      exact absurd status (jsonError_ne_unauthorised _ (by decide) _)
  · rw [if_pos own]
    exact .untouched rfl

theorem handleLegacy_handled {answer : State → Response}
    (answers : ∀ s, (answer s).status ≠ 401) :
    Handled cfg s request input (handleLegacy cfg s request input answer).1
      (some (handleLegacy cfg s request input answer).2) := by
  have checked := authenticate_handled cfg s request input
  unfold handleLegacy
  split
  next after refusal refused => rwa [refused] at checked
  next after passed =>
    rw [passed] at checked
    exact checked.answer rfl (answers after)

theorem withCredentials_handled {next : Bytes → Bytes → State × Response}
    (rest : ∀ email password, (next email password).1.trace = s.trace) :
    Handled cfg s request input (withCredentials cfg s request next).1
      (some (withCredentials cfg s request next).2) := by
  apply Handled.untouched
  unfold withCredentials
  split
  next => rfl
  next =>
    split
    next => rfl
    next =>
      split
      next => rfl
      next =>
        split
        next => rfl
        next => exact rest _ _

theorem handleRegister_handled :
    Handled cfg s request input (handleRegister cfg s request input).1
      (some (handleRegister cfg s request input).2) :=
  withCredentials_handled fun _ _ => rfl

theorem handleLogin_handled :
    Handled cfg s request input (handleLogin cfg s request input).1
      (some (handleLogin cfg s request input).2) := by
  apply withCredentials_handled
  intro email password
  split
  next => rfl
  next =>
    split
    next => rfl
    next => rfl
    next => rfl

theorem insertCb_rateBuckets (s : State) (entry : TsdbEntry) :
    (insertCb cfg s entry).rateBuckets = s.rateBuckets := by
  unfold insertCb
  split <;> rfl

section Tenant

variable (s) (mode : cfg.hasTenantMgr = true) {key : Bytes} (sent : key ≠ []) (entry : TsdbEntry)
  (nowNs : Int)
include mode sent

/-- The multi-tenant check charges the bucket first. -/
theorem vet_tenant_buckets :
    (vet cfg s key entry nowNs).1.rateBuckets =
      (RateLimiter.charge s.rateBuckets key nowNs).2 := by
  unfold vet
  rw [if_pos mode, if_neg sent]
  dsimp only
  split <;> rfl

theorem vet_tenant_unauthorised {response : Response}
    (refused : (vet cfg s key entry nowNs).2 = some response) (status : response.status = 401) :
    1 ≤ tokensAt (s.rateBuckets key) nowNs ∧
      findByApiKey s.routes.tenantMgr.projectStore key = none := by
  unfold vet at refused
  rw [if_pos mode, if_neg sent] at refused
  dsimp only at refused
  by_cases allowed : (RateLimiter.charge s.rateBuckets key nowNs).1 = true
  · refine ⟨(charge_fst _ _ _).mp allowed, ?_⟩
    cases found : findByApiKey s.routes.tenantMgr.projectStore key with
    | none => rfl
    | some project => simp [allowed, TenantManager.routeIngest, found] at refused
  · rw [Bool.not_eq_true] at allowed
    simp only [allowed, Bool.not_false, if_true, Option.some.injEq] at refused
    subst refused
    exact absurd status (jsonError_ne_unauthorised _ (by decide) _)

theorem vet_tenant_unknown (token : 1 ≤ tokensAt (s.rateBuckets key) nowNs)
    (absent : findByApiKey s.routes.tenantMgr.projectStore key = none) :
    (vet cfg s key entry nowNs).2 =
      some (jsonError cfg.toConfig 401 (text "Unauthorized: unknown project API key")) := by
  have allowed := (charge_fst s.rateBuckets key nowNs).mpr token
  unfold vet
  rw [if_pos mode, if_neg sent]
  simp [allowed, TenantManager.routeIngest, absent]

end Tenant

theorem accept_status (s : State) (app level : Bytes) (entry : LogEntry) :
    (accept cfg s app level entry).2.status ≠ 401 :=
  sendJson_ne_unauthorised _ (by decide) _

theorem vet_handled (cfg : Config) (s : State) (input : Input) (route : request.route = .ingest)
    (readable : request.readable = true) (entry : TsdbEntry) :
    Handled cfg s request input (vet cfg s request.xApiKey entry input.consumeNs).1
      (vet cfg s request.xApiKey entry input.consumeNs).2 := by
  by_cases mode : cfg.hasTenantMgr = true
  · by_cases missing : request.xApiKey = []
    · simp only [vet, if_pos mode, if_pos missing]
      exact .untouched rfl
    · have charged := vet_tenant_buckets s mode missing entry input.consumeNs
      refine ⟨.inr ⟨charged, ?_⟩, fun answer refused status => ?_⟩
      · cases found : findByApiKey s.routes.tenantMgr.projectStore request.xApiKey with
        | none => exact .inr ⟨mode, route, readable, missing, found⟩
        | some project => exact .inl (.inr ⟨mode, by simp [found]⟩)
      · obtain ⟨token, absent⟩ := vet_tenant_unauthorised s mode missing entry _ refused status
        exact .inr ⟨⟨mode, route, readable, missing, absent⟩, token⟩
  · have checked := authenticate_handled cfg s request input
    simp only [vet, if_neg mode]
    split
    next after refusal refused => rwa [refused] at checked
    next after passed =>
      rw [passed] at checked
      refine ⟨?_, nofun⟩
      rw [insertCb_rateBuckets]
      exact checked.buckets

theorem handleIngest_handled (route : request.route = .ingest) :
    Handled cfg s request input (handleIngest cfg s request input).1
      (some (handleIngest cfg s request input).2) := by
  unfold handleIngest
  cases parsed : request.body with
  | none => exact .untouched rfl
  | some body =>
    dsimp only
    cases whole : complete body with
    | false => exact .untouched rfl
    | true =>
      cases fields : readFields body with
      | error => exact .untouched rfl
      | ok read =>
        obtain ⟨app, level, message, tsClient⟩ := read
        have readable : request.readable = true := by simp [Request.readable, parsed, whole, fields]
        simp only [Bool.not_true, Bool.false_eq_true, if_false]
        generalize (if 0 < tsClient then tsClient * 1000000000 else input.clocks.systemNs) = tsNs
        have checked := vet_handled cfg s input route readable
          ⟨app, level, message, tsNs⟩
        split
        next after refusal refused => rwa [refused] at checked
        next after passed =>
          rw [passed] at checked
          apply checked.answer
          · rfl
          · exact accept_status after app level _

theorem handleIngest_leaks (leaks : Leaks cfg s request input) :
    (handleIngest cfg s request input).2.status = 401 ∧
      (handleIngest cfg s request input).1.rateBuckets =
        (RateLimiter.charge s.rateBuckets request.xApiKey input.consumeNs).2 := by
  obtain ⟨⟨mode, route, readable, sent, absent⟩, token⟩ := leaks
  unfold Request.readable at readable
  unfold handleIngest
  cases parsed : request.body with
  | none => simp [parsed] at readable
  | some body =>
    simp only [parsed, Bool.and_eq_true] at readable
    obtain ⟨whole, fields⟩ := readable
    simp only [whole, Bool.not_true, Bool.false_eq_true, if_false]
    cases entry : readFields body with
    | error => simp [entry] at fields
    | ok read =>
      obtain ⟨app, level, message, tsClient⟩ := read
      dsimp only
      generalize (if 0 < tsClient then tsClient * 1000000000 else input.clocks.systemNs) = tsNs
      have charged := vet_tenant_buckets s mode sent ⟨app, level, message, tsNs⟩ input.consumeNs
      have refused := vet_tenant_unknown s mode sent ⟨app, level, message, tsNs⟩ input.consumeNs token absent
      split
      next after refusal admitted =>
        rw [admitted] at charged refused
        obtain rfl := Option.some.inj refused
        exact ⟨unknownKey_status, charged⟩
      next after admitted => simp [admitted] at refused

end Handlers

section Project

variable {cfg : ProjectRoutes.Config} {request : ProjectRoutes.Request}

/-- A read that is on its way never ends in a refusal. -/
theorem handleAlone_looking {inputs : List ProjectRoutes.Input} {s : ProjectRoutes.State}
    {id : Bytes} {kind : Read} {looks : List Look} {response : Response}
    (answered : (handleAlone cfg request inputs (.looking id kind looks) s).2 = some response) :
    ¬Refusal response.status := by
  induction inputs generalizing s looks with
  | nil => simp [handleAlone] at answered
  | cons input rest ih =>
    unfold handleAlone at answered
    rcases advance_looking cfg s request id kind looks input with ⟨more, progress⟩ | progress
    · split at answered
      next next phase went =>
        rw [went] at progress
        obtain rfl := Progress.goesOn.inj progress
        exact ih answered
      next next given went => simp [went] at progress
    · split at answered
      next next phase went => simp [went] at progress
      next next given went =>
        rw [went] at progress
        obtain rfl := Progress.answers.inj progress
        obtain rfl := Option.some.inj answered
        exact respond_served cfg kind request looks

theorem handleAlone_refused {inputs : List ProjectRoutes.Input} {phase : Phase}
    {s : ProjectRoutes.State} {response : Response}
    (answered : (handleAlone cfg request inputs phase s).2 = some response)
    (refusal : Refusal response.status) :
    (handleAlone cfg request inputs phase s).1.stores = s.stores := by
  induction inputs generalizing s phase with
  | nil => simp [handleAlone] at answered
  | cons input rest ih =>
    have stores := advance_stores cfg s request phase input
    unfold handleAlone at answered ⊢
    split at answered
    next next following went =>
      rw [went] at stores
      rcases stores with same | ⟨id, kind, looks, progress⟩ | ⟨given, progress, -⟩
      · exact (ih answered).trans same
      · obtain rfl := Progress.goesOn.inj progress
        exact absurd refusal (handleAlone_looking answered)
      · simp at progress
    next next given went =>
      obtain rfl := Option.some.inj answered
      rw [went] at stores
      rcases stores with same | ⟨id, kind, looks, progress⟩ | ⟨other, progress, served⟩
      · exact same
      · simp at progress
      · obtain rfl := Progress.answers.inj progress
        exact absurd refusal served

end Project

section Handle

variable {cfg} {s : State} {request : Request} {input : Input}

theorem unavailable_status : (unavailable cfg).status ≠ 401 :=
  jsonError_ne_unauthorised _ (by decide) _

theorem handleQuery_handled :
    Handled cfg s request input (handleQuery cfg s request input).1
      (some (handleQuery cfg s request input).2) := by
  apply handleLegacy_handled
  intro s
  split
  next => exact sendJson_ne_unauthorised _ (by decide) _
  next => exact unavailable_status

theorem handleStats_handled :
    Handled cfg s request input (handleStats cfg s request input).1
      (some (handleStats cfg s request input).2) := by
  apply handleLegacy_handled
  intro s
  split
  next => exact sendJson_ne_unauthorised _ (by decide) _
  next => exact unavailable_status

theorem handleApps_handled :
    Handled cfg s request input (handleApps cfg s request input).1
      (some (handleApps cfg s request input).2) := by
  apply handleLegacy_handled
  intro s
  split
  next => exact sendJson_ne_unauthorised _ (by decide) _
  next => exact (by decide : 200 ≠ 401)

theorem handleMetrics_handled :
    Handled cfg s request input (handleMetrics cfg s request input).1
      (some (handleMetrics cfg s request input).2) := by
  apply handleLegacy_handled
  intro s
  split
  next => exact (by decide : 200 ≠ 401)
  next => exact (by decide : 200 ≠ 401)

theorem handleRules_handled :
    Handled cfg s request input (handleRules cfg s request input).1
      (some (handleRules cfg s request input).2) := by
  apply handleLegacy_handled
  intro s
  unfold handleProjRules
  split
  next => exact sendJson_ne_unauthorised _ (by decide) _
  next => exact (by decide : 200 ≠ 401)

theorem handleHistory_handled :
    Handled cfg s request input (handleHistory cfg s request input).1
      (some (handleHistory cfg s request input).2) := by
  apply handleLegacy_handled
  intro s
  unfold handleProjHistory
  split
  next => exact sendJson_ne_unauthorised _ (by decide) _
  next => exact (by decide : 200 ≠ 401)

theorem handleProject_unauthorised {route : ProjectRoutes.Route} {response : Response}
    (answered : (handleProject cfg s request route input).2 = some response)
    (status : response.status = 401) :
    (handleProject cfg s request route input).1.trace = s.trace := by
  have stores := handleAlone_refused answered (.inl status)
  have same := congrArg (fun stores => stores.2.2) stores
  simp only [ProjectRoutes.State.stores] at same
  simp only [handleProject, State.trace, same]

theorem handle_handled (s : State) (request : Request) (input : Input) :
    Handled cfg s request input (handle cfg s request input).1 (handle cfg s request input).2 := by
  unfold handle
  cases route : request.route with
  | page page => exact .untouched rfl
  | health => exact .untouched rfl
  | register => exact handleRegister_handled
  | login => exact handleLogin_handled
  | project route =>
    refine ⟨.inl rfl, fun answer answered status => ?_⟩
    exact .inl (handleProject_unauthorised answered status)
  | ingest => exact handleIngest_handled route
  | query => exact handleQuery_handled
  | stats => exact handleStats_handled
  | apps => exact handleApps_handled
  | metrics => exact handleMetrics_handled
  | rules => exact handleRules_handled
  | history => exact handleHistory_handled

theorem handle_leaks (leaks : Leaks cfg s request input) :
    ∃ response, (handle cfg s request input).2 = some response ∧ response.status = 401 ∧
      (handle cfg s request input).1.trace ≠ s.trace := by
  obtain ⟨status, charged⟩ := handleIngest_leaks leaks
  have ingest : handle cfg s request input =
      ((handleIngest cfg s request input).1, some (handleIngest cfg s request input).2) := by
    simp only [handle, leaks.1.route]
  rw [ingest]
  refine ⟨_, rfl, status, fun same => ?_⟩
  have buckets : (handleIngest cfg s request input).1.rateBuckets = s.rateBuckets :=
    congrArg (fun trace => trace.2.2.2.2) same
  exact charge_changes leaks.2 (charged.symm.trans buckets)

end Handle

/-! ### Every run -/

variable (start : State)

def OnceValid (labels : List Label) (final : State) (key : Bytes) : Prop :=
  ∃ before after middle, labels = before ++ after ∧ Run (Step cfg) start before middle ∧
    Run (Step cfg) middle after final ∧ Valid cfg middle key

/-- Every request answered 401 left no trace, and every bucket has the key of an accepted one. -/
structure NoTrace (labels : List Label) (final : State) : Prop where
  silent : ∀ before after middle next request input response,
    labels = before ++ .serve request input (some response) :: after →
    Run (Step cfg) start before middle →
    Step cfg middle (.serve request input (some response)) next → Run (Step cfg) next after final →
    response.status = 401 → next.trace = middle.trace
  known : ∀ before after middle key, labels = before ++ after → Run (Step cfg) start before middle →
    Run (Step cfg) middle after final → (middle.rateBuckets key).isSome →
    OnceValid cfg start before middle key

variable {cfg start}

theorem OnceValid.now {labels : List Label} {final : State} {key : Bytes}
    (run : Run (Step cfg) start labels final) (valid : Valid cfg final key) :
    OnceValid cfg start labels final key :=
  ⟨labels, [], final, (List.append_nil labels).symm, run, Run.refl, valid⟩

theorem OnceValid.snoc {labels : List Label} {label : Label} {final next : State} {key : Bytes}
    (once : OnceValid cfg start labels final key) (step : Step cfg final label next) :
    OnceValid cfg start (labels ++ [label]) next key := by
  obtain ⟨before, after, middle, rfl, first, second, valid⟩ := once
  exact ⟨before, after ++ [label], middle, List.append_assoc _ _ _, first, second.snoc step, valid⟩

def Leaked (cfg : Config) (start : State) (labels : List Label) (final : State) : Prop :=
  ∃ label, Took (Step cfg) start labels final label fun _ s => label.Leaks cfg s

/-- A bucket is new only for a key that is accepted, or that leaks as it finds the new bucket full. -/
theorem known_step {labels : List Label} {s next : State} {label : Label}
    (run : Run (Step cfg) start labels s) (step : Step cfg s label next)
    (known : ∀ key, (s.rateBuckets key).isSome → OnceValid cfg start labels s key)
    (closed : ¬label.Leaks cfg s) {key : Bytes} (present : (next.rateBuckets key).isSome) :
    OnceValid cfg start (labels ++ [label]) next key := by
  cases step with
  | background _ buckets =>
    rw [buckets] at present
    exact (known key present).snoc (.background next buckets ‹_›)
  | serve request input =>
    have step : Step cfg s _ _ := .serve s request input
    rcases (handle_handled s request input).buckets with same | ⟨charged, used⟩
    · rw [same] at present
      exact (known key present).snoc step
    · rw [charged] at present
      rcases isSome_charge present with rfl | old
      · rcases used with valid | unknown
        · exact (OnceValid.now run valid).snoc step
        · cases bucket : s.rateBuckets request.xApiKey with
          | none =>
            have full : 1 ≤ tokensAt (s.rateBuckets request.xApiKey) input.consumeNs := by
              rw [bucket]
              norm_num [tokensAt, TokenBucket.maxTokens]
            exact absurd ⟨unknown, full⟩ closed
          | some bucket => exact (known _ (by simp [bucket])).snoc step
      · exact (known key old).snoc step

theorem known_run {labels : List Label} {final : State} (fresh : ∀ key, start.rateBuckets key = none)
    (run : Run (Step cfg) start labels final) (closed : ¬Leaked cfg start labels final) {key : Bytes}
    (present : (final.rateBuckets key).isSome) : OnceValid cfg start labels final key := by
  refine run.invariant (fun labels s => ¬Leaked cfg start labels s →
    ∀ key, (s.rateBuckets key).isSome → OnceValid cfg start labels s key) ?_ ?_ closed key present
  · intro _ key present
    simp [fresh] at present
  · intro labels current label next run ih step closed key present
    have before : ¬Leaked cfg start labels current := by
      rintro ⟨other, took⟩
      exact closed ⟨other, took.snoc step⟩
    exact known_step run step (ih before)
      (fun leaks => closed ⟨label, Took.now run step leaks⟩) present

theorem leaked_trace {labels : List Label} {final : State}
    (leaked : Leaked cfg start labels final) : ¬NoTrace cfg start labels final := by
  intro clean
  obtain ⟨label, before, after, middle, next, rfl, first, step, second, leaks⟩ := leaked
  cases step with
  | background => exact leaks
  | serve request input =>
    obtain ⟨response, answered, status, changed⟩ := handle_leaks leaks
    have step : Step cfg middle _ _ := .serve middle request input
    rw [answered] at step clean
    exact changed (clean.silent before after middle _ request input response rfl first step second status)

/-- The requests answered 401 leave no trace, and every bucket has the key of an accepted one,
exactly if no log with an unknown key finds a token. -/
theorem no_trace_iff {labels : List Label} {final : State}
    (fresh : ∀ key, start.rateBuckets key = none) (run : Run (Step cfg) start labels final) :
    NoTrace cfg start labels final ↔ ¬Leaked cfg start labels final := by
  constructor
  · exact fun clean leaked => leaked_trace leaked clean
  · intro closed
    refine ⟨?_, ?_⟩
    · intro before after middle next request input response shape first step second status
      generalize served : some response = answer at shape step
      cases step with
      | serve =>
        rcases (handle_handled middle request input).unauthorised response served.symm status with
          same | leaks
        · exact same
        · refine absurd ⟨_, before, after, middle, _, shape, first,
            .serve middle request input, second, ?_⟩ closed
          exact leaks
    · rintro before after middle key rfl first second present
      refine known_run fresh first (fun ⟨label, took⟩ => ?_) present
      exact closed ⟨label, took.trans second⟩

def tenantConfig : Config where
  authMgr := none
  hasProjectStore := true
  hasTenantMgr := true
  persisted := fun _ => Store.empty
  dump := fun _ => some []
  apiKey := text "key"
  hasUserStore := true
  callbacks := ⟨true, true, true, true, true⟩
  hashPassword := fun _ _ => none
  page := fun _ => []
  ringCapacity := ringCapacity
  dumpsErrors := fun _ _ => rfl

def tenantServer : State where
  routes :=
    ⟨TenantManager.construct tenantConfig.persisted webStore [], UserStore.empty ⟨none, none⟩,
      fun _ => none, none, none⟩
  tsdb := Store.empty
  ring := []
  totalIngested := 0
  rateBuckets := fun _ => none

def logWith (key : Bytes) : Request where
  route := .ingest
  xApiKey := key
  authorization := []
  body := some (.object [(text "app", .string (text "a")), (text "level", .string (text "INFO")),
    (text "message", .string (text "m"))])
  app := none
  level := none
  last := none

def sampleInput : Input :=
  ⟨⟨1, 1⟩, 1, 1, none, ⟨none, none, 0, .sound 0, fun _ => none⟩, fun _ => 1, []⟩

/-- A log with the key of a project is charged to it; one without a key is refused before anything
is charged. -/
theorem no_trace_iff_valid_key : ∃ labels final,
    Run (Step tenantConfig) tenantServer labels final ∧
      NoTrace tenantConfig tenantServer labels final ∧ labels.length = 2 ∧
      (final.rateBuckets (text "k1")).isSome := by
  let accepted := (handle tenantConfig tenantServer (logWith (text "k1")) sampleInput).1
  have first : Step tenantConfig tenantServer _ accepted :=
    .serve tenantServer (logWith (text "k1")) sampleInput
  have second : Step tenantConfig accepted _ _ := .serve accepted (logWith []) sampleInput
  have run := (Run.single first).snoc second
  refine ⟨_, _, run, (no_trace_iff (fun _ => rfl) run).mpr ?_, rfl, rfl⟩
  rintro ⟨label, before, after, middle, next, shape, started, -, -, leaks⟩
  cases before with
  | nil =>
    obtain ⟨rfl, -⟩ := List.cons.inj shape
    rw [started.of_nil] at leaks
    exact absurd leaks.1.absent (by decide)
  | cons other before =>
    have member : label ∈ before ++ label :: after :=
      List.mem_append_right before List.mem_cons_self
    have rest : [_] = before ++ label :: after := (List.cons.inj shape).2
    rw [← rest, List.mem_singleton] at member
    subst member
    exact leaks.1.sent rfl

theorem unknown_key_leaves_bucket : ∃ labels final,
    Run (Step tenantConfig) tenantServer labels final ∧
      ¬NoTrace tenantConfig tenantServer labels final ∧
      (final.rateBuckets (text "x")).isSome := by
  have leaks : Leaks tenantConfig tenantServer (logWith (text "x")) sampleInput := by
    refine ⟨⟨rfl, rfl, rfl, by decide, rfl⟩, ?_⟩
    norm_num [tokensAt, tenantServer, TokenBucket.maxTokens]
  have step : Step tenantConfig tenantServer _ _ :=
    .serve tenantServer (logWith (text "x")) sampleInput
  have run := Run.single step
  refine ⟨_, _, run, leaked_trace ⟨_, Took.now Run.refl step leaks⟩, ?_⟩
  have charged := (handleIngest_leaks leaks).2
  change ((handleIngest tenantConfig tenantServer (logWith (text "x")) sampleInput).1.rateBuckets
    (text "x")).isSome
  rw [charged]
  rfl

end LogMonitor.HttpServer
