import LogMonitor.HttpServerTrace
import LogMonitor.ProjectFaults

/-!
The Python client against the HTTP server: `ingest_batch` sends its entries one
by one, other clients are served in between, and the network may fail before or
after the server has handled a request. Timestamps are those of 64 bits.
-/

namespace LogMonitor.Sdk
open Library Library.ByteString Library.Transition Tsdb ProjectRoutes Server HttpServer

/-- The arguments of `ingest`. -/
structure Entry where
  app : Bytes
  level : Bytes
  message : Bytes
  timestamp : Option Int64

/-- `payload` in `ingest`. -/
def Entry.payload (entry : Entry) : Json := .object [
  (text "app", .string entry.app),
  (text "level", .string entry.level),
  (text "message", .string entry.message),
  (text "timestamp", .integer (entry.timestamp.getD 0).toInt)]

def ingestRequest (apiKey : Bytes) (entry : Entry) : HttpServer.Request where
  route := .ingest
  xApiKey := apiKey
  authorization := []
  body := some entry.payload
  app := none
  level := none
  last := none

/-- `resp.json()`, which raises on what is no JSON, and how a value is written into a text. -/
structure Python where
  parse : Bytes → Option Json
  format : Json → Bytes

inductive Raised where
  | logMonitorError (message : Bytes)
  /-- An exception of `requests`. -/
  | requestException
deriving DecidableEq

variable (python : Python)

/-- `msg` in `_raise_for_status`. -/
def errorText (response : Response) : Bytes :=
  match python.parse response.body with
  | some (.object members) =>
    ((Json.object members).member (text "error")).elim response.body python.format
  | _ => response.body

/-- The dash of the message, in UTF-8. -/
def emDash : Bytes := [0xE2, 0x80, 0x94]

/-- `_raise_for_status`: the message of the error it raises. -/
def raiseForStatus (response : Response) (operation : Bytes) : Option Bytes :=
  if response.status = 401 then
    some (operation ++ text ": Authentication failed " ++ emDash ++ text " check your API key")
  else if response.status = 429 then
    some (operation ++ text ": Rate limit exceeded (100 req/min)")
  else if 400 ≤ response.status then
    some (operation ++ text ": Server returned " ++ toDecimal response.status ++ text ": " ++
      errorText python response)
  else none

def received (response : Response) : Except Raised Json :=
  match raiseForStatus python response (text "ingest") with
  | some message => .error (.logMonitorError message)
  | none =>
    match python.parse response.body with
    | some json => .ok json
    | none => .error .requestException

inductive Outcome where
  | running
  | returned (results : List Json)
  | raised (failure : Raised)

structure System where
  server : HttpServer.State
  todo : List Entry
  results : List Json
  outcome : Outcome
  /-- What the server has taken of the batch, oldest first. -/
  taken : List TsdbEntry

def initial (server : HttpServer.State) (entries : List Entry) : System :=
  ⟨server, entries, [], .running, []⟩

def Entry.log (entry : Entry) (systemNs : Int64) : TsdbEntry where
  appName := entry.app
  level := entry.level
  message := entry.message
  timestampNs :=
    let tsClient := entry.timestamp.getD 0
    if 0 < tsClient then tsClient * 1000000000 else systemNs

variable (cfg : HttpServer.Config) (apiKey : Bytes)

/-- The log if the request gets past the checks, and so into a store and to the pipeline. -/
def takes (server : HttpServer.State) (entry : Entry) (input : HttpServer.Input) :
    List TsdbEntry :=
  let log := entry.log input.clocks.systemNs
  match (vet cfg server apiKey log input.consumeNs).2 with
  | none => [log]
  | some _ => []

def System.receive (s : System) (rest : List Entry) : Except Raised Json → System
  | .ok json => { s with
      todo := rest
      results := s.results ++ [json] }
  | .error failure => { s with outcome := .raised failure }

inductive Label where
  /-- The server without this client. -/
  | other (label : HttpServer.Label)
  | answered (entry : Entry) (input : HttpServer.Input)
  /-- An error that the HTTP library answers without the handler, such as for a body too long. -/
  | bounced (entry : Entry) (response : Response)
  /-- No answer comes; the server has handled the request or not. -/
  | lost (entry : Entry) (handled : Option HttpServer.Input)
  | finish

inductive Step : System → Label → System → Prop
  | other {s : System} {label : HttpServer.Label} {next : HttpServer.State}
      (step : HttpServer.Step cfg s.server label next) :
      Step s (.other label) { s with server := next }
  | answered {s : System} {entry : Entry} {rest : List Entry} {input : HttpServer.Input}
      {response : Response} (running : s.outcome = .running) (first : s.todo = entry :: rest)
      (answer : (handle cfg s.server (ingestRequest apiKey entry) input).2 = some response) :
      Step s (.answered entry input) (System.receive { s with
        server := (handle cfg s.server (ingestRequest apiKey entry) input).1
        taken := s.taken ++ takes cfg apiKey s.server entry input } rest
        (received python response))
  | bounced {s : System} {entry : Entry} {rest : List Entry} {response : Response}
      (running : s.outcome = .running) (first : s.todo = entry :: rest)
      (error : 400 ≤ response.status) :
      Step s (.bounced entry response) (s.receive rest (received python response))
  | missed {s : System} {entry : Entry} {rest : List Entry} (running : s.outcome = .running)
      (first : s.todo = entry :: rest) :
      Step s (.lost entry none) { s with outcome := .raised .requestException }
  | unheard {s : System} {entry : Entry} {rest : List Entry} {input : HttpServer.Input}
      (running : s.outcome = .running) (first : s.todo = entry :: rest) :
      Step s (.lost entry (some input)) { s with
        server := (handle cfg s.server (ingestRequest apiKey entry) input).1
        taken := s.taken ++ takes cfg apiKey s.server entry input
        outcome := .raised .requestException }
  | finish {s : System} (running : s.outcome = .running) (done : s.todo = []) :
      Step s .finish { s with outcome := .returned s.results }

section Server

variable {cfg apiKey}

theorem payload_complete (entry : Entry) : complete entry.payload = true := rfl

theorem readFields_payload (entry : Entry) : readFields entry.payload =
    .ok (entry.app, entry.level, entry.message, entry.timestamp.getD 0) := by
  have read : readFields entry.payload = .ok (entry.app, entry.level, entry.message,
    Int64.ofInt (entry.timestamp.getD 0).toInt) := rfl
  rw [read, Int64.ofInt_toInt]

theorem handleIngest_payload (server : HttpServer.State) (entry : Entry)
    (input : HttpServer.Input) :
    HttpServer.handleIngest cfg server (ingestRequest apiKey entry) input =
      match vet cfg server apiKey (entry.log input.clocks.systemNs) input.consumeNs with
      | (after, some refusal) => (after, refusal)
      | (after, none) => accept cfg after entry.app entry.level
          (pipelineEntry entry.app entry.message input.clocks) := by
  simp only [HttpServer.handleIngest, ingestRequest, payload_complete, readFields_payload,
    Bool.not_true, Bool.false_eq_true, if_false]
  rfl

theorem handle_ingestRequest (server : HttpServer.State) (entry : Entry)
    (input : HttpServer.Input) : handle cfg server (ingestRequest apiKey entry) input =
      ((HttpServer.handleIngest cfg server (ingestRequest apiKey entry) input).1,
        some (HttpServer.handleIngest cfg server (ingestRequest apiKey entry) input).2) :=
  rfl

/-- The message of an error is written if it is ASCII text. -/
theorem jsonError_status {status : Nat} {message : Bytes} (ascii : ∀ c ∈ message, c < 128) :
    (jsonError cfg.toConfig status message).status = status := by
  have written := cfg.dumpsErrors message ascii
  unfold jsonError sendJson
  cases dumped : cfg.dump (.object [(text "error", .string message)]) with
  | some body => rfl
  | none =>
    rw [dumped] at written
    cases written

theorem rate_status :
    (jsonError cfg.toConfig 429 (text "Rate limit exceeded: 100 requests per minute")).status =
      429 :=
  jsonError_status (by decide +kernel)

theorem authenticate_refusal {server : HttpServer.State} {key : Bytes} {nowNs : Int}
    {refusal : Response} (refused : (authenticate cfg server key nowNs).2 = some refusal) :
    refusal.status = 401 ∨ refusal.status = 429 := by
  unfold authenticate at refused
  by_cases foreign : key ≠ cfg.apiKey
  · rw [if_pos foreign] at refused
    obtain rfl := Option.some.inj refused
    exact .inl (jsonError_status (by decide +kernel))
  · rw [if_neg foreign] at refused
    by_cases allowed : (RateLimiter.charge server.rateBuckets key nowNs).1 = true
    · simp [allowed] at refused
    · simp only [if_neg allowed, Option.some.injEq] at refused
      subst refused
      exact .inr rate_status

theorem vet_refusal {server : HttpServer.State} {key : Bytes} {log : TsdbEntry} {nowNs : Int}
    {refusal : Response} (refused : (vet cfg server key log nowNs).2 = some refusal) :
    refusal.status = 401 ∨ refusal.status = 429 := by
  unfold vet at refused
  by_cases tenants : cfg.hasTenantMgr = true
  · rw [if_pos tenants] at refused
    by_cases missing : key = []
    · rw [if_pos missing] at refused
      obtain rfl := Option.some.inj refused
      exact .inl (jsonError_status (by decide +kernel))
    · rw [if_neg missing] at refused
      by_cases allowed : (RateLimiter.charge server.rateBuckets key nowNs).1 = true
      · simp only [allowed, Bool.not_true, Bool.false_eq_true, if_false] at refused
        split at refused
        next => cases refused
        next =>
          obtain rfl := Option.some.inj refused
          exact .inl (jsonError_status (by decide +kernel))
      · simp only [allowed, Bool.not_false, if_true, Option.some.injEq] at refused
        subst refused
        exact .inr rate_status
  · rw [if_neg tenants] at refused
    have checked := @authenticate_refusal cfg server key nowNs
    split at refused
    next middle other same =>
      obtain rfl := Option.some.inj refused
      exact checked (congrArg Prod.snd same)
    next => cases refused

/-- The server can write its answers, and the client reads what it writes. -/
structure Answers (cfg : HttpServer.Config) (python : Python) : Prop where
  writes : ∀ json : Json, json.Writable → (cfg.dump json).isSome
  reads : ∀ json bytes, cfg.dump json = some bytes → (python.parse bytes).isSome

structure Entry.Legible (entry : Entry) : Prop where
  app : Utf8 entry.app
  level : Utf8 entry.level

theorem accept_answer (answers : Answers cfg python) {entry : Entry} (legible : entry.Legible)
    (server : HttpServer.State) (line : LogEntry) :
    ∃ json, received python (accept cfg server entry.app entry.level line).2 = .ok json := by
  have names : Utf8 (text "app") ∧ Utf8 (text "ingested") ∧ Utf8 (text "level") ∧
      Utf8 (text "status") ∧ Utf8 (text "accepted") := by decide
  let answer (ingested : UInt64) : Json := .object [
    (text "app", .string entry.app),
    (text "ingested", .integer ingested.toNat),
    (text "level", .string entry.level),
    (text "status", .string (text "accepted"))]
  have written := answers.writes (answer (server.totalIngested + 1))
    (by simp [answer, names, legible.app, legible.level])
  obtain ⟨body, dumped⟩ := Option.isSome_iff_exists.mp written
  obtain ⟨json, parsed⟩ := Option.isSome_iff_exists.mp (answers.reads _ _ dumped)
  apply Exists.intro json
  have sent : (accept cfg server entry.app entry.level line).2 = ⟨200, body⟩ := by
    have shape : (accept cfg server entry.app entry.level line).2 =
      sendJson cfg.toConfig 200 (answer (server.totalIngested + 1)) := rfl
    rw [shape, sendJson, dumped]
  rw [sent]
  simp [received, raiseForStatus, parsed]

def authenticationFailed : Bytes :=
  text "ingest: Authentication failed " ++ emDash ++ text " check your API key"

def rateLimitExceeded : Bytes := text "ingest: Rate limit exceeded (100 req/min)"

theorem received_refusal {response : Response}
    (refused : response.status = 401 ∨ response.status = 429) :
    received python response = .error (.logMonitorError
      (if response.status = 429 then rateLimitExceeded else authenticationFailed)) := by
  unfold received raiseForStatus
  rcases refused with same | same
  · rw [if_pos same, same]
    rfl
  · rw [same]
    rfl

theorem received_error {response : Response} (error : 400 ≤ response.status) :
    ∃ message, received python response = .error (.logMonitorError message) := by
  unfold received raiseForStatus
  split
  next message raised => exact ⟨message, rfl⟩
  next fine =>
    split at fine
    next => cases fine
    next =>
      split at fine
      next => cases fine
      next => cases fine

/-- One request of the client: taken and answered, or refused and not taken. -/
theorem exchange (answers : Answers cfg python) {entry : Entry} (legible : entry.Legible)
    (server : HttpServer.State) (input : HttpServer.Input) :
    ∃ response, (handle cfg server (ingestRequest apiKey entry) input).2 = some response ∧
      ((takes cfg apiKey server entry input = [entry.log input.clocks.systemNs] ∧
          ∃ json, received python response = .ok json) ∨
        takes cfg apiKey server entry input = [] ∧
          (response.status = 401 ∨ response.status = 429)) := by
  rw [handle_ingestRequest, handleIngest_payload]
  refine ⟨_, rfl, ?_⟩
  unfold takes
  dsimp only
  have refusal := @vet_refusal cfg server apiKey (entry.log input.clocks.systemNs) input.consumeNs
  cases checked : vet cfg server apiKey (entry.log input.clocks.systemNs) input.consumeNs with
  | mk after answer =>
    rw [checked] at refusal
    cases answer with
    | none => exact .inl ⟨rfl, accept_answer python answers legible after _⟩
    | some response => exact .inr ⟨rfl, refusal rfl⟩

end Server

section Prefix

variable {python} {cfg} {apiKey} {server : HttpServer.State} {entries : List Entry}
  {labels : List Label} {s next : System} {label : Label}

def Logs (entry : Entry) (log : TsdbEntry) : Prop := ∃ systemNs, log = entry.log systemNs

inductive Reached (entries : List Entry) : System → Prop
  | running {s : System} {done : List Entry} (running : s.outcome = .running)
      (sent : entries = done ++ s.todo) (taken : List.Forall₂ Logs done s.taken)
      (answered : s.results.length = done.length) : Reached entries s
  | returned {s : System} {results : List Json} (returned : s.outcome = .returned results)
      (taken : List.Forall₂ Logs entries s.taken) (answered : results.length = entries.length) :
      Reached entries s
  | refused {s : System} {message : Bytes} {done rest : List Entry} {entry : Entry}
      (raised : s.outcome = .raised (.logMonitorError message))
      (sent : entries = done ++ entry :: rest) (taken : List.Forall₂ Logs done s.taken) :
      Reached entries s
  | lost {s : System} {done rest : List Entry} {entry : Entry}
      (raised : s.outcome = .raised .requestException) (sent : entries = done ++ entry :: rest)
      (taken : List.Forall₂ Logs done s.taken ∨ List.Forall₂ Logs (done ++ [entry]) s.taken) :
      Reached entries s

theorem taken_snoc {done : List Entry} {taken : List TsdbEntry}
    (before : List.Forall₂ Logs done taken) (entry : Entry) (systemNs : Int64) :
    List.Forall₂ Logs (done ++ [entry]) (taken ++ [entry.log systemNs]) :=
  List.rel_append before (.cons ⟨systemNs, rfl⟩ .nil)

theorem Reached.sending {entry : Entry} {rest : List Entry} (reached : Reached entries s)
    (here : s.outcome = .running) (first : s.todo = entry :: rest) :
    ∃ done, entries = done ++ entry :: rest ∧ List.Forall₂ Logs done s.taken ∧
      s.results.length = done.length := by
  cases reached with
  | @running done running sent taken answered =>
    rw [first] at sent
    exact ⟨done, sent, taken, answered⟩
  | returned returned =>
    rw [here] at returned
    cases returned
  | refused raised =>
    rw [here] at raised
    cases raised
  | lost raised =>
    rw [here] at raised
    cases raised

theorem reached_step (answers : Answers cfg python) (legible : ∀ entry ∈ entries, entry.Legible)
    (reached : Reached entries s) (step : Step python cfg apiKey s label next) :
    Reached entries next := by
  cases step with
  | other step =>
    cases reached with
    | running running sent taken answered => exact .running running sent taken answered
    | returned returned taken answered => exact .returned returned taken answered
    | refused raised sent taken => exact .refused raised sent taken
    | lost raised sent taken => exact .lost raised sent taken
  | @answered entry rest input response running first answer =>
    obtain ⟨done, sent, taken, count⟩ := reached.sending running first
    have own : entry.Legible := legible entry (by simp [sent])
    obtain ⟨other, same, ⟨took, json, read⟩ | ⟨took, refused⟩⟩ :=
      exchange python answers own s.server input
    · obtain rfl := Option.some.inj (answer.symm.trans same)
      rw [read, took]
      refine @Reached.running entries _ (done ++ [entry]) ?_ ?_ ?_ ?_
      · exact running
      · simp [sent, System.receive]
      · exact taken_snoc taken entry _
      · simp [System.receive, count]
    · obtain rfl := Option.some.inj (answer.symm.trans same)
      rw [received_refusal python refused, took]
      refine .refused rfl sent ?_
      simpa [System.receive] using taken
  | @bounced entry rest response running first error =>
    obtain ⟨done, sent, taken, -⟩ := reached.sending running first
    obtain ⟨message, raised⟩ := received_error python error
    rw [raised]
    exact .refused rfl sent taken
  | @missed entry rest running first =>
    obtain ⟨done, sent, taken, -⟩ := reached.sending running first
    exact .lost rfl sent (.inl taken)
  | @unheard entry rest input running first =>
    obtain ⟨done, sent, taken, -⟩ := reached.sending running first
    have own : entry.Legible := legible entry (by simp [sent])
    obtain ⟨other, -, ⟨took, -⟩ | ⟨took, -⟩⟩ := exchange python answers own s.server input
    · rw [took]
      exact .lost rfl sent (.inr (taken_snoc taken entry _))
    · rw [took, List.append_nil]
      exact .lost rfl sent (.inl taken)
  | finish running done =>
    cases reached with
    | running _ sent taken answered =>
      rw [done, List.append_nil] at sent
      subst sent
      exact .returned rfl taken answered
    | returned returned =>
      rw [running] at returned
      cases returned
    | refused raised =>
      rw [running] at raised
      cases raised
    | lost raised =>
      rw [running] at raised
      cases raised

theorem reached_run (answers : Answers cfg python) (legible : ∀ entry ∈ entries, entry.Legible)
    (run : Run (Step python cfg apiKey) (initial server entries) labels s) :
    Reached entries s := by
  induction run with
  | refl => exact .running rfl rfl .nil rfl
  | snoc _ last ih => exact reached_step answers legible ih last

/-- What `ingest_batch` has brought about when it is over: all of the entries once and in order if
it returns, those before the one that failed if it raises, and maybe that one if the network
failed. -/
theorem batch_front (answers : Answers cfg python) (legible : ∀ entry ∈ entries, entry.Legible)
    (run : Run (Step python cfg apiKey) (initial server entries) labels s) :
    (∀ results, s.outcome = .returned results →
      List.Forall₂ Logs entries s.taken ∧ results.length = entries.length) ∧
    (∀ message, s.outcome = .raised (.logMonitorError message) →
      ∃ done entry rest, entries = done ++ entry :: rest ∧ List.Forall₂ Logs done s.taken) ∧
    (s.outcome = .raised .requestException →
      ∃ done entry rest, entries = done ++ entry :: rest ∧
        (List.Forall₂ Logs done s.taken ∨ List.Forall₂ Logs (done ++ [entry]) s.taken)) := by
  cases reached_run answers legible run with
  | running running =>
    rw [running]
    refine ⟨fun results same => ?_, fun message same => ?_, fun same => ?_⟩ <;> cases same
  | returned returned taken answered =>
    rw [returned]
    refine ⟨fun results same => ?_, fun message same => ?_, fun same => ?_⟩
    · obtain rfl := Outcome.returned.inj same
      exact ⟨taken, answered⟩
    · cases same
    · cases same
  | refused raised sent taken =>
    rw [raised]
    refine ⟨fun results same => ?_, fun message _ => ⟨_, _, _, sent, taken⟩, fun same => ?_⟩
    · cases same
    · cases same
  | lost raised sent taken =>
    rw [raised]
    refine ⟨fun results same => ?_, fun message same => ?_, fun _ => ⟨_, _, _, sent, taken⟩⟩
    · cases same
    · cases same

end Prefix

section Rate

variable {python} {cfg} {apiKey} {server : HttpServer.State} {entries : List Entry}
  {labels : List Label} {s next : System} {label : Label}

/-- When the client's requests charge the bucket of the key. -/
def times : List Label → List Int :=
  List.filterMap fun label => match label with
    | .answered _ input => some input.consumeNs
    | .lost _ handled => handled.map HttpServer.Input.consumeNs
    | _ => none

/-- Nobody else uses the key, and the HTTP library hands every request on. -/
def Label.Alone (apiKey : Bytes) : Label → Prop
  | .other (.serve request _ _) => request.xApiKey ≠ apiKey
  | .bounced _ _ => False
  | _ => True

/-- The bucket has what the requests that were taken have left of a full one. -/
def Level (bucket : Option TokenBucket) (used : Nat) (times : List Int) : Prop :=
  match bucket with
  | none => used = 0
  | some bucket =>
    0 < bucket.lastRefillNs ∧ bucket.lastRefillNs ∈ times ∧ (100 - used : Rat) ≤ bucket.tokens

theorem Level.tokens {bucket : Option TokenBucket} {used : Nat} {times : List Int} {nowNs : Int}
    (level : Level bucket used times) (later : ∀ time ∈ times, time ≤ nowNs) :
    (100 - used : Rat) ≤ tokensAt bucket nowNs := by
  have some_ : (0 : Rat) ≤ used := Nat.cast_nonneg used
  cases bucket with
  | none =>
    have unused : used = 0 := level
    simp [tokensAt, unused, TokenBucket.maxTokens]
  | some bucket =>
    obtain ⟨positive, listed, left⟩ := level
    have passed : (0 : Rat) ≤ (nowNs - bucket.lastRefillNs : Rat) := by
      have order := later _ listed
      rw [sub_nonneg]
      exact_mod_cast order
    have flown : (0 : Rat) ≤ (nowNs - bucket.lastRefillNs : Rat) / 1000000000 *
        TokenBucket.refillPerSecond := by
      apply mul_nonneg
      · exact div_nonneg passed (by norm_num)
      · norm_num [TokenBucket.refillPerSecond]
    simp only [tokensAt, positive, if_true]
    apply le_min
    · norm_num [TokenBucket.maxTokens]
    · linarith

theorem charge_own (buckets : RateBuckets) (key : Bytes) (nowNs : Int) :
    (RateLimiter.charge buckets key nowNs).2 key = some ⟨tokensAt (buckets key) nowNs -
      if (RateLimiter.charge buckets key nowNs).1 = true then 1 else 0, nowNs⟩ := by
  have updated : (RateLimiter.charge buckets key nowNs).2 key =
      some (((buckets key).getD {}).consume nowNs).2 := Function.update_self ..
  have told : (RateLimiter.charge buckets key nowNs).1 =
      (((buckets key).getD {}).consume nowNs).1 := rfl
  rw [updated, told]
  cases buckets key with
  | none => rfl
  | some bucket =>
    rw [Option.getD_some, consume_eq]
    by_cases empty : tokensAt (some bucket) nowNs < 1
    · rw [if_pos empty]
      simp
    · rw [if_neg empty]
      simp

theorem Level.charge {buckets : RateBuckets} {key : Bytes} {used : Nat} {times : List Int}
    {nowNs : Int} (level : Level (buckets key) used times) (positive : 0 < nowNs)
    (later : ∀ time ∈ times, time ≤ nowNs) :
    ((RateLimiter.charge buckets key nowNs).1 = true →
      Level ((RateLimiter.charge buckets key nowNs).2 key) (used + 1) (times ++ [nowNs])) ∧
    ((RateLimiter.charge buckets key nowNs).1 = false → 100 ≤ used) := by
  have tokens := level.tokens later
  constructor
  · intro allowed
    rw [charge_own, if_pos allowed]
    refine ⟨positive, by simp, ?_⟩
    push_cast
    linarith
  · intro refused
    have few : ¬(1 : Rat) ≤ tokensAt (buckets key) nowNs := by
      rw [← charge_fst, refused]
      exact Bool.false_ne_true
    by_contra more
    have bound : (used : Rat) ≤ 99 := by exact_mod_cast Nat.le_of_lt_succ (Nat.lt_of_not_le more)
    exact few (by linarith)

inductive Checked (server : HttpServer.State) (key : Bytes) (nowNs : Int) :
    HttpServer.State × Option Response → Prop
  | uncharged {after : HttpServer.State} {response : Response}
      (buckets : after.rateBuckets = server.rateBuckets) (status : response.status = 401) :
      Checked server key nowNs (after, some response)
  | limited {after : HttpServer.State} {response : Response}
      (refused : (RateLimiter.charge server.rateBuckets key nowNs).1 = false)
      (status : response.status = 429) : Checked server key nowNs (after, some response)
  | unknown {after : HttpServer.State} {response : Response} (status : response.status = 401) :
      Checked server key nowNs (after, some response)
  | passed {after : HttpServer.State}
      (buckets : after.rateBuckets = (RateLimiter.charge server.rateBuckets key nowNs).2)
      (allowed : (RateLimiter.charge server.rateBuckets key nowNs).1 = true) :
      Checked server key nowNs (after, none)

theorem authenticate_checked (server : HttpServer.State) (key : Bytes) (nowNs : Int) :
    Checked server key nowNs (authenticate cfg server key nowNs) := by
  unfold authenticate
  by_cases foreign : key ≠ cfg.apiKey
  · rw [if_pos foreign]
    exact .uncharged rfl (jsonError_status (by decide +kernel))
  · rw [if_neg foreign]
    dsimp only
    cases allowed : (RateLimiter.charge server.rateBuckets key nowNs).1 with
    | true => exact .passed rfl allowed
    | false => exact .limited allowed rate_status

theorem vet_checked (server : HttpServer.State) (key : Bytes) (log : TsdbEntry) (nowNs : Int) :
    Checked server key nowNs (vet cfg server key log nowNs) := by
  unfold vet
  by_cases tenants : cfg.hasTenantMgr = true
  · rw [if_pos tenants]
    by_cases missing : key = []
    · rw [if_pos missing]
      exact .uncharged rfl (jsonError_status (by decide +kernel))
    · rw [if_neg missing]
      dsimp only
      cases allowed : (RateLimiter.charge server.rateBuckets key nowNs).1 with
      | true =>
        simp only [Bool.not_true, Bool.false_eq_true, if_false]
        split
        next => exact .passed rfl allowed
        next => exact .unknown (jsonError_status (by decide +kernel))
      | false => exact .limited allowed rate_status
  · rw [if_neg tenants]
    have checked := @authenticate_checked cfg server key nowNs
    split
    next after refusal same => rwa [same] at checked
    next after same =>
      rw [same] at checked
      cases checked with
      | passed buckets allowed =>
        unfold insertCb
        split
        next => exact .passed buckets allowed
        next => exact .passed buckets allowed

/-- The client goes on only after a charge that was allowed, and is told of the limit only after
one that was not. -/
theorem exchange_rate (answers : Answers cfg python) {entry : Entry} (legible : entry.Legible)
    {server : HttpServer.State} {input : HttpServer.Input} {response : Response}
    (answer : (handle cfg server (ingestRequest apiKey entry) input).2 = some response) :
    (takes cfg apiKey server entry input = [entry.log input.clocks.systemNs] ∧
      (RateLimiter.charge server.rateBuckets apiKey input.consumeNs).1 = true ∧
      (handle cfg server (ingestRequest apiKey entry) input).1.rateBuckets =
        (RateLimiter.charge server.rateBuckets apiKey input.consumeNs).2 ∧
      ∃ json, received python response = .ok json) ∨
    takes cfg apiKey server entry input = [] ∧ ∃ message,
      received python response = .error (.logMonitorError message) ∧
      (message = rateLimitExceeded →
        (RateLimiter.charge server.rateBuckets apiKey input.consumeNs).1 = false) := by
  have other : authenticationFailed ≠ rateLimitExceeded := by decide +kernel
  rw [handle_ingestRequest, handleIngest_payload] at answer ⊢
  unfold takes
  dsimp only
  have checked := @vet_checked cfg server apiKey (entry.log input.clocks.systemNs) input.consumeNs
  generalize vet cfg server apiKey (entry.log input.clocks.systemNs) input.consumeNs = result
    at checked answer ⊢
  have refused {status : Nat} (told : response.status = status) (unauthorised : status = 401) :
      ∃ message, received python response = .error (.logMonitorError message) ∧
        (message = rateLimitExceeded →
          (RateLimiter.charge server.rateBuckets apiKey input.consumeNs).1 = false) := by
    have read := received_refusal python (.inl (told.trans unauthorised))
    rw [told, unauthorised, if_neg (by decide)] at read
    exact ⟨authenticationFailed, read, fun same => absurd same other⟩
  cases checked with
  | uncharged buckets status =>
    obtain rfl := Option.some.inj answer
    exact .inr ⟨rfl, refused status rfl⟩
  | limited barred status =>
    obtain rfl := Option.some.inj answer
    exact .inr ⟨rfl, _, received_refusal python (.inr status), fun _ => barred⟩
  | unknown status =>
    obtain rfl := Option.some.inj answer
    exact .inr ⟨rfl, refused status rfl⟩
  | passed buckets allowed =>
    obtain rfl := Option.some.inj answer
    exact .inl ⟨rfl, allowed, buckets, accept_answer python answers legible _ _⟩

/-- While the batch goes on, the bucket has what its entries have left; the limit comes when they
have taken a hundred. -/
structure Paced (apiKey : Bytes) (labels : List Label) (s : System) : Prop where
  level : s.outcome = .running → Level (s.server.rateBuckets apiKey) s.taken.length (times labels)
  limited : s.outcome = .raised (.logMonitorError rateLimitExceeded) → 100 ≤ s.taken.length

theorem times_snoc (labels : List Label) (label : Label) :
    times (labels ++ [label]) = times labels ++ times [label] :=
  List.filterMap_append

theorem other_bucket {before after : HttpServer.State} {label : HttpServer.Label}
    (step : HttpServer.Step cfg before label after) (alone : (Label.other label).Alone apiKey) :
    after.rateBuckets apiKey = before.rateBuckets apiKey := by
  cases step with
  | background other buckets ingested => rw [buckets]
  | serve request input =>
    rcases (handle_handled before request input).buckets with same | ⟨charged, -⟩
    · rw [same]
    · have different : apiKey ≠ request.xApiKey := Ne.symm alone
      rw [charged, RateLimiter.charge_other _ different]

theorem paced_step (answers : Answers cfg python) (legible : ∀ entry ∈ entries, entry.Legible)
    (reached : Reached entries s) (paced : Paced apiKey labels s)
    (step : Step python cfg apiKey s label next) (alone : label.Alone apiKey)
    (positive : ∀ time ∈ times [label], 0 < time)
    (later : ∀ time ∈ times labels, ∀ now ∈ times [label], time ≤ now) :
    Paced apiKey (labels ++ [label]) next := by
  cases step with
  | other step =>
    constructor
    · intro running
      rw [times_snoc, other_bucket step alone]
      simpa [times] using paced.level running
    · exact paced.limited
  | @answered entry rest input response running first answer =>
    obtain ⟨done, sent, -, -⟩ := reached.sending running first
    have own : entry.Legible := legible entry (by simp [sent])
    have now : input.consumeNs ∈ times [Label.answered entry input] := List.mem_cons_self ..
    obtain ⟨next, limit⟩ := (paced.level running).charge (positive _ now)
      fun time listed => later time listed _ now
    rcases exchange_rate answers own answer with
      ⟨took, allowed, buckets, json, read⟩ | ⟨took, message, read, told⟩
    · rw [read, took]
      constructor
      · intro _
        have more := next allowed
        rw [times_snoc]
        simp only [System.receive, List.length_append, List.length_singleton, buckets]
        exact more
      · intro raised
        have both := running.symm.trans raised
        cases both
    · rw [read, took]
      constructor
      · intro still
        cases still
      · intro raised
        have same : Outcome.raised (.logMonitorError message) =
          .raised (.logMonitorError rateLimitExceeded) := raised
        have which : message = rateLimitExceeded := by simpa using same
        simpa [System.receive] using limit (told which)
  | bounced running first error => exact absurd alone id
  | missed running first =>
    constructor
    · intro still
      cases still
    · intro raised
      cases raised
  | unheard running first =>
    constructor
    · intro still
      cases still
    · intro raised
      cases raised
  | finish running done =>
    constructor
    · intro still
      cases still
    · intro raised
      cases raised

theorem paced_run (answers : Answers cfg python) (legible : ∀ entry ∈ entries, entry.Legible)
    (fresh : server.rateBuckets apiKey = none)
    (run : Run (Step python cfg apiKey) (initial server entries) labels s)
    (alone : ∀ label ∈ labels, label.Alone apiKey) (positive : ∀ time ∈ times labels, 0 < time)
    (ordered : (times labels).Pairwise (· ≤ ·)) : Paced apiKey labels s := by
  induction run with
  | refl =>
    constructor
    · intro _
      simp only [initial, fresh]
      rfl
    · intro raised
      cases raised
  | @snoc labels current next label run last ih =>
    rw [times_snoc] at positive ordered
    obtain ⟨before, -, between⟩ := List.pairwise_append.mp ordered
    have earlier := ih (fun other listed => alone other (List.mem_append_left _ listed))
      (fun time listed => positive time (List.mem_append_left _ listed)) before
    exact paced_step answers legible (reached_run answers legible run) earlier last
      (alone label (by simp)) (fun time listed => positive time (List.mem_append_right _ listed))
      between

theorem Reached.taken_lt {message : Bytes} (reached : Reached entries s)
    (raised : s.outcome = .raised (.logMonitorError message)) :
    s.taken.length < entries.length := by
  cases reached with
  | running here =>
    rw [here] at raised
    cases raised
  | returned here =>
    rw [here] at raised
    cases raised
  | lost here =>
    rw [here] at raised
    cases raised
  | refused _ sent taken =>
    rw [← taken.length_eq, sent, List.length_append, List.length_cons]
    omega

/-- A batch whose key nobody else is using comes to the limit only after a hundred of its entries,
so one of a hundred entries never does. -/
theorem batch_limit (answers : Answers cfg python) (legible : ∀ entry ∈ entries, entry.Legible)
    (fresh : server.rateBuckets apiKey = none)
    (run : Run (Step python cfg apiKey) (initial server entries) labels s)
    (alone : ∀ label ∈ labels, label.Alone apiKey) (positive : ∀ time ∈ times labels, 0 < time)
    (ordered : (times labels).Pairwise (· ≤ ·)) :
    (s.taken.length < 100 ∨ entries.length ≤ 100) →
      s.outcome ≠ .raised (.logMonitorError rateLimitExceeded) := by
  intro few limited
  have many := (paced_run answers legible fresh run alone positive ordered).limited limited
  have left := (reached_run answers legible run).taken_lt limited
  omega

end Rate

section Example

theorem dumped_error (message : Bytes) (_ascii : ∀ c ∈ message, c < 128) :
    (dumped (.object [(text "error", .string message)])).isSome :=
  rfl

def plainConfig : HttpServer.Config where
  authMgr := none
  hasProjectStore := false
  hasTenantMgr := false
  persisted := fun _ => Store.empty
  dump := dumped
  apiKey := text "changeme"
  hasUserStore := false
  callbacks := ⟨true, true, true, true, true⟩
  hashPassword := fun _ _ => none
  page := fun _ => []
  ringCapacity := 65536
  dumpsErrors := dumped_error

def plainServer : HttpServer.State where
  routes :=
    ⟨⟨ProjectStore.empty ⟨none, none⟩, fun _ => none⟩, UserStore.empty ⟨none, none⟩,
      fun _ => none, none, none⟩
  tsdb := Store.empty
  ring := []
  totalIngested := 0
  rateBuckets := fun _ => none

def diskFull : Entry := ⟨text "web", text "ERROR", text "Disk full", none⟩

def acceptedBody : Bytes :=
  text "\x7b\"app\":\"web\",\"ingested\":1,\"level\":\"ERROR\",\"status\":\"accepted\"\x7d"

def acceptedJson : Json := .object [
  (text "app", .string (text "web")), (text "ingested", .integer 1),
  (text "level", .string (text "ERROR")), (text "status", .string (text "accepted"))]

def samplePython : Python where
  parse := fun body => if body = acceptedBody then some acceptedJson else some .null
  format := fun _ => []

def atSecond (consumeNs : Int) : HttpServer.Input :=
  ⟨⟨1700000000000000000, 1⟩, consumeNs, 1700000000, none,
    ⟨none, none, 0, .sound 0, fun _ => none⟩, fun _ => 1, []⟩

theorem plainConfig_answers : Answers plainConfig samplePython := by
  constructor
  · intro json _
    change (dumped json).isSome
    unfold dumped
    split <;> rfl
  · intro json bytes _
    unfold samplePython
    dsimp only
    split <;> rfl

theorem diskFull_legible : diskFull.Legible := ⟨by decide, by decide⟩

theorem diskFull_accepted (entries : List Entry) :
    Step samplePython plainConfig (text "changeme") (initial plainServer (diskFull :: entries))
      (.answered diskFull (atSecond 1)) {
        server := (handle plainConfig plainServer (ingestRequest (text "changeme") diskFull)
          (atSecond 1)).1
        todo := entries
        results := [acceptedJson]
        outcome := .running
        taken := [diskFull.log 1700000000000000000] } := by
  have answer : (handle plainConfig plainServer (ingestRequest (text "changeme") diskFull)
      (atSecond 1)).2 = some ⟨200, acceptedBody⟩ := by
    decide +kernel
  have took : takes plainConfig (text "changeme") plainServer diskFull (atSecond 1) =
      [diskFull.log 1700000000000000000] := by
    decide +kernel
  have read : received samplePython ⟨200, acceptedBody⟩ = .ok acceptedJson := by
    simp [received, raiseForStatus, samplePython]
  have step := @Step.answered samplePython plainConfig (text "changeme")
    (initial plainServer (diskFull :: entries)) diskFull entries (atSecond 1) _ rfl rfl answer
  rw [read] at step
  have taken : (initial plainServer (diskFull :: entries)).taken ++
      takes plainConfig (text "changeme") plainServer diskFull (atSecond 1) =
        [diskFull.log 1700000000000000000] := took
  rw [← took]
  exact step

/-- Of two entries the answer to the second is lost. -/
theorem batch_front_unheard : ∃ labels s,
    Run (Step samplePython plainConfig (text "changeme"))
      (initial plainServer [diskFull, diskFull]) labels s ∧ s.taken.length = 2 ∧
    ∃ done entry rest, [diskFull, diskFull] = done ++ entry :: rest ∧
      (List.Forall₂ Logs done s.taken ∨ List.Forall₂ Logs (done ++ [entry]) s.taken) := by
  have legible : ∀ entry ∈ [diskFull, diskFull], entry.Legible := by
    intro entry listed
    rcases List.mem_cons.mp listed with rfl | again
    · exact diskFull_legible
    · rw [List.mem_singleton.mp again]
      exact diskFull_legible
  have run := (Run.single (diskFull_accepted [diskFull])).snoc
    (@Step.unheard samplePython plainConfig (text "changeme") _ diskFull [] (atSecond 2) rfl rfl)
  refine ⟨_, _, run, ?_, (batch_front plainConfig_answers legible run).2.2 rfl⟩
  have took : takes plainConfig (text "changeme") (handle plainConfig plainServer
      (ingestRequest (text "changeme") diskFull) (atSecond 1)).1 diskFull (atSecond 2) =
      [diskFull.log 1700000000000000000] := by
    decide +kernel
  simp only [took]
  rfl

theorem batch_limit_single : ∃ labels s,
    Run (Step samplePython plainConfig (text "changeme")) (initial plainServer [diskFull])
      labels s ∧
    s.taken.length = 1 ∧ s.outcome ≠ .raised (.logMonitorError rateLimitExceeded) := by
  have legible : ∀ entry ∈ [diskFull], entry.Legible := by
    intro entry listed
    rw [List.mem_singleton.mp listed]
    exact diskFull_legible
  have run := Run.single (diskFull_accepted [])
  refine ⟨_, _, run, rfl, batch_limit plainConfig_answers legible rfl run ?_ ?_ ?_ (.inr ?_)⟩
  · intro label listed
    rw [List.mem_singleton.mp listed]
    trivial
  · intro time listed
    rw [List.mem_singleton.mp listed]
    decide
  · exact List.pairwise_singleton ..
  · decide

end Example

end LogMonitor.Sdk
