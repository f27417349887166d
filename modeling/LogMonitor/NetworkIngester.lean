import LogMonitor.HttpParser
import LogMonitor.Library.Json
import LogMonitor.PushRetry

/-!
The HTTP side of the network ingester: reading a request off the socket, the
dispatch on method and path, and `POST /ingest`. What the handler calls and
does not compute itself is an environment: the JSON reader, the clock, the
fate of each retry loop, the status callback and the dashboard page.
-/

namespace LogMonitor.NetworkIngester
open Library Library.ByteString HttpParser

/-- How a retry loop ends: accepted after some refusals, or abandoned on the stop flag. -/
inductive PushOutcome where
  | accepted (refused : Nat)
  | stopped

structure Environment where
  parseJson : Bytes → Except Json.Error Json
  /-- The steady clock when the entry with this number is built. -/
  now : Nat → Int
  retry : Nat → PushOutcome
  /-- Whether the buffer takes the entry of the `line` form, which is tried once. -/
  tryPush : Bool
  /-- The callback throws, or returns the status text. -/
  statusCallback : Option (Except Bytes Bytes)
  dashboardHtml : Bytes

/-- What the handler changes: the counter, and what the ring buffer took. -/
@[ext]
structure State where
  totalNetworkLines : UInt64
  pushed : List LogEntry

inductive Escape where
  | library (exception : Exception)
  | callback (what : Bytes)

def library {α : Type} (result : Except Exception α) : Except Escape α :=
  match result with
  | .ok value => .ok value
  | .error exception => .error (.library exception)

def PushOutcome.pushed (entry : LogEntry) : PushOutcome → List LogEntry
  | .accepted refused => [PushRetry.attempted entry refused]
  | .stopped => []

/-- The loop over the `lines` array; `count` entries went before. -/
def ingestLines (env : Environment) (service : Bytes) :
    List Json → Nat → State → State × Except Json.Error Nat
  | [], count, s => (s, .ok count)
  | lineJson :: rest, count, s =>
    match lineJson.getString with
    | .error error => (s, .error error)
    | .ok line =>
      let entry := httpLineEntry service line (env.now count) s.totalNetworkLines
      ingestLines env service rest (count + 1) {
        totalNetworkLines := s.totalNetworkLines + 1
        pushed := s.pushed ++ (env.retry count).pushed entry }

def ingestLine (env : Environment) (service : Bytes) (lineJson : Json) (s : State) :
    State × Except Json.Error Nat :=
  match lineJson.getString with
  | .error error => (s, .error error)
  | .ok line =>
    let entry := httpLineEntry service line (env.now 0) s.totalNetworkLines
    ({ totalNetworkLines := s.totalNetworkLines + 1
       pushed := s.pushed ++ if env.tryPush then [entry] else [] }, .ok 1)

/-- The body of the `try` in `handle_ingest`, with the count it reports. -/
def ingest (env : Environment) (body : Bytes) (s : State) : State × Except Json.Error Nat :=
  match env.parseJson body with
  | .error error => (s, .error error)
  | .ok json =>
    match json.valueString (text "service") (text "unknown") with
    | .error error => (s, .error error)
    | .ok service =>
      match json.member (text "lines"), json.member (text "line") with
      | some (.array lines), _ => ingestLines env service lines 0 s
      | _, some lineJson => ingestLine env service lineJson s
      | _, none => (s, .ok 0)

def handleIngest (env : Environment) (request : HttpRequest) (s : State) : State × HttpResponse :=
  match ingest env request.body s with
  | (s, .ok count) =>
    (s, .ok (text "\x7b\"status\":\"ok\",\"ingested\":" ++ toDecimal count ++ text "\x7d"))
  | (s, .error error) => (s, .badRequest (text "JSON parse error: " ++ error.what))

def handleStatus (env : Environment) : Except Escape HttpResponse :=
  match env.statusCallback with
  | none => .ok (.ok (text "\x7b\"status\":\"running\"\x7d"))
  | some (.ok status) => .ok (.ok status)
  | some (.error what) => .error (.callback what)

/-- Where the code takes the length field to be: the first of one spelling anywhere in the
buffer, or else the first of the other. -/
def lengthField (raw : Bytes) : Option Nat :=
  match find (text "Content-Length:") raw 0 with
  | some pos => some pos
  | none => find (text "content-length:") raw 0

/-- The length of the slice that is read as the value of the field at `clPos`. -/
def fieldSize (raw : Bytes) (clPos : Nat) : Nat :=
  sizeSub (sizeSub ((find (text "\r\n") raw clPos).getD npos) clPos) 16

def contentLength (clVal : Bytes) : Nat :=
  match stoull clVal with
  | .ok length => length
  | .error _ => 0

def requestComplete (raw : Bytes) : Except Exception Bool :=
  match find (text "\r\n\r\n") raw 0 with
  | none => .ok false
  | some headerEnd =>
    match lengthField raw with
    | none => .ok true
    | some clPos => do
      let clVal ← substr raw (clPos + 16) (fieldSize raw clPos)
      -- the sum of the two sizes wraps
      return (headerEnd + 4 + contentLength clVal) % 2 ^ 64 ≤ raw.length

/-- The reading loop with `rounds` rounds left. An empty chunk is the end of the stream. -/
def receive : Nat → List Bytes → Bytes → Except Exception Bytes
  | 0, _, raw => .ok raw
  | _ + 1, [], raw => .ok raw
  | rounds + 1, chunk :: chunks, raw =>
    if chunk = [] then .ok raw
    else do
      if ← requestComplete (raw ++ chunk) then return raw ++ chunk
      receive rounds chunks (raw ++ chunk)

def dispatch (env : Environment) (request : HttpRequest) (s : State) :
    Except Escape (State × HttpResponse) :=
  if request.method = text "POST" ∧ request.path = text "/ingest" then
    .ok (handleIngest env request s)
  else if request.method = text "GET" ∧ request.path = text "/status" then do
    return (s, ← handleStatus env)
  else if request.method = text "GET" ∧ request.path = text "/health" then
    .ok (s, .ok (text "\x7b\"status\":\"ok\"\x7d"))
  else if request.method = text "GET" ∧
      (request.path = text "/dashboard" ∨ request.path = text "/") then
    .ok (s, .html env.dashboardHtml)
  else .ok (s, .notFound)

/-- What the handler does with the bytes it has read; the result holds the bytes it sends. -/
def respond (env : Environment) (rawRequest : Bytes) (s : State) :
    Except Escape (State × Bytes) := do
  match ← library (parse rawRequest) with
  | none => return (s, (HttpResponse.badRequest (text "Malformed HTTP request")).serialize)
  | some request =>
    let (s, response) ← dispatch env request s
    return (s, response.serialize)

def handleHttpClient (env : Environment) (chunks : List Bytes) (s : State) :
    Except Escape (State × Bytes) := do
  let rawRequest ← library (receive 100 chunks [])
  respond env rawRequest s

/-- The buffer has the end of the headers, and the token of the length field is its end. -/
def BareToken (raw : Bytes) : Prop :=
  (find (text "\r\n\r\n") raw 0).isSome ∧ ∃ pos, lengthField raw = some pos ∧ pos + 15 = raw.length

/-- The buffer has the end of the headers and as many bytes after it as announced. -/
def Complete (raw : Bytes) : Prop :=
  ∃ headerEnd, find (text "\r\n\r\n") raw 0 = some headerEnd ∧
    ∀ pos, lengthField raw = some pos →
      (headerEnd + 4 + contentLength ((raw.drop (pos + 16)).take (fieldSize raw pos))) % 2 ^ 64 ≤
        raw.length

theorem lengthField_fits {raw : Bytes} {pos : Nat} (field : lengthField raw = some pos) :
    pos + 15 ≤ raw.length := by
  unfold lengthField at field
  cases upper : find (text "Content-Length:") raw 0 with
  | some first =>
    rw [upper] at field
    obtain rfl := Option.some.inj field
    exact (find_some upper).2.2.1
  | none =>
    rw [upper] at field
    exact (find_some field).2.2.1

/-- The check throws exactly on a bare token, and otherwise decides completeness. -/
theorem requestComplete_spec (raw : Bytes) :
    (BareToken raw → requestComplete raw = .error .outOfRange) ∧
    (¬BareToken raw → ∃ complete, requestComplete raw = .ok complete ∧
      (complete = true ↔ Complete raw)) := by
  unfold requestComplete BareToken Complete
  cases blank : find (text "\r\n\r\n") raw 0 with
  | none => exact ⟨fun bare => by simp at bare, fun _ => ⟨false, rfl, by simp⟩⟩
  | some headerEnd =>
    simp only
    cases field : lengthField raw with
    | none => exact ⟨fun bare => by simp at bare, fun _ => ⟨true, rfl, by simp⟩⟩
    | some pos =>
      have fits := lengthField_fits field
      constructor
      · rintro ⟨_, last, same, final⟩
        obtain rfl := Option.some.inj same
        simp only [substr_error (show raw.length < pos + 16 by omega)]
        rfl
      · intro whole
        have inside : pos + 16 ≤ raw.length := by
          by_contra outside
          exact whole ⟨rfl, pos, rfl, by omega⟩
        simp only [substr_ok inside]
        refine ⟨_, rfl, ?_⟩
        simp

section Reading

def after (raw : Bytes) (reads : List Bytes) (k : Nat) : Bytes := raw ++ (reads.take k).flatten

theorem after_zero (raw : Bytes) (reads : List Bytes) : after raw reads 0 = raw := by
  simp [after]

theorem after_succ (raw chunk : Bytes) (reads : List Bytes) (k : Nat) :
    after raw (chunk :: reads) (k + 1) = after (raw ++ chunk) reads k := by
  simp [after]

def Onward (raw : Bytes) (reads : List Bytes) (k : Nat) : Prop :=
  k ≤ reads.length ∧ ∀ j, 0 < j → j < k → ¬Complete (after raw reads j)

theorem Onward.succ {raw chunk : Bytes} {reads : List Bytes} {k : Nat}
    (onward : Onward (raw ++ chunk) reads k) (more : ¬Complete (raw ++ chunk)) :
    Onward raw (chunk :: reads) (k + 1) := by
  refine ⟨Nat.succ_le_succ onward.1, ?_⟩
  intro j positive below
  obtain ⟨j, rfl⟩ := Nat.exists_eq_succ_of_ne_zero positive.ne'
  rw [Nat.succ_eq_add_one, after_succ]
  rcases Nat.eq_zero_or_pos j with rfl | later
  · rwa [after_zero]
  · exact onward.2 j later (by omega)

def Breaks (raw : Bytes) (reads : List Bytes) : Prop :=
  ∃ k, 0 < k ∧ Onward raw reads k ∧ BareToken (after raw reads k)

/-- The loop ends after `k` chunks: the first completion or the last chunk. -/
def EndsAt (raw : Bytes) (reads : List Bytes) (k : Nat) : Prop :=
  Onward raw reads k ∧ (∀ j, 0 < j → j ≤ k → ¬BareToken (after raw reads j)) ∧
    (k = reads.length ∨ 0 < k ∧ Complete (after raw reads k))

theorem EndsAt.nil (raw : Bytes) : EndsAt raw [] 0 :=
  ⟨⟨le_rfl, fun j positive below => by omega⟩, fun j positive below => by omega, .inl rfl⟩

theorem Breaks.succ {raw chunk : Bytes} {reads : List Bytes} (breaks : Breaks (raw ++ chunk) reads)
    (more : ¬Complete (raw ++ chunk)) : Breaks raw (chunk :: reads) := by
  obtain ⟨k, _, onward, token⟩ := breaks
  exact ⟨k + 1, Nat.succ_pos k, onward.succ more, by rwa [after_succ]⟩

theorem EndsAt.succ {raw chunk : Bytes} {reads : List Bytes} {k : Nat}
    (ends : EndsAt (raw ++ chunk) reads k) (more : ¬Complete (raw ++ chunk))
    (whole : ¬BareToken (raw ++ chunk)) : EndsAt raw (chunk :: reads) (k + 1) := by
  refine ⟨ends.1.succ more, ?_, ?_⟩
  · intro j positive below
    obtain ⟨j, rfl⟩ := Nat.exists_eq_succ_of_ne_zero positive.ne'
    rw [Nat.succ_eq_add_one, after_succ]
    rcases Nat.eq_zero_or_pos j with rfl | later
    · rwa [after_zero]
    · exact ends.2.1 j later (by omega)
  · rw [after_succ]
    rcases ends.2.2 with rfl | ⟨_, complete⟩
    · exact .inl rfl
    · exact .inr ⟨Nat.succ_pos k, complete⟩

/-- The loop ends in one of two ways: with a bare token, or with what arrived up to the
first completion or the last chunk. -/
theorem receive_cases (rounds : Nat) (chunks : List Bytes) (raw : Bytes) {reads : List Bytes}
    (delivered : (chunks.takeWhile (· ≠ [])).take rounds = reads) :
    (Breaks raw reads ∧ receive rounds chunks raw = .error .outOfRange) ∨
    (∃ k, EndsAt raw reads k ∧ receive rounds chunks raw = .ok (after raw reads k)) := by
  induction rounds generalizing chunks raw reads with
  | zero =>
    rw [List.take_zero] at delivered
    subst delivered
    exact .inr ⟨0, .nil raw, by rw [after_zero]; rfl⟩
  | succ rounds ih =>
    cases chunks with
    | nil =>
      subst delivered
      exact .inr ⟨0, .nil raw, by rw [after_zero]; rfl⟩
    | cons chunk chunks =>
      by_cases closed : chunk = []
      · rw [List.takeWhile_cons_of_neg (by simpa using closed), List.take_nil] at delivered
        subst delivered
        exact .inr ⟨0, .nil raw, by rw [after_zero]; exact if_pos closed⟩
      · rw [List.takeWhile_cons_of_pos (by simpa using closed), List.take_succ_cons] at delivered
        subst delivered
        obtain ⟨bareCase, wholeCase⟩ := requestComplete_spec (raw ++ chunk)
        by_cases bare : BareToken (raw ++ chunk)
        · refine .inl ⟨⟨1, one_pos, ⟨by simp, fun j positive below => by omega⟩, ?_⟩, ?_⟩
          · rwa [after_succ, after_zero]
          · rw [receive, if_neg closed, bareCase bare]
            rfl
        · obtain ⟨complete, check, decided⟩ := wholeCase bare
          cases complete with
          | true =>
            refine .inr ⟨1,
              ⟨⟨by simp, fun j positive below => by omega⟩, ?_, .inr ⟨one_pos, ?_⟩⟩, ?_⟩
            · intro j positive below
              obtain rfl : j = 1 := by omega
              rwa [after_succ, after_zero]
            · rw [after_succ, after_zero]
              exact decided.mp rfl
            · rw [receive, if_neg closed, check, after_succ, after_zero]
              rfl
          | false =>
            have more : ¬Complete (raw ++ chunk) := fun done => by simpa using decided.mpr done
            have next : receive (rounds + 1) (chunk :: chunks) raw =
                receive rounds chunks (raw ++ chunk) := by
              rw [receive, if_neg closed, check]
              rfl
            rw [next]
            rcases ih chunks (raw ++ chunk) rfl with ⟨breaks, failed⟩ | ⟨k, ends, done⟩
            · exact .inl ⟨breaks.succ more, failed⟩
            · exact .inr ⟨k + 1, ends.succ more bare, by rwa [after_succ]⟩

/-- A loop that ended met no bare token, not even at a boundary it never looked at. -/
theorem EndsAt.not_breaks {raw : Bytes} {reads : List Bytes} {k : Nat} (ends : EndsAt raw reads k) :
    ¬Breaks raw reads := by
  rintro ⟨j, positive, onward, token⟩
  rcases Nat.lt_or_ge k j with later | within
  · rcases ends.2.2 with rfl | ⟨started, complete⟩
    · exact absurd onward.1 (by omega)
    · exact onward.2 k started later complete
  · exact ends.2.1 j positive within token

theorem EndsAt.unique {raw : Bytes} {reads : List Bytes} {k l : Nat} (first : EndsAt raw reads k)
    (second : EndsAt raw reads l) : k = l := by
  wlog ordered : k < l generalizing k l
  · rcases Nat.lt_or_ge l k with reversed | equal
    · exact (this second first reversed).symm
    · omega
  · rcases first.2.2 with rfl | ⟨started, complete⟩
    · exact absurd second.1.1 (by omega)
    · exact absurd complete (second.1.2 k started ordered)

/-- The chunks that the 100 calls of `recv` can deliver. -/
def reads (chunks : List Bytes) : List Bytes := (chunks.takeWhile (· ≠ [])).take 100

def StatusRequest (raw : Bytes) : Prop :=
  ∃ request, parse raw = .ok (some request) ∧ request.method = text "GET" ∧
    request.path = text "/status"

end Reading

theorem dispatch_returns_iff (env : Environment) (request : HttpRequest) (s : State) :
    (∃ result, dispatch env request s = .ok result) ↔
      (request.method = text "GET" → request.path = text "/status" →
        ∀ what, env.statusCallback ≠ some (.error what)) := by
  have apart : text "GET" ≠ text "POST" := by decide
  unfold dispatch
  split_ifs with ingest status health page
  · exact ⟨fun _ get => absurd (get.symm.trans ingest.1) apart, fun _ => ⟨_, rfl⟩⟩
  · unfold handleStatus
    cases callback : env.statusCallback with
    | none => simp [bind, Except.bind, pure, Except.pure]
    | some outcome =>
      cases outcome with
      | ok status => simp [bind, Except.bind, pure, Except.pure]
      | error what => simp [bind, Except.bind, status]
  all_goals exact ⟨fun _ get path => absurd ⟨get, path⟩ status, fun _ => ⟨_, rfl⟩⟩

theorem respond_returns_iff (env : Environment) (raw : Bytes) (s : State) :
    (∃ result, respond env raw s = .ok result) ↔
      (StatusRequest raw → ∀ what, env.statusCallback ≠ some (.error what)) := by
  obtain ⟨parsed, parsing⟩ := parse_ok raw
  unfold respond StatusRequest
  rw [parsing]
  cases parsed with
  | none => simp [library, bind, Except.bind, pure, Except.pure]
  | some request =>
    have served := dispatch_returns_iff env request s
    have same : (∃ result, (do
        let (s, response) ← dispatch env request s
        return (s, response.serialize) : Except Escape (State × Bytes)) = .ok result) ↔
        ∃ result, dispatch env request s = .ok result := by
      cases dispatch env request s <;> simp [bind, Except.bind, pure, Except.pure]
    constructor
    · rintro returns ⟨_, found, get, path⟩
      obtain rfl := Option.some.inj (Except.ok.inj found)
      exact served.mp (same.mp returns) get path
    · intro quiet
      exact same.mpr (served.mpr fun get path => quiet ⟨request, rfl, get, path⟩)

/-- The handler returns, whatever arrives, if and only if no boundary it gets to has a bare
token, and the status callback returns when the request asks for it. -/
theorem handleHttpClient_returns_iff (env : Environment) (chunks : List Bytes) (s : State) :
    (∃ result, handleHttpClient env chunks s = .ok result) ↔
      ¬Breaks [] (reads chunks) ∧
      ∀ k, EndsAt [] (reads chunks) k → StatusRequest (after [] (reads chunks) k) →
        ∀ what, env.statusCallback ≠ some (.error what) := by
  unfold handleHttpClient
  rcases receive_cases 100 chunks [] rfl with ⟨breaks, failed⟩ | ⟨k, ends, done⟩
  · rw [failed]
    constructor
    · rintro ⟨result, ok⟩
      simp [library, bind, Except.bind] at ok
    · rintro ⟨whole, _⟩
      exact absurd breaks whole
  · rw [done]
    change (∃ result, respond env (after [] (reads chunks) k) s = .ok result) ↔ _
    rw [respond_returns_iff]
    constructor
    · intro quiet
      refine ⟨ends.not_breaks, ?_⟩
      intro l other
      rw [other.unique ends]
      exact quiet
    · rintro ⟨_, quiet⟩
      exact quiet k ends

def quietEnvironment : Environment where
  parseJson := fun _ => .ok .null
  now := fun _ => 0
  retry := fun _ => .accepted 0
  tryPush := true
  statusCallback := none
  dashboardHtml := []

/-- A request whose last bytes are the bare token ends the process. -/
theorem bareToken_escapes :
    handleHttpClient quietEnvironment [text "GET / HTTP/1.1\r\n\r\nContent-Length:"] ⟨0, []⟩ =
      .error (.library .outOfRange) := by
  have thrown : receive 100 [text "GET / HTTP/1.1\r\n\r\nContent-Length:"] [] =
      .error .outOfRange := by decide
  unfold handleHttpClient
  rw [thrown]
  rfl

end LogMonitor.NetworkIngester
