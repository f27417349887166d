import LogMonitor.NetworkIngester
import Mathlib.Data.Nat.Find

/-!
What `POST /ingest` of the network ingester reports, against what the ring
buffer took. The batch counts an entry also when its retry loop was left on the
stop flag, the single line counts without a look at the result of its push, and
a bad element makes a failure of a request whose first entries are in the buffer.
-/

namespace LogMonitor.NetworkIngester
open Library Library.ByteString HttpParser

/-- The loop around `try_push`, by whether an attempt finds room and whether the stop flag is read
as set after it did not. -/
def retryLoop (takes stops : Nat → Bool) : Nat → Nat → Option PushOutcome
  | 0, _ => none
  | fuel + 1, refused =>
    if takes refused then some (.accepted refused)
    else if stops refused then some .stopped
    else retryLoop takes stops fuel (refused + 1)

structure Occasions where
  /-- Whether an attempt for an entry finds room. -/
  takes : Nat → Nat → Bool
  /-- The stop flag after an attempt for an entry. -/
  stops : Nat → Nat → Bool
  /-- Every loop ends, as nothing is answered before. -/
  ends : ∀ entry, ∃ attempt, takes entry attempt || stops entry attempt

namespace Occasions

variable (o : Occasions)

def outcome (entry : Nat) : PushOutcome :=
  let attempt := Nat.find (o.ends entry)
  if o.takes entry attempt then .accepted attempt else .stopped

def environment (env : Environment) : Environment :=
  { env with
    retry := o.outcome
    tryPush := o.takes 0 0 }

/-- The buffer takes the entry before the stop flag is seen. -/
def Granted (entry : Nat) : Prop :=
  ∀ attempt, o.stops entry attempt = true → ∃ earlier ≤ attempt, o.takes entry earlier = true

theorem retryLoop_outcome (entry : Nat) :
    ∃ fuel, retryLoop (o.takes entry) (o.stops entry) fuel 0 = some (o.outcome entry) := by
  have loop (rounds refused : Nat) (last : refused + rounds = Nat.find (o.ends entry)) :
      retryLoop (o.takes entry) (o.stops entry) (rounds + 1) refused = some (o.outcome entry) := by
    induction rounds generalizing refused with
    | zero =>
      obtain rfl : refused = Nat.find (o.ends entry) := last
      have finished := Nat.find_spec (o.ends entry)
      rw [Bool.or_eq_true] at finished
      unfold retryLoop outcome
      dsimp only
      split
      next => rfl
      next full => rw [if_pos (finished.resolve_left full)]
    | succ rounds ih =>
      have early : ¬(o.takes entry refused || o.stops entry refused) = true :=
        Nat.find_min (o.ends entry) (by omega)
      rw [Bool.or_eq_true, not_or] at early
      rw [retryLoop, if_neg early.1, if_neg early.2]
      exact ih (refused + 1) (by omega)
  exact ⟨_, loop (Nat.find (o.ends entry)) 0 (Nat.zero_add _)⟩

theorem outcome_stopped_iff (entry : Nat) : o.outcome entry = .stopped ↔ ¬o.Granted entry := by
  have ended := Nat.find_spec (o.ends entry)
  have first {attempt : Nat} (found : (o.takes entry attempt || o.stops entry attempt) = true) :
      Nat.find (o.ends entry) ≤ attempt := Nat.find_min' (o.ends entry) found
  generalize attempt_eq : Nat.find (o.ends entry) = last at ended first
  unfold outcome
  rw [attempt_eq]
  dsimp only
  by_cases room : o.takes entry last = true
  · rw [if_pos room]
    refine iff_of_false nofun (not_not.mpr fun attempt stop => ?_)
    exact ⟨last, first (by rw [stop, Bool.or_true]), room⟩
  · rw [if_neg room]
    refine iff_of_true rfl fun granted => ?_
    rw [Bool.or_eq_true] at ended
    obtain ⟨earlier, below, taken⟩ := granted last (ended.resolve_left room)
    have least : last ≤ earlier := first (by rw [taken, Bool.true_or])
    obtain rfl : earlier = last := by omega
    exact room taken

end Occasions

def PushOutcome.counts : PushOutcome → Bool
  | .accepted _ => true
  | .stopped => false

theorem length_pushed (entry : LogEntry) (outcome : PushOutcome) :
    (outcome.pushed entry).length = if outcome.counts then 1 else 0 := by
  cases outcome with
  | accepted refused => rfl
  | stopped => rfl

def isString : Json → Bool
  | .string _ => true
  | _ => false

theorem getString_eq (json : Json) :
    (isString json = true ∧ ∃ value, json.getString = .ok value) ∨
      isString json = false ∧ ∃ error, json.getString = .error error := by
  cases json with
  | string value => exact .inl ⟨rfl, value, rfl⟩
  | null => exact .inr ⟨rfl, _, rfl⟩
  | boolean => exact .inr ⟨rfl, _, rfl⟩
  | integer => exact .inr ⟨rfl, _, rfl⟩
  | real => exact .inr ⟨rfl, _, rfl⟩
  | array => exact .inr ⟨rfl, _, rfl⟩
  | object => exact .inr ⟨rfl, _, rfl⟩

/-- The elements of a batch before the first that is no string. -/
def good (lines : List Json) : Nat := (lines.takeWhile isString).length

/-- A batch is read up to the first element that is no string: each element before it is counted,
and pushed by its loop. -/
theorem ingestLines_spec (env : Environment) (service : Bytes) (lines : List Json) (count : Nat)
    (s : State) :
    let result := ingestLines env service lines count s
    (if good lines = lines.length then result.2 = .ok (count + lines.length)
      else ∃ error, result.2 = .error error) ∧
    result.1.totalNetworkLines = s.totalNetworkLines + UInt64.ofNat (good lines) ∧
    ∃ accepted, result.1.pushed = s.pushed ++ accepted ∧ accepted.length =
      (List.range' count (good lines)).countP fun entry => (env.retry entry).counts := by
  induction lines generalizing count s with
  | nil => exact ⟨rfl, by simp [good, ingestLines], [], by simp [ingestLines, good]⟩
  | cons lineJson rest ih =>
    unfold ingestLines
    rcases getString_eq lineJson with ⟨string, line, read⟩ | ⟨other, error, failed⟩
    · have shape : good (lineJson :: rest) = good rest + 1 := by simp [good, string]
      obtain ⟨answer, total, accepted, pushed, counted⟩ := ih (count + 1) {
        totalNetworkLines := s.totalNetworkLines + 1
        pushed := s.pushed ++ (env.retry count).pushed
          (httpLineEntry service line (env.now count) s.totalNetworkLines) }
      rw [read, shape]
      refine ⟨?_, ?_, (env.retry count).pushed
          (httpLineEntry service line (env.now count) s.totalNetworkLines) ++ accepted, ?_, ?_⟩
      · have length : count + 1 + rest.length = count + (lineJson :: rest).length := by
          rw [List.length_cons]
          omega
        rw [← length]
        simpa only [List.length_cons, Nat.add_right_cancel_iff] using answer
      · rw [total, UInt64.ofNat_add, UInt64.add_comm (UInt64.ofNat (good rest))]
        exact UInt64.add_assoc _ _ _
      · rw [pushed, List.append_assoc]
      · rw [List.length_append, counted, List.range'_succ, List.countP_cons, length_pushed, add_comm]
    · have shape : good (lineJson :: rest) = 0 := by simp [good, other]
      rw [failed, shape]
      exact ⟨by simp, by simp, [], by simp⟩

theorem ingestLine_spec (env : Environment) (service : Bytes) (lineJson : Json) (s : State) :
    if isString lineJson then
      (ingestLine env service lineJson s).2 = .ok 1 ∧
        ∃ accepted, (ingestLine env service lineJson s).1.pushed = s.pushed ++ accepted ∧
          accepted.length = if env.tryPush then 1 else 0
    else ∃ error, ingestLine env service lineJson s = (s, .error error) := by
  unfold ingestLine
  rcases getString_eq lineJson with ⟨string, line, read⟩ | ⟨other, error, failed⟩
  · rw [if_pos string, read]
    refine ⟨rfl, _, rfl, ?_⟩
    split <;> rfl
  · rw [if_neg (by simp [other]), failed]
    exact ⟨error, rfl⟩

def ingested (count : Nat) : HttpResponse :=
  .ok (text "\x7b\"status\":\"ok\",\"ingested\":" ++ toDecimal count ++ text "\x7d")

theorem ingested_inj {count other : Nat} : ingested count = ingested other ↔ count = other := by
  refine ⟨fun same => ?_, fun same => by rw [same]⟩
  have bodies := congrArg HttpResponse.body same
  exact toDecimal_inj.mp (List.append_cancel_left (List.append_cancel_right bodies))

/-- A 200 with a number has had as many entries accepted, and a 400 has changed nothing. -/
structure TellsTruth (env : Environment) (request : HttpRequest) (s : State) : Prop where
  ok : ∀ count, (handleIngest env request s).2 = ingested count →
    ∃ accepted, (handleIngest env request s).1.pushed = s.pushed ++ accepted ∧
      accepted.length = count
  bad : (handleIngest env request s).2.statusCode = 400 → (handleIngest env request s).1 = s

/-- What the body of a request and the buffer must be like for the answer to be true: every string
of a batch is taken before the stop flag is seen; if some element is no string, nothing before it
is taken or counted; a single string finds room. -/
def Honest (parseJson : Bytes → Except Json.Error Json) (o : Occasions) (body : Bytes) : Prop :=
  match parseJson body with
  | .error _ => True
  | .ok json =>
    match json.valueString (text "service") (text "unknown") with
    | .error _ => True
    | .ok _ =>
      match json.member (text "lines"), json.member (text "line") with
      | some (.array lines), _ =>
        if good lines = lines.length then ∀ entry < lines.length, o.Granted entry
        else UInt64.ofNat (good lines) = 0 ∧ ∀ entry < good lines, ¬o.Granted entry
      | _, some lineJson => isString lineJson → o.takes 0 0 = true
      | _, none => True

section Answers

variable {env : Environment} {request : HttpRequest} {s : State}

theorem tellsTruth_ok {count : Nat} {after : State}
    (answer : ingest env request.body s = (after, .ok count)) {accepted : List LogEntry}
    (pushed : after.pushed = s.pushed ++ accepted) :
    TellsTruth env request s ↔ accepted.length = count := by
  have handled : handleIngest env request s = (after, ingested count) := by
    rw [handleIngest, answer]
    rfl
  constructor
  · intro truth
    obtain ⟨others, same, length⟩ := truth.ok count (by rw [handled])
    rw [handled, pushed] at same
    rw [List.append_cancel_left same, length]
  · intro length
    refine ⟨fun reported same => ?_, fun status => ?_⟩
    · rw [handled] at same ⊢
      exact ⟨accepted, pushed, length.trans (ingested_inj.mp same)⟩
    · rw [handled] at status
      exact absurd status (by decide : 200 ≠ 400)

theorem tellsTruth_bad {error : Json.Error} {after : State}
    (answer : ingest env request.body s = (after, .error error)) :
    TellsTruth env request s ↔ after = s := by
  have handled : handleIngest env request s =
      (after, .badRequest (text "JSON parse error: " ++ error.what)) := by
    rw [handleIngest, answer]
  constructor
  · intro truth
    have same := truth.bad (by rw [handled]; rfl)
    rwa [handled] at same
  · intro same
    refine ⟨fun reported ok => ?_, fun _ => by rwa [handled]⟩
    rw [handled] at ok
    have status := congrArg HttpResponse.statusCode ok
    exact absurd status (by decide : 400 ≠ 200)

end Answers

theorem counts_iff (o : Occasions) (entry : Nat) :
    (o.outcome entry).counts = true ↔ o.Granted entry := by
  have stopped := o.outcome_stopped_iff entry
  cases outcome : o.outcome entry with
  | accepted refused =>
    refine iff_of_true rfl (by_contra fun refusal => ?_)
    simp [stopped.mpr refusal] at outcome
  | stopped => exact iff_of_false nofun (stopped.mp outcome)

theorem tellsTruth_batch {env : Environment} {o : Occasions} {request : HttpRequest} {s : State}
    (service : Bytes) {lines : List Json}
    (answer : ingest (o.environment env) request.body s =
      ingestLines (o.environment env) service lines 0 s) :
    TellsTruth (o.environment env) request s ↔
      if good lines = lines.length then ∀ entry < lines.length, o.Granted entry
      else UInt64.ofNat (good lines) = 0 ∧ ∀ entry < good lines, ¬o.Granted entry := by
  obtain ⟨read, total, accepted, pushed, counted⟩ :=
    ingestLines_spec (o.environment env) service lines 0 s
  change accepted.length = (List.range' 0 (good lines)).countP (fun entry => (o.outcome entry).counts) at counted
  rw [← answer] at read total pushed
  by_cases whole : good lines = lines.length
  · rw [if_pos whole] at read ⊢
    have length : 0 + lines.length = (List.range' 0 (good lines)).length := by
      rw [List.length_range', whole, Nat.zero_add]
    rw [tellsTruth_ok (Prod.ext rfl read) pushed, counted, length, List.countP_eq_length]
    simp only [List.mem_range'_1, Nat.zero_le, true_and, Nat.zero_add, counts_iff, whole]
  · rw [if_neg whole] at read ⊢
    obtain ⟨error, failed⟩ := read
    rw [tellsTruth_bad (Prod.ext rfl failed), State.ext_iff, total, pushed, UInt64.add_eq_left,
      List.append_right_eq_self, ← List.length_eq_zero_iff, counted, List.countP_eq_zero]
    simp only [List.mem_range'_1, Nat.zero_le, true_and, Nat.zero_add, counts_iff]

theorem tellsTruth_single {env : Environment} {o : Occasions} {request : HttpRequest} {s : State}
    {service : Bytes} {lineJson : Json}
    (answer : ingest (o.environment env) request.body s =
      ingestLine (o.environment env) service lineJson s) :
    TellsTruth (o.environment env) request s ↔ (isString lineJson → o.takes 0 0 = true) := by
  have read := ingestLine_spec (o.environment env) service lineJson s
  rw [← answer] at read
  by_cases string : isString lineJson = true
  · rw [if_pos string] at read
    obtain ⟨counted, accepted, pushed, length⟩ := read
    change accepted.length = if o.takes 0 0 then 1 else 0 at length
    rw [tellsTruth_ok (Prod.ext rfl counted) pushed, length]
    cases room : o.takes 0 0 with
    | true => simp
    | false => simp [string]
  · rw [if_neg string] at read
    obtain ⟨error, failed⟩ := read
    exact (tellsTruth_bad failed).trans (iff_of_true rfl fun other => absurd other string)

/-- The answers tell the truth exactly under the condition. -/
theorem tellsTruth_iff (env : Environment) (o : Occasions) (request : HttpRequest) (s : State) :
    TellsTruth (o.environment env) request s ↔ Honest env.parseJson o request.body := by
  have same : (o.environment env).parseJson request.body = env.parseJson request.body := rfl
  have changeless (error : Json.Error)
      (answer : ingest (o.environment env) request.body s = (s, .error error)) :
      TellsTruth (o.environment env) request s ↔ True :=
    (tellsTruth_bad answer).trans (iff_of_true rfl trivial)
  unfold Honest
  cases parsed : env.parseJson request.body with
  | error error => exact changeless error (by rw [ingest, same, parsed])
  | ok json =>
    dsimp only
    cases named : json.valueString (text "service") (text "unknown") with
    | error error =>
      refine changeless error ?_
      simp only [ingest, same, parsed, named]
    | ok service =>
      dsimp only
      split
      next _ _ lines batch =>
        apply tellsTruth_batch service
        simp only [ingest, same, parsed, named, batch]
      next _ _ lineJson single other =>
        have answer : ingest (o.environment env) request.body s =
            ingestLine (o.environment env) service lineJson s := by
          simp only [ingest, same, parsed, named, single]
        exact tellsTruth_single answer
      next _ _ none other =>
        have answer : ingest (o.environment env) request.body s = (s, .ok 0) := by
          simp only [ingest, same, parsed, named, none]
        exact (tellsTruth_ok answer (List.append_nil s.pushed).symm).trans (iff_of_true rfl trivial)

def roomy : Occasions := ⟨fun _ _ => true, fun _ _ => false, fun _ => ⟨0, rfl⟩⟩

/-- A batch of a string and something else is answered 400 with the string in the buffer. -/
theorem partial_batch_accepted :
    let env : Environment := { quietEnvironment with
      parseJson := fun _ => .ok (.object [(text "lines", .array [.string (text "a"), .null])]) }
    let request : HttpRequest := ⟨text "POST", text "/ingest", text "HTTP/1.1", fun _ => none, []⟩
    ¬TellsTruth (roomy.environment env) request ⟨0, []⟩ ∧
      (handleIngest (roomy.environment env) request ⟨0, []⟩).2.statusCode = 400 ∧
      (handleIngest (roomy.environment env) request ⟨0, []⟩).1.pushed.length = 1 := by
  intro env request
  have status : (handleIngest (roomy.environment env) request ⟨0, []⟩).2.statusCode = 400 := rfl
  have length : (handleIngest (roomy.environment env) request ⟨0, []⟩).1.pushed.length = 1 := rfl
  refine ⟨fun truth => ?_, status, length⟩
  rw [truth.bad status] at length
  exact absurd length (by decide)

end LogMonitor.NetworkIngester
