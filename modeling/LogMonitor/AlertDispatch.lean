import LogMonitor.AlertDelivery
import LogMonitor.AlertRulesRun
import LogMonitor.Library.JsonText
import LogMonitor.ThreadPoolJobs

/-!
From a firing to whoever is told of it: `fire_alert` dispatches its alert to the
delivery, whose workers format it for the URL of its rule and try it up to three
times. How JSON values are written, and what libcurl makes of a request, is up to
the libraries: it may follow redirects to further requests, and without the sender
and the recipient, which are never set, it need not transfer a mail at all.
-/

namespace LogMonitor.AlertDispatch
open Library Library.ByteString Library.Transition Library.Completion AlertRulesEngine ThreadPool
open AlertDelivery (Attempt deliver record maxRetries attempts)

section Formats

inductive WebhookType where
  | generic
  | slack
  | discord
  | smtp
deriving DecidableEq

def detectType (url : Bytes) : WebhookType :=
  if (find (text "hooks.slack.com") url 0).isSome then .slack
  else if (find (text "discord.com/api/webhooks") url 0).isSome then .discord
  else if url.take 7 = text "smtp://" ∨ url.take 8 = text "smtps://" then .smtp
  else .generic

def formatGeneric (a : FiredAlert) : Json := .object [
  (text "rule_id", .string a.ruleId),
  (text "app", .string a.app),
  (text "level", .string a.level),
  (text "count", .integer a.count),
  (text "threshold", .integer a.threshold.toInt),
  (text "window_seconds", .integer a.windowSeconds.toInt),
  (text "fired_at", .integer (a.firedAtNs.tdiv 1000000000)),
  (text "message", .string a.message)]

def slackField (title value : Bytes) : Json := .object [
  (text "title", .string title),
  (text "value", .string value),
  (text "short", .boolean true)]

def formatSlack (a : FiredAlert) : Json := .object [
  (text "text", .string (text ":rotating_light: *ALERT*: " ++ a.message)),
  (text "attachments", .array [.object [
    (text "color", .string
      (if a.level = text "ERROR" ∨ a.level = text "CRITICAL" then text "danger"
        else text "warning")),
    (text "fields", .array [
      slackField (text "Rule") a.ruleId,
      slackField (text "App") a.app,
      slackField (text "Level") a.level,
      slackField (text "Count") (text (toString a.count))])]])]

def discordField (name value : Bytes) : Json := .object [
  (text "name", .string name),
  (text "value", .string value),
  (text "inline", .boolean true)]

def formatDiscord (a : FiredAlert) : Json := .object [
  (text "content", .string (text "**ALERT**: " ++ a.message)),
  (text "embeds", .array [.object [
    (text "title", .string (text "Rule: " ++ a.ruleId)),
    (text "description", .string a.message),
    (text "color", .integer (if a.level = text "CRITICAL" then 0xCC0000 else 0xFF6600)),
    (text "fields", .array [
      discordField (text "App") a.app,
      discordField (text "Level") a.level])]])]

def crlf : Bytes := [13, 10]

def mail (a : FiredAlert) : Bytes :=
  text "Subject: [LogMonitor] Alert: " ++ a.ruleId ++ crlf ++
    text "Content-Type: text/plain" ++ crlf ++ crlf ++ a.message ++ crlf

/-- What `curl_easy_perform` is called with. -/
inductive Request where
  | post (url body contentType : Bytes)
  | upload (url payload : Bytes)

def request (dump : Json → Option Bytes) (a : FiredAlert) : Option Request :=
  let json := text "application/json"
  match detectType a.notifyUrl with
  | .slack => (dump (formatSlack a)).map fun body => .post a.notifyUrl body json
  | .discord => (dump (formatDiscord a)).map fun body => .post a.notifyUrl body json
  | .smtp => some (.upload a.notifyUrl (mail a))
  | .generic => (dump (formatGeneric a)).map fun body => .post a.notifyUrl body json

/-- `curl_easy_init` fails, or `curl_easy_perform` ends with or without an error and with this code
of the last response. -/
inductive Curl where
  | noHandle
  | performed (ok : Bool) (httpCode : Nat)

/-- `send_via_curl` and `send_smtp`, by what libcurl does. -/
def Request.sent : Request → Curl → Attempt
  | _, .noHandle => .refused
  | .post .., .performed ok httpCode =>
    if ok = true ∧ 200 ≤ httpCode ∧ httpCode < 300 then .accepted else .refused
  | .upload .., .performed ok _ => if ok = true then .accepted else .refused

def Request.performed (request : Request) : Curl → List Request
  | .noHandle => []
  | .performed .. => [request]

end Formats

section Legible

structure Legible (a : FiredAlert) : Prop where
  ruleId : Utf8 a.ruleId
  app : Utf8 a.app
  level : Utf8 a.level
  message : Utf8 a.message

theorem utf8_formats : ∀ words ∈ ["rule_id", "app", "level", "count", "threshold",
    "window_seconds", "fired_at", "fired_at_ns", "message", "title", "value", "short", "text",
    ":rotating_light: *ALERT*: ", "attachments", "color", "danger", "warning", "fields", "Rule",
    "App", "Level", "Count", "name", "inline", "content", "**ALERT**: ", "embeds", "Rule: ",
    "description", "delivered", "error", "history"], Utf8 (text words) := by
  decide +kernel

variable {a : FiredAlert}

theorem Legible.generic (legible : Legible a) : (formatGeneric a).Writable := by
  have words := utf8_formats
  simp only [List.forall_mem_cons] at words
  simp [formatGeneric, words, legible.ruleId, legible.app, legible.level, legible.message]

theorem Legible.slack (legible : Legible a) : (formatSlack a).Writable := by
  have words := utf8_formats
  simp only [List.forall_mem_cons] at words
  have told : Utf8 (text ":rotating_light: *ALERT*: " ++ a.message) :=
    Utf8.append (by simp only [words]) legible.message
  have color : Utf8 (if a.level = text "ERROR" ∨ a.level = text "CRITICAL" then text "danger"
      else text "warning") := by
    split <;> simp only [words]
  have count : Utf8 (text a.count.repr) := utf8_toString a.count
  simp [formatSlack, slackField, words, told, color, legible.ruleId, legible.app, legible.level,
    count]

theorem Legible.discord (legible : Legible a) : (formatDiscord a).Writable := by
  have words := utf8_formats
  simp only [List.forall_mem_cons] at words
  have told : Utf8 (text "**ALERT**: " ++ a.message) :=
    Utf8.append (by simp only [words]) legible.message
  have title : Utf8 (text "Rule: " ++ a.ruleId) :=
    Utf8.append (by simp only [words]) legible.ruleId
  simp [formatDiscord, discordField, words, told, title, legible.app, legible.level,
    legible.message]

theorem Legible.request {dump : Json → Option Bytes} {parse : Bytes → Option Json}
    (form : Json.TextForm dump parse) (legible : Legible a) : request dump a ≠ none := by
  have written {json : Json} (writable : json.Writable) : dump json ≠ none := by
    rw [← Option.isSome_iff_ne_none]
    exact (form.strict json).mpr writable
  unfold AlertDispatch.request
  dsimp only
  split
  · simp [written legible.slack]
  · simp [written legible.discord]
  · exact Option.some_ne_none _
  · simp [written legible.generic]

structure LegibleRule (rule : AlertRuleConfig) : Prop where
  id : Utf8 rule.id
  app : Utf8 rule.app
  level : Utf8 rule.level
  notifyUrl : Utf8 rule.notifyUrl

theorem fireAlert_legible {rs : AlertRuleState} (legible : LegibleRule rs.rule) (count : Nat)
    (now : Int) : Legible (fireAlert rs count now).2 where
  ruleId := legible.id
  app := legible.app
  level := legible.level
  message := by
    have words : ∀ words ∈ ["Alert: ", " ", " count ", " exceeded threshold ", " in ", "s"],
        Utf8 (text words) := by decide +kernel
    simp only [List.forall_mem_cons] at words
    obtain ⟨alert, space, counted, exceeded, within, seconds, -⟩ := words
    have threshold : Utf8 (text (toString rs.rule.threshold)) := utf8_toString_int _
    have window : Utf8 (text (toString rs.rule.windowSeconds)) := utf8_toString_int _
    exact (((((((((alert.append legible.app).append space).append legible.level).append
      counted).append (utf8_toString count)).append exceeded).append threshold).append
      within).append window).append seconds

end Legible

variable {n : Nat}

structure State (n : Nat) where
  engine : AlertRulesEngine.State
  pool : ThreadPool.State FiredAlert n
  /-- The rounds of the loop in `deliver` so far, by the ticket of the alert. -/
  rounds : Nat → List Attempt
  /-- The calls of `curl_easy_perform`, with the ticket of the alert. -/
  calls : List (Queued Request)
  /-- With the ticket of the task that appended the alert. -/
  history : List (Queued FiredAlert)

def initial (n : Nat) (engine : AlertRulesEngine.State) : State n where
  engine := engine
  pool := ThreadPool.initial FiredAlert n
  rounds := fun _ => []
  calls := []
  history := []

def State.round (s : State n) (ticket : Nat) (outcome : Attempt) (more : List Request) : State n :=
  { s with
    rounds := Function.update s.rounds ticket (s.rounds ticket ++ [outcome])
    calls := s.calls ++ more.map (Queued.mk ticket) }

/-- The loop goes on: `attempt < MAX_RETRIES && !success`. -/
def Going (rounds : List Attempt) : Prop := rounds.length < maxRetries ∧ .accepted ∉ rounds

def outcomes (rounds : List Attempt) (attempt : Nat) : Attempt := rounds[attempt]?.getD .refused

inductive Label (n : Nat) where
  | engine (label : AlertRulesEngine.Label)
  /-- `dispatch_alert` with the alert just fired, and the rule goes into COOLDOWN. -/
  | dispatch (alert : FiredAlert)
  | pool (label : ThreadPool.Label FiredAlert n)
  | attempt (ticket : Nat)
  | complete (worker : Fin n) (queued : Queued FiredAlert)

inductive Step (cfg : Config) (dump : Json → Option Bytes) : State n → Label n → State n → Prop
  | engine {s : State n} {label : AlertRulesEngine.Label} {next : AlertRulesEngine.State}
      (other : label ≠ .settle) (step : AlertRulesEngine.Step cfg s.engine label next) :
      Step cfg dump s (.engine label) { s with engine := next }
  | dispatch {s : State n} {next : AlertRulesEngine.State} {last : Evaluation} {alert : FiredAlert}
      (step : AlertRulesEngine.Step cfg s.engine .settle next)
      (latest : s.engine.evaluations.getLast? = some last) (fired : last.alert = some alert) :
      Step cfg dump s (.dispatch alert) { s with
        engine := next
        pool := (s.pool.offer .enqueue alert).2 }
  | pool {s : State n} {label : ThreadPool.Label FiredAlert n}
      {next : ThreadPool.State FiredAlert n} (idle : AlertDelivery.isIdle label = true)
      (step : ThreadPool.Step s.pool label next) :
      Step cfg dump s (.pool label) { s with pool := next }
  | attempt {s : State n} {worker : Fin n} {queued : Queued FiredAlert} {request : Request}
      (here : s.pool.workers worker = .running queued) (named : queued.task.notifyUrl ≠ [])
      (going : Going (s.rounds queued.ticket))
      (formatted : AlertDispatch.request dump queued.task = some request) (curl : Curl) :
      Step cfg dump s (.attempt queued.ticket)
        (s.round queued.ticket (request.sent curl) (request.performed curl))
  | threw {s : State n} {worker : Fin n} {queued : Queued FiredAlert} (what : Bytes)
      (here : s.pool.workers worker = .running queued) (named : queued.task.notifyUrl ≠ [])
      (going : Going (s.rounds queued.ticket))
      (illegible : AlertDispatch.request dump queued.task = none) :
      Step cfg dump s (.attempt queued.ticket) (s.round queued.ticket (.threw what) [])
  | complete {s : State n} {worker : Fin n} {queued : Queued FiredAlert}
      (here : s.pool.workers worker = .running queued)
      (done : queued.task.notifyUrl = [] ∨ ¬Going (s.rounds queued.ticket)) :
      Step cfg dump s (.complete worker queued) { s with
        pool := s.pool.move worker .checking
        history := record s.history
          ⟨queued.ticket, deliver (outcomes (s.rounds queued.ticket)) queued.task⟩ }

def State.callsOf (s : State n) (ticket : Nat) : List Request :=
  (s.calls.filter fun call => call.ticket = ticket).map Queued.task

/-- The alerts that were dispatched: all that were fired, but for one that is just being. -/
def dispatched (engine : AlertRulesEngine.State) : List FiredAlert :=
  match engine.position with
  | .firing _ => (engine.evaluations.filterMap Evaluation.alert).dropLast
  | _ => engine.evaluations.filterMap Evaluation.alert

section Rounds

theorem attempts_accepted (outcomes : Nat → Attempt) {left : Nat} (within : left ≤ maxRetries)
    (alert : FiredAlert) : (attempts outcomes left alert).1 = true ↔
      ∃ attempt, maxRetries - left ≤ attempt ∧ attempt < maxRetries ∧
        outcomes attempt = .accepted := by
  induction left generalizing alert with
  | zero =>
    have none : (attempts outcomes 0 alert).1 = false := rfl
    rw [none]
    simp only [Bool.false_eq_true, false_iff]
    intro found
    obtain ⟨attempt, first, last, -⟩ := found
    omega
  | succ left ih =>
    have later (other : FiredAlert) (failed : outcomes (maxRetries - (left + 1)) ≠ .accepted) :
        (attempts outcomes left other).1 = true ↔
          ∃ attempt, maxRetries - (left + 1) ≤ attempt ∧ attempt < maxRetries ∧
            outcomes attempt = .accepted := by
      rw [ih (by omega)]
      apply exists_congr
      intro attempt
      constructor
      · intro found
        exact ⟨by omega, found.2⟩
      · intro found
        have apart : attempt ≠ maxRetries - (left + 1) := by
          intro same
          rw [same] at found
          exact failed found.2.2
        exact ⟨by omega, found.2⟩
    rw [attempts]
    split
    next success =>
      simp only [true_iff]
      exact ⟨_, Nat.le_refl _, by omega, success⟩
    next refusal =>
      apply later
      simp [refusal]
    next what exception =>
      apply later
      simp [exception]

theorem outcomes_accepted {rounds : List Attempt} {attempt : Nat} :
    outcomes rounds attempt = .accepted ↔ rounds[attempt]? = some .accepted := by
  unfold outcomes
  cases rounds[attempt]? with
  | none => simp
  | some outcome => simp

/-- A delivery that is over says whether one of its rounds succeeded. -/
theorem deliver_delivered {rounds : List Attempt} (bounded : rounds.length ≤ maxRetries)
    (alert : FiredAlert) : (deliver (outcomes rounds) alert).delivered = true ↔
      alert.notifyUrl = [] ∨ .accepted ∈ rounds := by
  have listed : .accepted ∈ rounds ↔ ∃ attempt, maxRetries - maxRetries ≤ attempt ∧
      attempt < maxRetries ∧ outcomes rounds attempt = .accepted := by
    rw [List.mem_iff_getElem?]
    apply exists_congr
    intro attempt
    rw [outcomes_accepted]
    constructor
    · intro here
      have inside := (List.getElem?_eq_some_iff.mp here).1
      exact ⟨by omega, by omega, here⟩
    · exact fun found => found.2.2
  unfold deliver
  split
  next plain => simp [plain]
  next named =>
    rw [listed, ← attempts_accepted _ (Nat.le_refl _) alert]
    simp [named]

theorem attempts_untouched {outcomes : Nat → Attempt} (quiet : ∀ attempt what,
    outcomes attempt ≠ .threw what) (left : Nat) (alert : FiredAlert) :
    (attempts outcomes left alert).2 = alert := by
  induction left with
  | zero => rfl
  | succ left ih =>
    rw [attempts]
    split
    next => rfl
    next => exact ih
    next what exception => exact absurd exception (quiet _ what)

theorem deliver_error {rounds : List Attempt} (quiet : ∀ what, .threw what ∉ rounds)
    (alert : FiredAlert) :
    (deliver (outcomes rounds) alert).deliveryError = alert.deliveryError := by
  have never : ∀ attempt what, outcomes rounds attempt ≠ .threw what := by
    intro attempt what thrown
    unfold outcomes at thrown
    cases there : rounds[attempt]? with
    | none =>
      rw [there] at thrown
      cases thrown
    | some outcome =>
      rw [there] at thrown
      apply quiet what
      rw [← show outcome = .threw what from thrown]
      exact List.mem_of_getElem? there
  have same := attempts_untouched never maxRetries alert
  unfold deliver
  split
  next => rfl
  next =>
    change (attempts (outcomes rounds) maxRetries alert).2.deliveryError = alert.deliveryError
    rw [same]

end Rounds

section Dispatch

variable {cfg : Config}

theorem dispatched_idle {engine : AlertRulesEngine.State}
    (idle : ∀ index, engine.position ≠ .firing index) :
    dispatched engine = engine.evaluations.filterMap Evaluation.alert := by
  unfold dispatched
  split
  next index here => exact absurd here (idle index)
  next => rfl

theorem dispatched_firing {engine : AlertRulesEngine.State} {index : Nat}
    (here : engine.position = .firing index) :
    dispatched engine = (engine.evaluations.filterMap Evaluation.alert).dropLast := by
  unfold dispatched
  rw [here]

theorem dispatched_evaluate {engine : AlertRulesEngine.State} {index : Nat}
    (here : engine.position = .evaluating index) (rs : AlertRuleState) (countNow : Int) :
    dispatched (engine.evaluate cfg index rs countNow) = dispatched engine := by
  have before : dispatched engine = engine.evaluations.filterMap Evaluation.alert :=
    dispatched_idle (by simp [here])
  have evaluations : (engine.evaluate cfg index rs countNow).evaluations =
      engine.evaluations ++ [evaluation cfg engine.tsdbs rs engine.clock countNow] := rfl
  have alert : (evaluation cfg engine.tsdbs rs engine.clock countNow).alert =
      (evaluateRule cfg engine.tsdbs rs engine.clock countNow).2.2 := rfl
  cases fired : (evaluateRule cfg engine.tsdbs rs engine.clock countNow).2.2 with
  | none =>
    have idle : ∀ i, (engine.evaluate cfg index rs countNow).position ≠ .firing i := by
      intro i firing
      have some := ((evaluate_position ..).mp firing).1
      rw [fired] at some
      cases some
    rw [dispatched_idle idle, before, evaluations, List.filterMap_append]
    simp [alert, fired]
  | some a =>
    have firing : (engine.evaluate cfg index rs countNow).position = .firing index :=
      (evaluate_position ..).mpr ⟨by rw [fired]; rfl, rfl⟩
    rw [dispatched_firing firing, before, evaluations, List.filterMap_append]
    simp [alert, fired]

theorem dispatched_step {engine next : AlertRulesEngine.State} {label : AlertRulesEngine.Label}
    (step : AlertRulesEngine.Step cfg engine label next) (other : label ≠ .settle) :
    dispatched next = dispatched engine := by
  cases step with
  | tick | tsdb | rulesJson => rfl
  | reload parsed here =>
    rw [dispatched_idle (by simp [here]), dispatched_idle (by simp [here])]
  | lock here =>
    rw [dispatched_idle (by simp), dispatched_idle (by simp [here])]
  | evaluate here there later => exact dispatched_evaluate here ..
  | settle => exact absurd rfl other
  | unlock here =>
    rw [dispatched_idle (by simp), dispatched_idle (by simp [here])]

theorem dispatched_settle {engine next : AlertRulesEngine.State} {last : Evaluation}
    {alert : FiredAlert} (step : AlertRulesEngine.Step cfg engine .settle next)
    (latest : engine.evaluations.getLast? = some last) (fired : last.alert = some alert) :
    dispatched next = dispatched engine ++ [alert] := by
  cases step with
  | settle here there =>
    obtain ⟨earlier, shape⟩ := List.getLast?_eq_some_iff.mp latest
    rw [dispatched_firing here, dispatched_idle (by simp), shape, List.filterMap_append]
    simp [fired]

end Dispatch

structure Told (dump : Json → Option Bytes) (alert : FiredAlert) (rounds : List Attempt)
    (calls : List Request) : Prop where
  bounded : rounds.length ≤ maxRetries
  /-- Only the last round may have succeeded. -/
  early : .accepted ∉ rounds.dropLast
  plain : alert.notifyUrl = [] → rounds = []
  /-- The calls are for its own request, one a round at most. -/
  same : ∃ times ≤ rounds.length,
    calls.map some = List.replicate times (request dump alert)
  called : .accepted ∈ rounds → calls ≠ []

theorem told_nothing (dump : Json → Option Bytes) (alert : FiredAlert) : Told dump alert [] [] where
  bounded := Nat.zero_le _
  early := nofun
  plain _ := rfl
  same := ⟨0, Nat.le_refl _, rfl⟩
  called := nofun

theorem Told.round {dump : Json → Option Bytes} {alert : FiredAlert} {rounds : List Attempt}
    {calls more : List Request} (told : Told dump alert rounds calls)
    (named : alert.notifyUrl ≠ []) (going : Going rounds) {outcome : Attempt}
    (same : more.map some = [] ∨ more.map some = [request dump alert])
    (called : outcome = .accepted → more ≠ []) :
    Told dump alert (rounds ++ [outcome]) (calls ++ more) where
  bounded := by
    rw [List.length_append, List.length_singleton]
    exact going.1
  early := by
    rw [List.dropLast_concat]
    exact going.2
  plain empty := absurd empty named
  same := by
    obtain ⟨times, within, before⟩ := told.same
    rw [List.length_append, List.length_singleton, List.map_append, before]
    rcases same with none | one
    · exact ⟨times, by omega, by rw [none, List.append_nil]⟩
    · refine ⟨times + 1, by omega, ?_⟩
      rw [one, List.replicate_succ']
  called success := by
    rcases List.mem_append.mp success with old | new
    · exact absurd old going.2
    · have some := called (List.mem_singleton.mp new).symm
      simp [some]

/-- A run, seen as one of the delivery alone, and what is known of each alert. -/
structure Followed (dump : Json → Option Bytes) (s : State n)
    (moves : List (AlertDelivery.Label n)) : Prop where
  run : Run AlertDelivery.Step (AlertDelivery.initial n) moves ⟨s.pool, s.history⟩
  sent : AlertDelivery.sent moves = dispatched s.engine
  told {ticket : Nat} {alert : FiredAlert} : (dispatched s.engine)[ticket]? = some alert →
    Told dump alert (s.rounds ticket) (s.callsOf ticket)
  untold {ticket : Nat} : (dispatched s.engine)[ticket]? = none →
    s.rounds ticket = [] ∧ s.callsOf ticket = []
  finished : ∀ entry ∈ AlertDelivery.completed moves, ∃ alert,
    (dispatched s.engine)[entry.ticket]? = some alert ∧
    (alert.notifyUrl = [] ∨ ¬Going (s.rounds entry.ticket)) ∧
    entry.task = deliver (outcomes (s.rounds entry.ticket)) alert

theorem sent_of_running {moves : List (AlertDelivery.Label n)} {s : AlertDelivery.State n}
    (run : Run AlertDelivery.Step (AlertDelivery.initial n) moves s) {worker : Fin n}
    {queued : Queued FiredAlert} (here : s.pool.workers worker = .running queued) :
    (AlertDelivery.sent moves)[queued.ticket]? = some queued.task := by
  obtain ⟨below, inv⟩ := AlertDelivery.recorded_run run
  have served := served_run inv.run
  have accepted := served.taken_accepted (served.running here)
  rw [inv.accepted] at accepted
  obtain ⟨pair, numbered, rfl⟩ := List.mem_map.mp accepted
  exact List.mem_zipIdx_iff_getElem?.mp numbered

theorem round_rounds (s : State n) (ticket : Nat) (outcome : Attempt) (more : List Request) :
    (s.round ticket outcome more).rounds ticket = s.rounds ticket ++ [outcome] :=
  Function.update_self ..

theorem round_rounds_of_ne (s : State n) {ticket other : Nat} (apart : other ≠ ticket)
    (outcome : Attempt) (more : List Request) :
    (s.round ticket outcome more).rounds other = s.rounds other :=
  Function.update_of_ne apart ..

theorem round_callsOf (s : State n) (ticket : Nat) (outcome : Attempt) (more : List Request) :
    (s.round ticket outcome more).callsOf ticket = s.callsOf ticket ++ more := by
  simp [State.callsOf, State.round, List.filter_map, Function.comp_def]

theorem round_callsOf_of_ne (s : State n) {ticket other : Nat} (apart : other ≠ ticket)
    (outcome : Attempt) (more : List Request) :
    (s.round ticket outcome more).callsOf other = s.callsOf other := by
  simp [State.callsOf, State.round, List.filter_map, Function.comp_def, apart.symm]

theorem Followed.round {dump : Json → Option Bytes} {s : State n}
    {moves : List (AlertDelivery.Label n)} (inv : Followed dump s moves) {worker : Fin n}
    {queued : Queued FiredAlert} (here : s.pool.workers worker = .running queued)
    (named : queued.task.notifyUrl ≠ []) (going : Going (s.rounds queued.ticket))
    {outcome : Attempt} {more : List Request}
    (same : more.map some = [] ∨ more.map some = [request dump queued.task])
    (called : outcome = .accepted → more ≠ []) :
    Followed dump (s.round queued.ticket outcome more) moves := by
  have known := sent_of_running inv.run here
  rw [inv.sent] at known
  constructor
  · exact inv.run
  · exact inv.sent
  · intro ticket alert there
    have before := inv.told there
    by_cases apart : ticket = queued.ticket
    · subst apart
      obtain rfl := Option.some.inj (known.symm.trans there)
      rw [round_rounds, round_callsOf]
      exact before.round named going same called
    · rw [round_rounds_of_ne _ apart, round_callsOf_of_ne _ apart]
      exact before
  · intro ticket there
    have apart : ticket ≠ queued.ticket := by
      intro same
      rw [same] at there
      cases known.symm.trans there
    rw [round_rounds_of_ne _ apart, round_callsOf_of_ne _ apart]
    exact inv.untold there
  · intro entry listed
    obtain ⟨alert, there, done, shape⟩ := inv.finished entry listed
    have apart : entry.ticket ≠ queued.ticket := by
      intro same
      rw [same] at there done
      obtain rfl := Option.some.inj (known.symm.trans there)
      exact done.elim named fun stopped => stopped going
    rw [round_rounds_of_ne _ apart]
    exact ⟨alert, there, done, shape⟩

/-- Steps that leave the rounds, the calls and the dispatched alerts alone. -/
theorem Followed.same {dump : Json → Option Bytes} {s next : State n}
    {moves : List (AlertDelivery.Label n)} (inv : Followed dump s moves)
    (dispatched : dispatched next.engine = dispatched s.engine) (rounds : next.rounds = s.rounds)
    (calls : next.calls = s.calls)
    (run : Run AlertDelivery.Step (AlertDelivery.initial n) moves ⟨next.pool, next.history⟩) :
    Followed dump next moves where
  run := run
  sent := inv.sent.trans dispatched.symm
  told there := by
    rw [dispatched] at there
    rw [rounds, State.callsOf, calls]
    exact inv.told there
  untold there := by
    rw [dispatched] at there
    rw [rounds, State.callsOf, calls]
    exact inv.untold there
  finished := by
    rw [dispatched, rounds]
    exact inv.finished

/-- A step of the delivery that sends nothing and completes nothing. -/
theorem Followed.move {dump : Json → Option Bytes} {s : State n}
    {moves : List (AlertDelivery.Label n)} (inv : Followed dump s moves)
    {label : ThreadPool.Label FiredAlert n} {next : ThreadPool.State FiredAlert n}
    (idle : AlertDelivery.isIdle label = true) (step : ThreadPool.Step s.pool label next) :
    Followed dump { s with pool := next } (moves ++ [.pool label]) where
  run := inv.run.snoc (.pool idle step)
  sent := by
    rw [← inv.sent]
    simp [AlertDelivery.sent]
  told := inv.told
  untold := inv.untold
  finished := by
    have same : AlertDelivery.completed (moves ++ [.pool label]) =
        AlertDelivery.completed moves := by simp [AlertDelivery.completed]
    rw [same]
    exact inv.finished

theorem Followed.dispatch {dump : Json → Option Bytes} {s : State n}
    {moves : List (AlertDelivery.Label n)} (inv : Followed dump s moves)
    {next : AlertRulesEngine.State} {alert : FiredAlert}
    (more : dispatched next = dispatched s.engine ++ [alert]) :
    Followed dump { s with
      engine := next
      pool := (s.pool.offer .enqueue alert).2 } (moves ++ [.send alert]) where
  run := inv.run.snoc (.send _ alert)
  sent := by
    rw [more, ← inv.sent]
    simp [AlertDelivery.sent]
  told {ticket other} there := by
    change (dispatched next)[ticket]? = some other at there
    rw [more] at there
    cases before : (dispatched s.engine)[ticket]? with
    | some known =>
      have inside := (List.getElem?_eq_some_iff.mp before).1
      rw [List.getElem?_append_left inside] at there
      exact inv.told there
    | none =>
      obtain ⟨rounds, calls⟩ := inv.untold before
      change Told dump other (s.rounds ticket) (s.callsOf ticket)
      rw [rounds, calls]
      exact told_nothing dump other
  untold {ticket} there := by
    change (dispatched next)[ticket]? = none at there
    rw [more] at there
    apply inv.untold
    rw [List.getElem?_eq_none_iff] at there ⊢
    rw [List.length_append] at there
    omega
  finished := by
    have same : AlertDelivery.completed (moves ++ [.send alert]) =
        AlertDelivery.completed moves := by simp [AlertDelivery.completed]
    rw [same]
    intro entry listed
    obtain ⟨other, there, done, shape⟩ := inv.finished entry listed
    refine ⟨other, ?_, done, shape⟩
    change (dispatched next)[entry.ticket]? = some other
    rw [more]
    rw [List.getElem?_append_left (List.getElem?_eq_some_iff.mp there).1]
    exact there

theorem Followed.complete {dump : Json → Option Bytes} {s : State n}
    {moves : List (AlertDelivery.Label n)} (inv : Followed dump s moves) {worker : Fin n}
    {queued : Queued FiredAlert} (here : s.pool.workers worker = .running queued)
    (done : queued.task.notifyUrl = [] ∨ ¬Going (s.rounds queued.ticket)) :
    Followed dump { s with
      pool := s.pool.move worker .checking
      history := record s.history
        ⟨queued.ticket, deliver (outcomes (s.rounds queued.ticket)) queued.task⟩ }
      (moves ++ [.complete worker queued (outcomes (s.rounds queued.ticket))]) where
  run := inv.run.snoc (.complete _ here)
  sent := by
    rw [← inv.sent]
    simp [AlertDelivery.sent]
  told := inv.told
  untold := inv.untold
  finished := by
    have last : AlertDelivery.completed
        (moves ++ [.complete worker queued (outcomes (s.rounds queued.ticket))]) =
          AlertDelivery.completed moves ++
            [⟨queued.ticket, deliver (outcomes (s.rounds queued.ticket)) queued.task⟩] := by
      simp [AlertDelivery.completed]
    rw [last]
    intro entry listed
    rcases List.mem_append.mp listed with old | new
    · exact inv.finished entry old
    · rw [List.mem_singleton.mp new]
      have known := sent_of_running inv.run here
      rw [inv.sent] at known
      exact ⟨queued.task, known, done, rfl⟩

theorem followed_run {cfg : Config} {dump : Json → Option Bytes} {tsdbs : Tsdbs}
    {parsed : Option Json} {clock : Int} {labels : List (Label n)} {s : State n}
    (run : Run (Step cfg dump) (initial n (AlertRulesEngine.initial tsdbs parsed clock)) labels s) :
    ∃ moves, Followed dump s moves := by
  refine run.invariant (fun _ s => ∃ moves, Followed dump s moves) ?_ ?_
  · refine ⟨[], .refl, rfl, nofun, fun _ => ⟨rfl, rfl⟩, nofun⟩
  · intro labels s label next _ ih step
    obtain ⟨moves, inv⟩ := ih
    cases step with
    | engine other step =>
      exact ⟨moves, inv.same (dispatched_step step other) rfl rfl inv.run⟩
    | dispatch step latest fired =>
      exact ⟨_, inv.dispatch (dispatched_settle step latest fired)⟩
    | pool idle step => exact ⟨_, inv.move idle step⟩
    | @attempt worker queued request here named going formatted curl =>
      refine ⟨moves, inv.round here named going ?_ ?_⟩
      · rw [formatted]
        cases curl with
        | noHandle => exact .inl rfl
        | performed => exact .inr rfl
      · intro success
        cases curl with
        | noHandle => cases request <;> cases success
        | performed => exact List.cons_ne_nil _ _
    | threw what here named going illegible =>
      exact ⟨moves, inv.round here named going (.inl rfl) nofun⟩
    | complete here done => exact ⟨_, inv.complete here done⟩

/-- The alert's delivery has ended as it should: there was nobody to tell, an attempt has succeeded,
or all were made. -/
def Settled (alert : FiredAlert) (rounds : List Attempt) : Prop :=
  alert.notifyUrl = [] ∨ .accepted ∈ rounds ∨ rounds.length = maxRetries

theorem settled_of_done {dump : Json → Option Bytes} {alert : FiredAlert} {rounds : List Attempt}
    {calls : List Request} (told : Told dump alert rounds calls)
    (done : alert.notifyUrl = [] ∨ ¬Going rounds) : Settled alert rounds := by
  by_cases accepted : .accepted ∈ rounds
  · exact .inr (.inl accepted)
  · rcases done with plain | stopped
    · exact .inl plain
    · have bounded := told.bounded
      have full : ¬rounds.length < maxRetries := fun fewer => stopped ⟨fewer, accepted⟩
      exact .inr (.inr (by omega))

structure AsPromised (dump : Json → Option Bytes) (s : State n) : Prop where
  told {ticket : Nat} {alert : FiredAlert} : (dispatched s.engine)[ticket]? = some alert →
    Told dump alert (s.rounds ticket) (s.callsOf ticket)
  /-- There is no call for what was not fired. -/
  untold {ticket : Nat} : (dispatched s.engine)[ticket]? = none → s.callsOf ticket = []
  recorded : ∀ entry ∈ s.history, ∃ alert, (dispatched s.engine)[entry.ticket]? = some alert ∧
    Settled alert (s.rounds entry.ticket) ∧
    (entry.task.delivered = true ↔ alert.notifyUrl = [] ∨ .accepted ∈ s.rounds entry.ticket)
  /-- When no delivery is left to be made, nobody was forgotten. -/
  everybody : (⟨s.pool, s.history⟩ : AlertDelivery.State n).AllFinished → ∀ {ticket alert},
    (dispatched s.engine)[ticket]? = some alert → Settled alert (s.rounds ticket)

/-- Whatever the engine, the workers and the network do, each alert that was dispatched is told to
the URL of its rule, and to nobody else: in its own format, until an attempt succeeds, three times
at most, and as the history says. -/
theorem each_notified {cfg : Config} {dump : Json → Option Bytes} {tsdbs : Tsdbs}
    {parsed : Option Json} {clock : Int} {labels : List (Label n)} {s : State n}
    (run : Run (Step cfg dump) (initial n (AlertRulesEngine.initial tsdbs parsed clock)) labels s) :
    AsPromised dump s := by
  obtain ⟨moves, inv⟩ := followed_run run
  obtain ⟨below, recorded⟩ := AlertDelivery.recorded_run inv.run
  have ended : ∀ entry ∈ AlertDelivery.completed moves, ∃ alert,
      (dispatched s.engine)[entry.ticket]? = some alert ∧ Settled alert (s.rounds entry.ticket) ∧
      (entry.task.delivered = true ↔
        alert.notifyUrl = [] ∨ .accepted ∈ s.rounds entry.ticket) := by
    intro entry listed
    obtain ⟨alert, there, done, shape⟩ := inv.finished entry listed
    have told := inv.told there
    refine ⟨alert, there, settled_of_done told done, ?_⟩
    rw [shape]
    exact deliver_delivered told.bounded alert
  constructor
  · exact inv.told
  · exact fun there => (inv.untold there).2
  · intro entry listed
    have history : s.history = (AlertDelivery.completed moves).rtake AlertDelivery.maxHistory :=
      recorded.history
    rw [history] at listed
    exact ended entry (List.mem_of_mem_drop listed)
  · intro finished ticket alert there
    have all := AlertDelivery.completed_perm recorded finished
    have inside := (List.getElem?_eq_some_iff.mp there).1
    rw [← inv.sent] at inside
    have listed := all.mem_iff.mpr (List.mem_range.mpr inside)
    obtain ⟨entry, member, same⟩ := List.mem_map.mp listed
    obtain ⟨other, here, settled, -⟩ := ended entry member
    rw [same] at here settled
    obtain rfl := Option.some.inj (there.symm.trans here)
    exact settled

def hookRule : Json := .array [.object [(text "id", .string (text "rule_001")),
  (text "app", .string (text "myapp")), (text "threshold", .integer 0),
  (text "notify_url", .string (text "http://hook/"))]]

def hookConfig : Config := ⟨fun _ => Tsdb.Store.empty, []⟩

def hookEngine : AlertRulesEngine.State :=
  AlertRulesEngine.initial (.single myappStore) (some hookRule) 1000

def hookAlert : FiredAlert := (fireAlert { rule := {
  id := text "rule_001"
  app := text "myapp"
  level := text "ERROR"
  threshold := 0
  windowSeconds := 60
  notifyUrl := text "http://hook/"
  cooldownSeconds := 300
  projectId := [] } } 1 1000).2

theorem hook_run : ∃ dump parse, Json.TextForm dump parse ∧
    ∃ (labels : List (Label 5)) (s : State 5),
      Run (Step hookConfig dump) (initial 5 hookEngine) labels s ∧
        (∀ parsed, .engine (.reload parsed) ∉ labels) ∧ (s.callsOf 0).length = 2 := by
  have legible : Legible hookAlert := fireAlert_legible (by constructor <;> decide +kernel) 1 1000
  obtain ⟨dump, parse, form, written⟩ := Json.TextForm.exists_writing legible.generic (text "{}")
  have formatted : request dump hookAlert =
      some (.post (text "http://hook/") (text "{}") (text "application/json")) := by
    have generic : detectType hookAlert.notifyUrl = .generic := by decide +kernel
    simp only [request, generic, written]
    rfl
  let locked : AlertRulesEngine.State := { hookEngine with position := .evaluating 0 }
  obtain ⟨rs, next⟩ : ∃ rs, locked.rules[0]? = some rs := ⟨_, rfl⟩
  have fires : (evaluateRule hookConfig locked.tsdbs rs 1000 1000).2.2 = some hookAlert := by
    obtain rfl := Option.some.inj next
    rfl
  let fired := locked.evaluate hookConfig 0 rs 1000
  have firing : fired.position = .firing 0 :=
    (evaluate_position ..).mpr ⟨by rw [show locked.clock = 1000 from rfl, fires]; rfl, rfl⟩
  have alert : (evaluation hookConfig locked.tsdbs rs 1000 1000).alert = some hookAlert := fires
  have lock : AlertRulesEngine.Step hookConfig hookEngine .lock locked := .lock rfl
  have evaluate : AlertRulesEngine.Step hookConfig locked (.evaluate 0 1000) fired :=
    .evaluate rfl next (le_refl 1000)
  have here : AlertRulesEngine.Label.lock ≠ .settle := by simp
  have there : AlertRulesEngine.Label.evaluate 0 1000 ≠ .settle := by simp
  have start : Run (Step hookConfig dump) (initial 5 hookEngine) [] (initial 5 hookEngine) := .refl
  have evaluated := (start.snoc (.engine here lock)).snoc (.engine there evaluate)
  have sent := evaluated.snoc (.dispatch (.settle firing rfl) rfl alert)
  have taken := sent.snoc (.pool rfl (@ThreadPool.Step.enter FiredAlert 5 _ 0 rfl))
  have named : hookAlert.notifyUrl ≠ [] := by decide
  have fresh : Going [] := ⟨by decide, by simp⟩
  have again : Going [Attempt.refused] := ⟨by decide, by simp⟩
  have once := taken.snoc (@Step.attempt 5 hookConfig dump _ 0 ⟨0, hookAlert⟩ _ rfl named
    fresh formatted (.performed true 503))
  have twice := once.snoc (@Step.attempt 5 hookConfig dump _ 0 ⟨0, hookAlert⟩ _ rfl named
    again formatted (.performed true 200))
  exact ⟨dump, parse, form, _, _, twice, by simp, rfl⟩

theorem each_notified_hook : ∃ dump parse, Json.TextForm dump parse ∧
    ∃ (labels : List (Label 5)) (s : State 5),
      Run (Step hookConfig dump) (initial 5 hookEngine) labels s ∧ AsPromised dump s ∧
        (s.callsOf 0).length = 2 := by
  obtain ⟨dump, parse, form, labels, s, run, -, twice⟩ := hook_run
  exact ⟨dump, parse, form, labels, s, run, each_notified run, twice⟩

end LogMonitor.AlertDispatch
