import LogMonitor.AlertRulesEngine
import LogMonitor.Library.Completion
import LogMonitor.ThreadPool
import Mathlib.Tactic.FinCases

/-!
The delivery of alerts: `send` enqueues a task on a pool of its own, the task
tries to deliver its alert and then appends it to the history. How an attempt
ends, and how long it takes, is up to the network. The pool is shut down by the
destructor only, after which there is no history to read.
-/

namespace LogMonitor.AlertDelivery
open Library Library.ByteString Library.Transition Library.Completion AlertRulesEngine ThreadPool

variable {n : Nat}

def maxHistory : Nat := 100

def maxRetries : Nat := 3

/-- How an attempt of `send_via_curl` or `send_smtp` ends, or the formatting before it. -/
inductive Attempt where
  | accepted
  | refused
  | threw (what : Bytes)

/-- The loop of `deliver` with some attempts left; the result says whether one succeeded. -/
def attempts (outcomes : Nat → Attempt) : Nat → FiredAlert → Bool × FiredAlert
  | 0, alert => (false, alert)
  | left + 1, alert =>
    match outcomes (maxRetries - (left + 1)) with
    | .accepted => (true, alert)
    | .refused => attempts outcomes left alert
    | .threw what => attempts outcomes left { alert with deliveryError := what }

def deliver (outcomes : Nat → Attempt) (alert : FiredAlert) : FiredAlert :=
  if alert.notifyUrl = [] then { alert with delivered := true }
  else
    let (success, alert) := attempts outcomes maxRetries alert
    { alert with delivered := success }

structure State (n : Nat) where
  pool : ThreadPool.State FiredAlert n
  /-- With the ticket of the task that appended the alert. -/
  history : List (Queued FiredAlert)

def initial (n : Nat) : State n where
  pool := ThreadPool.initial FiredAlert n
  history := []

def record (history : List (Queued FiredAlert)) (alert : Queued FiredAlert) :
    List (Queued FiredAlert) :=
  (history ++ [alert]).rtake maxHistory

def getHistory (s : State n) : List FiredAlert := s.history.map Queued.task

/-- The steps of the pool that neither begin with `send` nor end a task. -/
def isIdle : ThreadPool.Label FiredAlert n → Bool
  | .notifyOne => true
  | .enter _ _ => true
  | .wake _ => true
  | _ => false

inductive Label (n : Nat) where
  | send (alert : FiredAlert)
  | pool (label : ThreadPool.Label FiredAlert n)
  /-- A task is over, and its alert in the history. -/
  | complete (worker : Fin n) (queued : Queued FiredAlert) (outcomes : Nat → Attempt)

inductive Step : State n → Label n → State n → Prop
  | send (s : State n) (alert : FiredAlert) :
      Step s (.send alert) { s with pool := (s.pool.offer .enqueue alert).2 }
  | pool {s : State n} {label : ThreadPool.Label FiredAlert n} {next : ThreadPool.State FiredAlert n}
      (idle : isIdle label = true) (step : ThreadPool.Step s.pool label next) :
      Step s (.pool label) { s with pool := next }
  | complete {s : State n} {worker : Fin n} {queued : Queued FiredAlert} (outcomes : Nat → Attempt)
      (here : s.pool.workers worker = .running queued) :
      Step s (.complete worker queued outcomes)
        { pool := s.pool.move worker .checking
          history := record s.history ⟨queued.ticket, deliver outcomes queued.task⟩ }

def sent (labels : List (Label n)) : List FiredAlert :=
  labels.filterMap fun
    | .send alert => some alert
    | _ => none

/-- The deliveries in the order they were over, by the ticket of their task. -/
def completed (labels : List (Label n)) : List (Queued FiredAlert) :=
  labels.filterMap fun
    | .complete _ queued outcomes => some ⟨queued.ticket, deliver outcomes queued.task⟩
    | _ => none

def State.AllFinished (s : State n) : Prop :=
  s.pool.tasks = [] ∧ ∀ worker queued, s.pool.workers worker ≠ .running queued

/-- An entry of the history is an alert that was sent, with what became of its delivery. -/
def Reports (sent : Queued FiredAlert) (entry : Queued FiredAlert) : Prop :=
  entry.ticket = sent.ticket ∧ ∃ delivered deliveryError, entry.task =
    { sent.task with
      delivered := delivered
      deliveryError := deliveryError }

def sends (labels : List (Label n)) : List (Queued FiredAlert) :=
  (sent labels).zipIdx.map fun (alert, place) => ⟨place, alert⟩

def LastSent (labels : List (Label n)) (s : State n) : Prop :=
  List.Forall₂ Reports ((sends labels).rtake maxHistory) s.history

/-- Each of the last hundred alerts was over only after every alert that was sent before it. -/
def LateOnesInOrder (labels : List (Label n)) : Prop :=
  ∀ first second, first < second → second < (sent labels).length →
    (sent labels).length ≤ second + maxHistory →
    [first, second].Sublist ((completed labels).map Queued.ticket)

theorem attempts_reports (outcomes : Nat → Attempt) (left : Nat) (alert : FiredAlert) :
    ∃ deliveryError, (attempts outcomes left alert).2 = { alert with deliveryError := deliveryError } := by
  induction left generalizing alert with
  | zero => exact ⟨alert.deliveryError, rfl⟩
  | succ left ih =>
    rw [attempts]
    split
    next => exact ⟨alert.deliveryError, rfl⟩
    next => exact ih alert
    next what _ => exact ih { alert with deliveryError := what }

theorem deliver_reports (outcomes : Nat → Attempt) (queued : Queued FiredAlert) :
    Reports queued ⟨queued.ticket, deliver outcomes queued.task⟩ := by
  refine ⟨rfl, ?_⟩
  unfold deliver
  split
  next => exact ⟨true, queued.task.deliveryError, rfl⟩
  next =>
    obtain ⟨deliveryError, same⟩ := attempts_reports outcomes maxRetries queued.task
    exact ⟨(attempts outcomes maxRetries queued.task).1, deliveryError, by simp only [same]⟩

theorem sends_snoc (labels : List (Label n)) (alert : FiredAlert) :
    sends (labels ++ [.send alert]) = sends labels ++ [⟨(sent labels).length, alert⟩] := by
  simp [sends, sent, List.zipIdx_append]

theorem sends_tickets (labels : List (Label n)) :
    (sends labels).map Queued.ticket = List.range (sent labels).length := by
  rw [sends, List.map_map, List.range_eq_range', ← List.zipIdx_map_snd 0 (sent labels)]
  rfl

structure Recorded (labels : List (Label n)) (s : State n)
    (moves : List (ThreadPool.Label FiredAlert n)) : Prop where
  run : Run ThreadPool.Step (ThreadPool.initial FiredAlert n) moves s.pool
  alive : s.pool.stop = false
  accepted : accepted moves = sends labels
  finished : (finished moves).map (fun event => event.2.ticket) =
    (completed labels).map Queued.ticket
  history : s.history = (completed labels).rtake maxHistory
  reports : ∀ entry ∈ completed labels, ∃ sent ∈ sends labels, Reports sent entry

theorem isIdle_quiet {label : ThreadPool.Label FiredAlert n} (idle : isIdle label = true) :
    ThreadPool.accepted [label] = [] ∧ ThreadPool.finished [label] = [] := by
  cases label <;> first | exact ⟨rfl, rfl⟩ | simp [isIdle] at idle

theorem idle_stop {s next : ThreadPool.State FiredAlert n} {label : ThreadPool.Label FiredAlert n}
    (idle : isIdle label = true) (step : ThreadPool.Step s label next) : next.stop = s.stop := by
  cases step with
  | offer => simp [isIdle] at idle
  | @enter worker here =>
    rcases workerSection_cases s worker with ⟨-, -, shape⟩ | ⟨_, _, -, shape⟩ | ⟨-, -, shape⟩
    · rw [shape, State.move]
    · rw [shape, State.move]
    · rw [shape, State.move]
  | finish => simp [isIdle] at idle
  | shutdown => simp [isIdle] at idle
  | notifyAll => simp [isIdle] at idle
  | join => simp [isIdle] at idle
  | _ => rfl

theorem recorded_run {labels : List (Label n)} {s : State n}
    (run : Run Step (initial n) labels s) : ∃ moves, Recorded labels s moves := by
  refine run.invariant (fun labels s => ∃ moves, Recorded labels s moves)
    ⟨[], .refl, rfl, rfl, rfl, rfl, by simp [completed]⟩ ?_
  rintro labels s label next - ⟨moves, inv⟩ step
  have served := served_run inv.run
  cases step with
  | send alert =>
    have count : s.pool.tickets = (sent labels).length := by
      have tickets := served.tickets
      rw [inv.accepted, sends_tickets] at tickets
      simpa using congrArg List.length tickets.symm
    have answered : (s.pool.offer .enqueue alert).1 = .queued (sent labels).length := by
      simp [State.offer, inv.alive, count]
    refine ⟨moves ++ [.offer .enqueue alert (.queued (sent labels).length)], ?_⟩
    have offered := inv.run.snoc (.offer s.pool .enqueue alert)
    rw [answered] at offered
    have same : completed (labels ++ [.send alert]) = completed labels := by simp [completed]
    refine ⟨offered, by simp [State.offer, inv.alive], ?_, ?_, ?_, ?_⟩
    · rw [accepted_append, inv.accepted, sends_snoc]
      rfl
    · rw [same, ← inv.finished, finished_append]
      simp [ThreadPool.finished]
    · rw [same]
      exact inv.history
    · intro entry member
      rw [same] at member
      obtain ⟨sent, there, reports⟩ := inv.reports entry member
      exact ⟨sent, by rw [sends_snoc]; exact List.mem_append_left _ there, reports⟩
  | @pool label next idle step =>
    have same : completed (labels ++ [.pool label]) = completed labels := by simp [completed]
    have others : sends (labels ++ [.pool label]) = sends labels := by simp [sends, sent]
    obtain ⟨noneQueued, noneFinished⟩ := isIdle_quiet idle
    refine ⟨moves ++ [label], inv.run.snoc step, (idle_stop idle step).trans inv.alive, ?_, ?_, ?_, ?_⟩
    · rw [accepted_append, noneQueued, others, List.append_nil, inv.accepted]
    · rw [finished_append, noneFinished, same, List.append_nil, inv.finished]
    · rw [same]
      exact inv.history
    · rw [same, others]
      exact inv.reports
  | @complete worker queued outcomes here =>
    have others : sends (labels ++ [.complete worker queued outcomes]) = sends labels := by
      simp [sends, sent]
    have last : completed (labels ++ [.complete worker queued outcomes]) =
        completed labels ++ [⟨queued.ticket, deliver outcomes queued.task⟩] := by
      simp [completed]
    have member : queued ∈ sends labels := by
      have held := served.held worker
      rw [here] at held
      have event : (worker, queued) ∈ eventsOf worker (taken moves) := by simp [held, Worker.held]
      rw [← inv.accepted]
      exact served.taken_accepted (List.mem_filter.mp event).1
    refine ⟨moves ++ [.finish worker queued], inv.run.snoc (.finish here), inv.alive, ?_, ?_, ?_, ?_⟩
    · rw [accepted_append, others, inv.accepted]
      exact List.append_nil _
    · rw [finished_append, last, List.map_append, List.map_append, inv.finished]
      rfl
    · rw [last, record, inv.history, rtake_snoc]
    · rw [last, others]
      intro entry there
      rcases List.mem_append.mp there with old | new
      · exact inv.reports entry old
      · rw [List.mem_singleton.mp new]
        exact ⟨queued, member, deliver_reports outcomes queued⟩

theorem completed_perm {labels : List (Label n)} {s : State n}
    {moves : List (ThreadPool.Label FiredAlert n)} (inv : Recorded labels s moves)
    (finished : s.AllFinished) :
    ((completed labels).map Queued.ticket).Perm (List.range (sent labels).length) := by
  have served := served_run inv.run
  have order := served.order
  rw [finished.1, List.append_nil, inv.accepted] at order
  have idle : ∀ worker, (s.pool.workers worker).held = [] := by
    intro worker
    have here := finished.2 worker
    cases position : s.pool.workers worker with
    | running queued => exact absurd position (here queued)
    | _ => rfl
  have all : (ThreadPool.finished moves).Perm (taken moves) := perm_of_eventsOf fun worker => by
    rw [served.held worker, idle worker, List.map_nil, List.append_nil]
  rw [← sends_tickets, ← order, ← inv.finished, List.map_map]
  exact all.map _

theorem tickets_of_reports {part entries : List (Queued FiredAlert)}
    (reports : List.Forall₂ Reports part entries) :
    entries.map Queued.ticket = part.map Queued.ticket := by
  induction reports with
  | nil => rfl
  | cons report _ ih => rw [List.map_cons, List.map_cons, report.1, ih]

theorem forall₂_reports {all part entries : List (Queued FiredAlert)}
    (distinct : (all.map Queued.ticket).Nodup) (within : part ⊆ all)
    (reports : ∀ entry ∈ entries, ∃ sent ∈ all, Reports sent entry)
    (same : entries.map Queued.ticket = part.map Queued.ticket) :
    List.Forall₂ Reports part entries := by
  induction part generalizing entries with
  | nil =>
    rw [List.map_nil, List.map_eq_nil_iff] at same
    rw [same]
    exact .nil
  | cons first part ih =>
    cases entries with
    | nil => simp at same
    | cons entry entries =>
      obtain ⟨ticket, rest⟩ := List.cons.inj same
      obtain ⟨sent, member, report⟩ := reports entry List.mem_cons_self
      have named : sent = first := by
        have tickets : sent.ticket = first.ticket := report.1.symm.trans ticket
        exact List.inj_on_of_nodup_map distinct member (within List.mem_cons_self) tickets
      refine .cons (named ▸ report) (ih (fun _ there => within (List.mem_cons_of_mem _ there)) ?_ rest)
      exact fun entry there => reports entry (List.mem_cons_of_mem _ there)

/-- Whenever all deliveries are over, the history has the last hundred alerts sent, in their order,
exactly when each of these was over only after every alert that was sent before it. -/
theorem history_last_sent_iff {labels : List (Label n)} {s : State n}
    (run : Run Step (initial n) labels s) (finished : s.AllFinished) :
    LastSent labels s ↔ LateOnesInOrder labels := by
  obtain ⟨moves, inv⟩ := recorded_run run
  have all := completed_perm inv finished
  have tickets : ((sends labels).rtake maxHistory).map Queued.ticket =
      (List.range (sent labels).length).rtake maxHistory := by
    rw [map_rtake, sends_tickets]
  have shown : s.history.map Queued.ticket =
      ((completed labels).map Queued.ticket).rtake maxHistory := by
    rw [inv.history, map_rtake]
  rw [LateOnesInOrder, ← rtake_eq_range_iff all, ← tickets, ← shown]
  constructor
  · exact tickets_of_reports
  · intro same
    have distinct : ((sends labels).map Queued.ticket).Nodup := by
      rw [sends_tickets]
      exact List.nodup_range
    refine forall₂_reports distinct (List.drop_subset _ _) (fun entry member => ?_) same
    rw [inv.history] at member
    exact inv.reports entry (List.mem_of_mem_drop member)

def sampleAlert (ruleId notifyUrl : Bytes) : FiredAlert where
  ruleId := ruleId
  app := text "web"
  level := text "ERROR"
  message := []
  notifyUrl := notifyUrl
  count := 3
  threshold := 2
  windowSeconds := 60
  firedAtNs := 0

theorem history_last_sent_iff_one : ∃ (labels : List (Label 5)) (s : State 5),
    Run Step (initial 5) labels s ∧ s.AllFinished ∧ LastSent labels s := by
  have sent := Run.single (Step.send (initial 5) (sampleAlert (text "r") []))
  have entered := sent.snoc (.pool (by rfl) (@ThreadPool.Step.enter FiredAlert 5 _ 0 rfl))
  have completed := entered.snoc
    (@Step.complete 5 _ 0 ⟨0, sampleAlert (text "r") []⟩ (fun _ => .accepted) rfl)
  obtain ⟨labels, s, run, finished, inOrder⟩ : ∃ (labels : List (Label 5)) (s : State 5),
      Run Step (initial 5) labels s ∧ s.AllFinished ∧ LateOnesInOrder labels := by
    refine ⟨_, _, completed, ⟨rfl, fun worker queued => ?_⟩, ?_⟩
    · fin_cases worker <;> exact nofun
    · intro first second below within
      change second < 1 at within
      omega
  exact ⟨labels, s, run, finished, (history_last_sent_iff run finished).mpr inOrder⟩

set_option maxRecDepth 4096 in
/-- Of two alerts the first is still being retried when the second, which nobody is to be notified
of, is in the history. -/
theorem history_out_of_order : ∃ (labels : List (Label 2)) (s : State 2),
    Run Step (initial 2) labels s ∧ s.AllFinished ∧ ¬LastSent labels s ∧
      (getHistory s).map FiredAlert.ruleId = [text "b", text "a"] := by
  let slow := sampleAlert (text "a") (text "http://h/")
  let quick := sampleAlert (text "b") []
  have sent := (Run.single (Step.send (initial 2) slow)).snoc (Step.send _ quick)
  have first := sent.snoc (.pool (by rfl) (@ThreadPool.Step.enter FiredAlert 2 _ 0 rfl))
  have second := first.snoc (.pool (by rfl) (@ThreadPool.Step.enter FiredAlert 2 _ 1 rfl))
  have early := second.snoc (@Step.complete 2 _ 1 ⟨1, quick⟩ (fun _ => .accepted) rfl)
  have late := early.snoc (@Step.complete 2 _ 0 ⟨0, slow⟩ (fun _ => .refused) rfl)
  refine ⟨_, _, late, ⟨rfl, fun worker queued => ?_⟩, ?_, ?_⟩
  · fin_cases worker <;> exact nofun
  · intro last
    have tickets : [1, 0] = [0, 1] := tickets_of_reports last
    exact absurd tickets (by decide)
  · rfl

end LogMonitor.AlertDelivery
