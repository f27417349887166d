import LogMonitor.Library.Transition
import Mathlib.Algebra.BigOperators.Fin
import Mathlib.Algebra.Order.BigOperators.Group.Finset
import Mathlib.Data.List.Range
import Mathlib.Logic.Function.Basic

/-!
The thread pool, one section of its mutex at a time: any number of threads that
call `submit` and `enqueue`, the workers with the condition variable they wait
on, and the thread that calls `shutdown`. A task is known by its ticket, the
number of tasks that were queued before it; nothing in the program reads it.
-/

namespace LogMonitor.ThreadPool
open Library.Transition

variable {Task : Type} {n : Nat}

structure Queued (Task : Type) where
  ticket : Nat
  task : Task

inductive Worker (Task : Type) where
  /-- Before it holds the mutex and looks at the predicate. -/
  | checking
  | waiting
  | running (queued : Queued Task)
  | exited

inductive Closing where
  | notCalled
  | flagged
  /-- The workers before this one are joined. -/
  | joining (worker : Nat)

structure State (Task : Type) (n : Nat) where
  tasks : List (Queued Task)
  stop : Bool
  workers : Fin n → Worker Task
  /-- The threads that have queued a task and not yet called `notify_one`. -/
  notifying : Nat
  closing : Closing
  /-- How many tasks were queued so far. -/
  tickets : Nat

def initial (Task : Type) (n : Nat) : State Task n where
  tasks := []
  stop := false
  workers := fun _ => .checking
  notifying := 0
  closing := .notCalled
  tickets := 0

inductive Call where
  | submit
  | enqueue

inductive Answer where
  | queued (ticket : Nat)
  | threw
  | dropped

/-- What the caller sees after `shutdown` has set the flag. -/
def Call.refusal : Call → Answer
  | .submit => .threw
  | .enqueue => .dropped

/-- The section of `submit` and `enqueue`. -/
def State.offer (s : State Task n) (call : Call) (task : Task) : Answer × State Task n :=
  if s.stop then (call.refusal, s)
  else (.queued s.tickets, { s with
    tasks := s.tasks ++ [⟨s.tickets, task⟩]
    notifying := s.notifying + 1
    tickets := s.tickets + 1 })

def State.move (s : State Task n) (worker : Fin n) (position : Worker Task) : State Task n :=
  { s with workers := Function.update s.workers worker position }

/-- The section of `worker_loop`, from the mutex to the wait or the pop, and the task popped. -/
def State.workerSection (s : State Task n) (worker : Fin n) : Option (Queued Task) × State Task n :=
  if s.stop || !s.tasks.isEmpty then
    match s.tasks with
    | [] => (none, s.move worker .exited)
    | queued :: rest => (some queued, { s.move worker (.running queued) with tasks := rest })
  else (none, s.move worker .waiting)

def Worker.wake : Worker Task → Worker Task
  | .waiting => .checking
  | position => position

inductive Label (Task : Type) (n : Nat) where
  | offer (call : Call) (task : Task) (answer : Answer)
  | notifyOne
  /-- A worker passes its section, and perhaps takes a task with it. -/
  | enter (worker : Fin n) (popped : Option (Queued Task))
  | finish (worker : Fin n) (queued : Queued Task)
  /-- A worker wakes without being notified. -/
  | wake (worker : Fin n)
  | shutdown
  | notifyAll
  | join (worker : Fin n)

inductive Step : State Task n → Label Task n → State Task n → Prop
  | offer (s : State Task n) (call : Call) (task : Task) :
      Step s (.offer call task (s.offer call task).1) (s.offer call task).2
  | notifyOne {s : State Task n} {worker : Fin n} (pending : 0 < s.notifying)
      (here : s.workers worker = .waiting) :
      Step s .notifyOne { s.move worker .checking with notifying := s.notifying - 1 }
  | notifyNone {s : State Task n} (pending : 0 < s.notifying)
      (awake : ∀ worker, s.workers worker ≠ .waiting) :
      Step s .notifyOne { s with notifying := s.notifying - 1 }
  | enter {s : State Task n} {worker : Fin n} (here : s.workers worker = .checking) :
      Step s (.enter worker (s.workerSection worker).1) (s.workerSection worker).2
  | finish {s : State Task n} {worker : Fin n} {queued : Queued Task}
      (here : s.workers worker = .running queued) :
      Step s (.finish worker queued) (s.move worker .checking)
  | wake {s : State Task n} {worker : Fin n} (here : s.workers worker = .waiting) :
      Step s (.wake worker) (s.move worker .checking)
  | shutdown {s : State Task n} (here : s.closing = .notCalled) :
      Step s .shutdown { s with
        stop := true
        closing := .flagged }
  | notifyAll {s : State Task n} (here : s.closing = .flagged) :
      Step s .notifyAll { s with
        workers := fun worker => (s.workers worker).wake
        closing := .joining 0 }
  | join {s : State Task n} {worker : Fin n} (here : s.closing = .joining worker)
      (exited : s.workers worker = .exited) :
      Step s (.join worker) { s with closing := .joining (worker + 1) }

def State.Returned (s : State Task n) : Prop := s.closing = .joining n

def accepted (labels : List (Label Task n)) : List (Queued Task) :=
  labels.filterMap fun
    | .offer _ task (.queued ticket) => some ⟨ticket, task⟩
    | _ => none

def taken (labels : List (Label Task n)) : List (Fin n × Queued Task) :=
  labels.filterMap fun
    | .enter worker (some queued) => some (worker, queued)
    | _ => none

def finished (labels : List (Label Task n)) : List (Fin n × Queued Task) :=
  labels.filterMap fun
    | .finish worker queued => some (worker, queued)
    | _ => none

def eventsOf (worker : Fin n) (events : List (Fin n × Queued Task)) : List (Fin n × Queued Task) :=
  events.filter fun event => event.1 = worker

def Worker.held : Worker Task → List (Queued Task)
  | .running queued => [queued]
  | _ => []

@[simp]
theorem accepted_append (labels more : List (Label Task n)) :
    accepted (labels ++ more) = accepted labels ++ accepted more := by
  simp [accepted]

@[simp]
theorem taken_append (labels more : List (Label Task n)) :
    taken (labels ++ more) = taken labels ++ taken more := by
  simp [taken]

@[simp]
theorem finished_append (labels more : List (Label Task n)) :
    finished (labels ++ more) = finished labels ++ finished more := by
  simp [finished]

@[simp]
theorem eventsOf_append (worker : Fin n) (events more : List (Fin n × Queued Task)) :
    eventsOf worker (events ++ more) = eventsOf worker events ++ eventsOf worker more := by
  simp [eventsOf]

/-- What a worker's section does: it returns, takes the first task, or waits. -/
theorem workerSection_cases (s : State Task n) (worker : Fin n) :
    (s.tasks = [] ∧ s.stop = true ∧ s.workerSection worker = (none, s.move worker .exited)) ∨
    (∃ queued rest, s.tasks = queued :: rest ∧ s.workerSection worker =
      (some queued, { s.move worker (.running queued) with tasks := rest })) ∨
    (s.tasks = [] ∧ s.stop = false ∧ s.workerSection worker = (none, s.move worker .waiting)) := by
  cases queue : s.tasks with
  | nil =>
    cases stopped : s.stop with
    | true => simp [State.workerSection, queue, stopped]
    | false => simp [State.workerSection, queue, stopped]
  | cons queued rest => simp [State.workerSection, queue]

/-- What left the queue and what is in it is what was queued, with tickets in order; and every
worker has finished what it took, except what it runs. -/
structure Served (labels : List (Label Task n)) (s : State Task n) : Prop where
  order : (taken labels).map Prod.snd ++ s.tasks = accepted labels
  tickets : (accepted labels).map Queued.ticket = List.range s.tickets
  held : ∀ worker, eventsOf worker (taken labels) =
    eventsOf worker (finished labels) ++ (s.workers worker).held.map (Prod.mk worker)

theorem Served.frame {labels : List (Label Task n)} {s next : State Task n} (inv : Served labels s)
    {label : Label Task n} (quiet : accepted [label] = [] ∧ taken [label] = [] ∧ finished [label] = [])
    (tasks : next.tasks = s.tasks) (tickets : next.tickets = s.tickets)
    (held : ∀ worker, (next.workers worker).held = (s.workers worker).held) :
    Served (labels ++ [label]) next := by
  obtain ⟨noneQueued, noneTaken, noneFinished⟩ := quiet
  constructor
  · rw [taken_append, accepted_append, noneQueued, noneTaken, tasks, List.append_nil,
      List.append_nil]
    exact inv.order
  · rw [accepted_append, noneQueued, tickets, List.append_nil]
    exact inv.tickets
  · intro worker
    rw [taken_append, finished_append, noneTaken, noneFinished, held, List.append_nil,
      List.append_nil]
    exact inv.held worker

theorem move_held {s : State Task n} {worker : Fin n} {position : Worker Task}
    (same : position.held = (s.workers worker).held) (other : Fin n) :
    ((s.move worker position).workers other).held = (s.workers other).held := by
  by_cases here : other = worker
  · subst here
    simpa [State.move] using same
  · simp [State.move, here]

theorem Served.offer {labels : List (Label Task n)} {s : State Task n} (inv : Served labels s)
    (call : Call) (task : Task) :
    Served (labels ++ [.offer call task (s.offer call task).1]) (s.offer call task).2 := by
  cases stopped : s.stop with
  | true =>
    have refused : s.offer call task = (call.refusal, s) := by simp [State.offer, stopped]
    rw [refused]
    exact inv.frame (by cases call <;> simp [accepted, taken, finished, Call.refusal]) rfl rfl
      fun _ => rfl
  | false =>
    have taken_in : s.offer call task = (.queued s.tickets, { s with
        tasks := s.tasks ++ [⟨s.tickets, task⟩]
        notifying := s.notifying + 1
        tickets := s.tickets + 1 }) := by simp [State.offer, stopped]
    rw [taken_in]
    constructor
    · calc (taken (labels ++ [.offer call task (.queued s.tickets)])).map Prod.snd ++
            (s.tasks ++ [⟨s.tickets, task⟩])
          = (taken labels).map Prod.snd ++ s.tasks ++ [⟨s.tickets, task⟩] := by simp [taken]
        _ = accepted (labels ++ [.offer call task (.queued s.tickets)]) := by
            rw [inv.order, accepted_append]
            rfl
    · calc (accepted (labels ++ [.offer call task (.queued s.tickets)])).map Queued.ticket
          = (accepted labels).map Queued.ticket ++ [s.tickets] := by simp [accepted]
        _ = List.range (s.tickets + 1) := by rw [inv.tickets, List.range_succ]
    · intro worker
      simpa [taken, finished] using inv.held worker

theorem Served.enter {labels : List (Label Task n)} {s : State Task n} (inv : Served labels s)
    {worker : Fin n} (here : s.workers worker = .checking) :
    Served (labels ++ [.enter worker (s.workerSection worker).1]) (s.workerSection worker).2 := by
  rcases workerSection_cases s worker with
    ⟨-, -, returns⟩ | ⟨queued, rest, first, takes⟩ | ⟨-, -, waits⟩
  · rw [returns]
    exact inv.frame ⟨rfl, rfl, rfl⟩ rfl rfl (move_held (by rw [here]; rfl))
  · rw [takes]
    constructor
    · calc (taken (labels ++ [.enter worker (some queued)])).map Prod.snd ++ rest
          = (taken labels).map Prod.snd ++ (queued :: rest) := by simp [taken]
        _ = accepted (labels ++ [.enter worker (some queued)]) := by
            rw [← first, inv.order, accepted_append]
            exact (List.append_nil _).symm
    · simpa [accepted, State.move] using inv.tickets
    · intro other
      have before := inv.held other
      by_cases same : other = worker
      · subst same
        rw [here] at before
        simpa [taken, finished, eventsOf, State.move, Worker.held] using before
      · have apart : ¬worker = other := fun equal => same equal.symm
        simpa [taken, finished, eventsOf, State.move, same, apart] using before
  · rw [waits]
    exact inv.frame ⟨rfl, rfl, rfl⟩ rfl rfl (move_held (by rw [here]; rfl))

theorem Served.finish {labels : List (Label Task n)} {s : State Task n} (inv : Served labels s)
    {worker : Fin n} {queued : Queued Task} (here : s.workers worker = .running queued) :
    Served (labels ++ [.finish worker queued]) (s.move worker .checking) := by
  constructor
  · simpa [taken, accepted, State.move] using inv.order
  · simpa [accepted, State.move] using inv.tickets
  · intro other
    have before := inv.held other
    by_cases same : other = worker
    · subst same
      rw [here] at before
      simpa [taken, finished, eventsOf, State.move, Worker.held] using before
    · have apart : ¬worker = other := fun equal => same equal.symm
      simpa [taken, finished, eventsOf, State.move, same, apart] using before

theorem wake_held (position : Worker Task) : position.wake.held = position.held := by
  cases position <;> rfl

theorem served_run {labels : List (Label Task n)} {s : State Task n}
    (run : Run Step (initial Task n) labels s) : Served labels s := by
  refine run.invariant Served ⟨rfl, rfl, fun _ => rfl⟩ ?_
  intro labels s label next _ inv step
  cases step with
  | offer call task => exact inv.offer call task
  | notifyOne pending here =>
    exact inv.frame ⟨rfl, rfl, rfl⟩ rfl rfl (move_held (by rw [here]; rfl))
  | notifyNone => exact inv.frame ⟨rfl, rfl, rfl⟩ rfl rfl fun _ => rfl
  | enter here => exact inv.enter here
  | finish here => exact inv.finish here
  | wake here => exact inv.frame ⟨rfl, rfl, rfl⟩ rfl rfl (move_held (by rw [here]; rfl))
  | shutdown => exact inv.frame ⟨rfl, rfl, rfl⟩ rfl rfl fun _ => rfl
  | notifyAll => exact inv.frame ⟨rfl, rfl, rfl⟩ rfl rfl fun worker => wake_held _
  | join => exact inv.frame ⟨rfl, rfl, rfl⟩ rfl rfl fun _ => rfl

structure Closed (s : State Task n) : Prop where
  flag : s.stop = true ↔ s.closing ≠ .notCalled
  exits : ∀ worker, s.workers worker = .exited → s.stop = true ∧ s.tasks = []
  awake : ∀ joined, s.closing = .joining joined → ∀ worker, s.workers worker ≠ .waiting
  joined : ∀ joined, s.closing = .joining joined → joined ≤ n ∧
    ∀ worker : Fin n, worker < joined → s.workers worker = .exited

theorem Closed.move {s : State Task n} (inv : Closed s) {worker : Fin n} {position : Worker Task}
    (running : s.workers worker ≠ .exited) (awake : position ≠ .waiting)
    (back : position ≠ .exited) : Closed (s.move worker position) := by
  constructor
  · exact inv.flag
  · intro other exited
    by_cases here : other = worker
    · subst here
      exact absurd (by simpa [State.move] using exited) back
    · exact inv.exits other (by simpa [State.move, here] using exited)
  · intro joined closing other
    by_cases here : other = worker
    · subst here
      simpa [State.move] using awake
    · simpa [State.move, here] using inv.awake joined closing other
  · intro joined closing
    refine ⟨(inv.joined joined closing).1, fun other below => ?_⟩
    have exited := (inv.joined joined closing).2 other below
    have apart : other ≠ worker := by
      rintro rfl
      exact running exited
    simpa [State.move, apart] using exited

theorem Closed.enter {s : State Task n} (inv : Closed s) {worker : Fin n}
    (here : s.workers worker = .checking) : Closed (s.workerSection worker).2 := by
  have unfinished : s.workers worker ≠ .exited := by simp [here]
  rcases workerSection_cases s worker with
    ⟨empty, stopped, returns⟩ | ⟨queued, rest, first, takes⟩ | ⟨empty, going, waits⟩
  · rw [returns]
    constructor
    · exact inv.flag
    · exact fun _ _ => ⟨stopped, empty⟩
    · intro joined closing other
      by_cases same : other = worker
      · subst same
        simp [State.move]
      · simpa [State.move, same] using inv.awake joined closing other
    · intro joined closing
      refine ⟨(inv.joined joined closing).1, fun other below => ?_⟩
      by_cases same : other = worker
      · subst same
        simp [State.move]
      · simpa [State.move, same] using (inv.joined joined closing).2 other below
  · rw [takes]
    have moved : Closed (s.move worker (.running queued)) :=
      inv.move unfinished (by simp) (by simp)
    -- a worker that has returned left an empty queue behind
    refine ⟨moved.flag, fun other exited => ?_, moved.awake, moved.joined⟩
    have nonempty := (moved.exits other exited).2
    simp [State.move, first] at nonempty
  · rw [waits]
    have notCalled : s.closing = .notCalled := by
      by_contra called
      simp [inv.flag.mpr called] at going
    constructor
    · exact inv.flag
    · intro other exited
      by_cases same : other = worker
      · subst same
        simp [State.move] at exited
      · exact inv.exits other (by simpa [State.move, same] using exited)
    · intro joined closing
      simp [State.move, notCalled] at closing
    · intro joined closing
      simp [State.move, notCalled] at closing

theorem wake_eq_exited {position : Worker Task} : position.wake = .exited ↔ position = .exited := by
  cases position <;> simp [Worker.wake]

theorem wake_ne_waiting (position : Worker Task) : position.wake ≠ .waiting := by
  cases position <;> simp [Worker.wake]

theorem Closed.step {s next : State Task n} {label : Label Task n} (inv : Closed s)
    (step : Step s label next) : Closed next := by
  cases step with
  | offer call task =>
    cases stopped : s.stop with
    | true => simpa [State.offer, stopped] using inv
    | false =>
      have closing : s.closing = .notCalled := by
        by_contra called
        simp [inv.flag.mpr called] at stopped
      refine ⟨?_, ?_, ?_, ?_⟩
      · simp [State.offer, stopped, closing]
      · intro worker exited
        have early := (inv.exits worker (by simpa [State.offer, stopped] using exited)).1
        simp [stopped] at early
      · simp [State.offer, stopped, closing]
      · simp [State.offer, stopped, closing]
  | @notifyOne worker pending here =>
    have moved : Closed (s.move worker .checking) := inv.move (by simp [here]) (by simp) (by simp)
    exact ⟨moved.flag, moved.exits, moved.awake, moved.joined⟩
  | notifyNone pending awake => exact ⟨inv.flag, inv.exits, inv.awake, inv.joined⟩
  | enter here => exact inv.enter here
  | finish here => exact inv.move (by simp [here]) (by simp) (by simp)
  | wake here => exact inv.move (by simp [here]) (by simp) (by simp)
  | shutdown here =>
    constructor
    · simp
    · exact fun worker exited => ⟨rfl, (inv.exits worker exited).2⟩
    · simp
    · simp
  | notifyAll here =>
    have flagged : s.stop = true := inv.flag.mpr (by simp [here])
    constructor
    · simp [flagged]
    · exact fun worker exited => inv.exits worker (wake_eq_exited.mp exited)
    · exact fun _ _ worker => wake_ne_waiting _
    · intro joined closing
      obtain rfl : 0 = joined := by simpa using closing
      exact ⟨Nat.zero_le n, by simp⟩
  | @join worker here exited =>
    have flagged : s.stop = true := inv.flag.mpr (by simp [here])
    constructor
    · simp [flagged]
    · exact inv.exits
    · exact fun _ _ => inv.awake worker here
    · intro joined closing
      obtain rfl : worker.val + 1 = joined := by simpa using closing
      refine ⟨worker.isLt, fun other below => ?_⟩
      rcases Nat.lt_succ_iff_lt_or_eq.mp below with before | last
      · exact (inv.joined worker here).2 other before
      · rw [Fin.ext last]
        exact exited

theorem closed_run {labels : List (Label Task n)} {s : State Task n}
    (run : Run Step (initial Task n) labels s) : Closed s := by
  refine run.invariant (fun _ s => Closed s) ⟨by simp [initial], ?_, ?_, ?_⟩ ?_
  · simp [initial]
  · simp [initial]
  · simp [initial]
  · intro labels s label next _ inv step
    exact inv.step step

/-- The flag is set once `shutdown` has been in its section. -/
theorem stop_run {labels : List (Label Task n)} {s : State Task n}
    (run : Run Step (initial Task n) labels s) : s.stop = true ↔ .shutdown ∈ labels := by
  refine run.invariant (fun labels s => s.stop = true ↔ .shutdown ∈ labels) (by simp [initial]) ?_
  intro labels s label next _ ih step
  cases step with
  | offer call task =>
    cases stopped : s.stop with
    | true => simp [State.offer, stopped, ← ih]
    | false => simp [State.offer, stopped, ← ih]
  | notifyOne => simpa [State.move] using ih
  | notifyNone => simpa using ih
  | @enter worker here =>
    rcases workerSection_cases s worker with ⟨-, -, shape⟩ | ⟨_, _, -, shape⟩ | ⟨-, -, shape⟩
    · simpa [shape, State.move] using ih
    · simpa [shape, State.move] using ih
    · simpa [shape, State.move] using ih
  | finish => simpa [State.move] using ih
  | wake => simpa [State.move] using ih
  | shutdown => simp
  | notifyAll => simpa using ih
  | join => simpa using ih

/-- What an offer is answered depends on whether `shutdown` was before it. -/
theorem offer_answer {before after : List (Label Task n)} {s : State Task n} {call : Call}
    {task : Task} {answer : Answer}
    (run : Run Step (initial Task n) (before ++ .offer call task answer :: after) s) :
    (.shutdown ∈ before → answer = call.refusal) ∧
      (.shutdown ∉ before → ∃ ticket, answer = .queued ticket) := by
  rw [List.append_cons] at run
  obtain ⟨_, first, -⟩ := run.split
  obtain ⟨current, earlier, step⟩ := first.last
  have flag := stop_run earlier
  generalize named : Label.offer call task answer = label at step
  cases step with
  | offer other same =>
    obtain ⟨rfl, rfl, rfl⟩ := Label.offer.inj named
    constructor
    · intro closed
      simp [State.offer, flag.mpr closed]
    · intro open_
      have going : current.stop = false := Bool.eq_false_iff.mpr fun stopped => open_ (flag.mp stopped)
      exact ⟨current.tickets, by simp [State.offer, going]⟩
  | _ => simp at named

/-! ### Every task is executed once -/

def executions (ticket : Nat) (events : List (Fin n × Queued Task)) : List (Fin n × Queued Task) :=
  events.filter fun event => event.2.ticket = ticket

theorem count_eventsOf [BEq (Fin n × Queued Task)] [LawfulBEq (Fin n × Queued Task)]
    (event : Fin n × Queued Task) (events : List (Fin n × Queued Task)) :
    (eventsOf event.1 events).count event = events.count event :=
  List.count_filter (decide_eq_true rfl)

/-- What the workers did worker by worker they did together, in some order. -/
theorem perm_of_eventsOf {events more : List (Fin n × Queued Task)}
    (same : ∀ worker, eventsOf worker events = eventsOf worker more) : events.Perm more := by
  classical
  refine List.perm_iff_count.mpr fun event => ?_
  rw [← count_eventsOf event events, same, count_eventsOf]

theorem subperm_of_eventsOf {events more : List (Fin n × Queued Task)}
    (within : ∀ worker, eventsOf worker events <+: eventsOf worker more) :
    events.Subperm more := by
  have := Classical.decEq (Fin n × Queued Task)
  refine List.subperm_iff_count.mpr fun event => ?_
  have below := (within event.1).sublist.count_le event
  rwa [count_eventsOf, count_eventsOf] at below

theorem filter_eq_singleton {α : Type} {key : α → Nat} {events : List α}
    (distinct : (events.map key).Nodup) {event : α} (member : event ∈ events) :
    (events.filter fun other => key other = key event) = [event] := by
  induction events with
  | nil => simp at member
  | cons first rest ih =>
    obtain ⟨fresh, distinct⟩ := List.nodup_cons.mp distinct
    rcases List.mem_cons.mp member with rfl | later
    · have none_left : (rest.filter fun other => key other = key event) = [] := by
        refine List.filter_eq_nil_iff.mpr fun other there => ?_
        simp only [decide_eq_true_eq]
        intro same
        exact fresh (same ▸ List.mem_map_of_mem there)
      simp [none_left]
    · have other : key first ≠ key event := by
        intro same
        exact fresh (same ▸ List.mem_map_of_mem later)
      simpa [other] using ih distinct later

theorem Served.distinct {labels : List (Label Task n)} {s : State Task n} (inv : Served labels s) :
    ((taken labels).map fun event => event.2.ticket).Nodup := by
  have all : ((accepted labels).map Queued.ticket).Nodup := by
    rw [inv.tickets]
    exact List.nodup_range
  rw [← inv.order, List.map_append, List.map_map] at all
  exact all.of_append_left

theorem Served.finished_subperm {labels : List (Label Task n)} {s : State Task n}
    (inv : Served labels s) : (finished labels).Subperm (taken labels) :=
  subperm_of_eventsOf fun worker => by
    rw [inv.held worker]
    exact List.prefix_append _ _

theorem Served.taken_once {labels : List (Label Task n)} {s : State Task n} (inv : Served labels s)
    {event : Fin n × Queued Task} (member : event ∈ taken labels) :
    executions event.2.ticket (taken labels) = [event] :=
  filter_eq_singleton inv.distinct member

theorem Served.taken_accepted {labels : List (Label Task n)} {s : State Task n}
    (inv : Served labels s) {event : Fin n × Queued Task} (member : event ∈ taken labels) :
    event.2 ∈ accepted labels := by
  rw [← inv.order]
  exact List.mem_append_left _ (List.mem_map_of_mem member)

theorem Served.at_most_once {labels : List (Label Task n)} {s : State Task n}
    (inv : Served labels s) (ticket : Nat) : (executions ticket (taken labels)).length ≤ 1 := by
  rcases first : executions ticket (taken labels) with _ | ⟨event, rest⟩
  · simp
  · have member : event ∈ executions ticket (taken labels) := by simp [first]
    obtain ⟨there, same⟩ := List.mem_filter.mp member
    obtain rfl : event.2.ticket = ticket := by simpa using same
    rw [← first, inv.taken_once there]
    simp

/-- When `shutdown` has returned, every worker has, and the queue is empty. -/
theorem Closed.returned {s : State Task n} (inv : Closed s) (someWorker : 0 < n)
    (returned : s.Returned) : s.tasks = [] ∧ ∀ worker, s.workers worker = .exited := by
  have exited := fun worker : Fin n => (inv.joined n returned).2 worker worker.isLt
  exact ⟨(inv.exits ⟨0, someWorker⟩ (exited _)).2, exited⟩

theorem executed_once {labels : List (Label Task n)} {s : State Task n} (someWorker : 0 < n)
    (served : Served labels s) (closed : Closed s) (returned : s.Returned)
    {queued : Queued Task} (member : queued ∈ accepted labels) :
    ∃ worker, executions queued.ticket (taken labels) = [(worker, queued)] ∧
      executions queued.ticket (finished labels) = [(worker, queued)] := by
  obtain ⟨empty, exited⟩ := closed.returned someWorker returned
  have order := served.order
  rw [empty, List.append_nil] at order
  rw [← order] at member
  obtain ⟨⟨worker, same⟩, there, rfl⟩ := List.mem_map.mp member
  have once := served.taken_once there
  have all : (finished labels).Perm (taken labels) := perm_of_eventsOf fun worker => by
    rw [served.held worker, exited worker]
    simp [Worker.held]
  have executed : (executions same.ticket (finished labels)).Perm [(worker, same)] := by
    rw [← once]
    exact all.filter _
  exact ⟨worker, once, List.perm_singleton.mp executed⟩

/-! ### `shutdown` returns -/

/-- The steps a worker has before it at most, once the flag is set, not counting queued tasks. -/
def Worker.weight : Worker Task → Nat
  | .checking => 1
  | .waiting => 2
  | .running _ => 2
  | .exited => 0

def Closing.weight (n : Nat) : Closing → Nat
  | .notCalled => n + 2
  | .flagged => n + 1
  | .joining joined => n - joined

def State.remaining (s : State Task n) : Nat :=
  2 * s.tasks.length + (∑ worker, (s.workers worker).weight) + s.notifying + s.closing.weight n

def Label.isOffer : Label Task n → Bool
  | .offer _ _ _ => true
  | _ => false

theorem weight_move (s : State Task n) (worker : Fin n) (position : Worker Task) :
    (∑ other, ((s.move worker position).workers other).weight) + (s.workers worker).weight =
      (∑ other, (s.workers other).weight) + position.weight := by
  have rest : ∑ other ∈ Finset.univ.erase worker, ((s.move worker position).workers other).weight =
      ∑ other ∈ Finset.univ.erase worker, (s.workers other).weight := by
    refine Finset.sum_congr rfl fun other member => ?_
    simp [State.move, Finset.ne_of_mem_erase member]
  have there := Finset.mem_univ worker
  rw [← Finset.add_sum_erase _ _ there, rest, ← Finset.add_sum_erase _ _ there]
  have here : (s.move worker position).workers worker = position := by simp [State.move]
  rw [here]
  omega

theorem wake_weight (position : Worker Task) : position.wake.weight ≤ position.weight := by
  cases position <;> simp [Worker.wake, Worker.weight]

/-- After the flag is set, an offer changes nothing and every other step is one of the last. -/
theorem step_remaining {s next : State Task n} {label : Label Task n} (closed : Closed s)
    (stopped : s.stop = true) (step : Step s label next) :
    label.isOffer = true ∧ next = s ∨ label.isOffer = false ∧ next.remaining < s.remaining := by
  have called : s.closing ≠ .notCalled := closed.flag.mp stopped
  cases step with
  | offer call task => exact .inl ⟨rfl, by simp [State.offer, stopped]⟩
  | @notifyOne worker pending here =>
    have moved := weight_move s worker .checking
    rw [here] at moved
    simp only [Worker.weight, State.remaining, State.move] at moved ⊢
    exact .inr ⟨rfl, by omega⟩
  | notifyNone pending =>
    simp only [State.remaining]
    exact .inr ⟨rfl, by omega⟩
  | @enter worker here =>
    rcases workerSection_cases s worker with
      ⟨empty, -, returns⟩ | ⟨queued, rest, first, takes⟩ | ⟨-, going, -⟩
    · have moved := weight_move s worker .exited
      rw [here] at moved
      rw [returns]
      simp only [Worker.weight, State.remaining, State.move] at moved ⊢
      exact .inr ⟨rfl, by omega⟩
    · have moved := weight_move s worker (.running queued)
      rw [here] at moved
      rw [takes]
      simp only [Worker.weight, State.remaining, State.move, first, List.length_cons] at moved ⊢
      exact .inr ⟨rfl, by omega⟩
    · simp [stopped] at going
  | @finish worker queued here =>
    have moved := weight_move s worker .checking
    rw [here] at moved
    simp only [Worker.weight, State.remaining, State.move] at moved ⊢
    exact .inr ⟨rfl, by omega⟩
  | @wake worker here =>
    have moved := weight_move s worker .checking
    rw [here] at moved
    simp only [Worker.weight, State.remaining, State.move] at moved ⊢
    exact .inr ⟨rfl, by omega⟩
  | shutdown here => exact absurd here called
  | notifyAll here =>
    have woken : ∑ worker, (s.workers worker).wake.weight ≤ ∑ worker, (s.workers worker).weight :=
      Finset.sum_le_sum fun worker _ => wake_weight _
    simp only [State.remaining, here, Closing.weight]
    exact .inr ⟨rfl, by omega⟩
  | @join worker here exited =>
    have inside := worker.isLt
    simp only [State.remaining, here, Closing.weight]
    exact .inr ⟨rfl, by omega⟩

theorem stop_step {s next : State Task n} {label : Label Task n} (step : Step s label next)
    (stopped : s.stop = true) : next.stop = true := by
  cases step with
  | offer call task => simp [State.offer, stopped]
  | @enter worker here =>
    rcases workerSection_cases s worker with ⟨-, -, shape⟩ | ⟨_, _, -, shape⟩ | ⟨-, -, shape⟩
    · simpa [shape, State.move] using stopped
    · simpa [shape, State.move] using stopped
    · simpa [shape, State.move] using stopped
  | shutdown => rfl
  | _ => exact stopped

theorem run_remaining {s final : State Task n} {more : List (Label Task n)} (closed : Closed s)
    (stopped : s.stop = true) (run : Run Step s more final) :
    (more.countP fun label => !label.isOffer) + final.remaining ≤ s.remaining := by
  refine (run.invariant (fun more current => Closed current ∧ current.stop = true ∧
    (more.countP fun label => !label.isOffer) + current.remaining ≤ s.remaining)
    ⟨closed, stopped, by simp⟩ ?_).2.2
  rintro more current label next - ⟨closed, stopped, bound⟩ step
  refine ⟨closed.step step, stop_step step stopped, ?_⟩
  rw [List.countP_append, List.countP_singleton]
  rcases step_remaining closed stopped step with ⟨offer, rfl⟩ | ⟨other, less⟩
  · simpa [offer] using bound
  · simp only [other, Bool.not_false, if_true]
    omega

/-- Until `shutdown` returns, some thread of the pool can move. -/
theorem can_move {s : State Task n} (closed : Closed s) (stopped : s.stop = true)
    (pending : ¬s.Returned) : ∃ label next, Step s label next ∧ label.isOffer = false := by
  cases closing : s.closing with
  | notCalled => exact absurd closing (closed.flag.mp stopped)
  | flagged => exact ⟨_, _, .notifyAll closing, rfl⟩
  | joining joined =>
    have below : joined < n := by
      refine lt_of_le_of_ne (closed.joined joined closing).1 fun all => pending ?_
      rw [State.Returned, closing, all]
    let worker : Fin n := ⟨joined, below⟩
    cases position : s.workers worker with
    | checking => exact ⟨_, _, .enter position, rfl⟩
    | waiting => exact absurd position (closed.awake joined closing worker)
    | running queued => exact ⟨_, _, .finish position, rfl⟩
    | exited =>
      have last : Step s (.join worker) { s with closing := .joining (worker + 1) } :=
        .join closing position
      exact ⟨_, _, last, rfl⟩

/-- A task in the queue is never left to sleeping workers alone. -/
theorem no_lost_wakeup {labels : List (Label Task n)} {s : State Task n} (someWorker : 0 < n)
    (run : Run Step (initial Task n) labels s) (queued : s.tasks ≠ []) :
    (∃ worker, s.workers worker ≠ .waiting) ∨ 0 < s.notifying := by
  revert queued
  refine run.invariant (fun _ s => s.tasks ≠ [] →
    (∃ worker, s.workers worker ≠ .waiting) ∨ 0 < s.notifying) (by simp [initial]) ?_
  intro labels s label next _ ih step queued
  cases step with
  | offer call task =>
    cases stopped : s.stop with
    | true =>
      have same : (s.offer call task).2 = s := by simp [State.offer, stopped]
      rw [same] at queued ⊢
      exact ih queued
    | false => exact .inr (by simp [State.offer, stopped])
  | @notifyOne worker => exact .inl ⟨worker, by simp [State.move]⟩
  | notifyNone pending awake => exact .inl ⟨⟨0, someWorker⟩, awake _⟩
  | @enter worker here =>
    rcases workerSection_cases s worker with
      ⟨empty, -, returns⟩ | ⟨_, _, -, takes⟩ | ⟨empty, -, waits⟩
    · exact .inl ⟨worker, by simp [returns, State.move]⟩
    · exact .inl ⟨worker, by simp [takes, State.move]⟩
    · rw [waits] at queued
      exact absurd empty queued
  | @finish worker => exact .inl ⟨worker, by simp [State.move]⟩
  | @wake worker => exact .inl ⟨worker, by simp [State.move]⟩
  | shutdown => exact ih queued
  | notifyAll => exact .inl ⟨⟨0, someWorker⟩, wake_ne_waiting _⟩
  | join => exact ih queued

/-- Of every run: the tasks leave the queue in the order they were queued, each to one worker; an
offer is refused once `shutdown` has set the flag and accepted before, and only accepted tasks are
executed, none of them twice; when `shutdown` has returned, the queue is empty and each accepted
task was executed by one worker, to its end; and `shutdown` does return, since the pool has only
so many steps left and one of them can be taken. -/
theorem each_task_once (someWorker : 0 < n) {labels : List (Label Task n)} {s : State Task n}
    (run : Run Step (initial Task n) labels s) :
    (taken labels).map Prod.snd ++ s.tasks = accepted labels ∧
    (accepted labels).map Queued.ticket = List.range s.tickets ∧
    (∀ before call task answer after, labels = before ++ .offer call task answer :: after →
      (.shutdown ∈ before → answer = call.refusal) ∧
        (.shutdown ∉ before → ∃ ticket, answer = .queued ticket)) ∧
    (∀ ticket, (executions ticket (taken labels)).length ≤ 1) ∧
    (finished labels).Subperm (taken labels) ∧
    (s.Returned → s.tasks = [] ∧ ∀ queued ∈ accepted labels, ∃ worker,
      executions queued.ticket (taken labels) = [(worker, queued)] ∧
        executions queued.ticket (finished labels) = [(worker, queued)]) ∧
    (.shutdown ∈ labels → ¬s.Returned → ∃ label next, Step s label next ∧ label.isOffer = false) ∧
    (.shutdown ∈ labels → ∀ more final, Run Step s more final →
      (more.countP fun label => !label.isOffer) ≤ s.remaining) := by
  have served := served_run run
  have closed := closed_run run
  have flag := stop_run run
  refine ⟨served.order, served.tickets, ?_, served.at_most_once, served.finished_subperm, ?_, ?_, ?_⟩
  · rintro before call task answer after rfl
    exact offer_answer run
  · intro returned
    exact ⟨(closed.returned someWorker returned).1, fun queued member =>
      executed_once someWorker served closed returned member⟩
  · intro called
    exact can_move closed (flag.mpr called)
  · intro called more final later
    have bound := run_remaining closed (flag.mpr called) later
    omega

/-- One worker executes one task and is joined. -/
theorem each_task_once_one : ∃ (labels : List (Label Unit 1)) (s : State Unit 1),
    Run Step (initial Unit 1) labels s ∧ s.Returned ∧
      ∃ worker, executions 0 (finished labels) = [(worker, ⟨0, ()⟩)] := by
  have offered := Run.single (Step.offer (initial Unit 1) .enqueue ())
  have entered := offered.snoc (@Step.enter Unit 1 _ 0 rfl)
  have finished := entered.snoc (@Step.finish Unit 1 _ 0 ⟨0, ()⟩ rfl)
  have flagged := finished.snoc (Step.shutdown rfl)
  have notified := flagged.snoc (Step.notifyAll rfl)
  have left := notified.snoc (@Step.enter Unit 1 _ 0 rfl)
  have joined := left.snoc (@Step.join Unit 1 _ 0 rfl rfl)
  have once := (each_task_once Nat.one_pos joined).2.2.2.2.2.1 rfl
  obtain ⟨worker, -, executed⟩ := once.2 ⟨0, ()⟩ (List.mem_singleton_self _)
  exact ⟨_, _, joined, rfl, worker, executed⟩

end LogMonitor.ThreadPool
