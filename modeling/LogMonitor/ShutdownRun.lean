import LogMonitor.Shutdown

/-!
What holds in every run up to the end of `main`. The buffer's and the pipeline's own
theorems speak about the two runs inside; what is left is the order in which `main`
joins, and that no thread is inside `try_push` when `main` returns.
-/

namespace LogMonitor.Shutdown
open Library.Transition
open RingBuffer (Event logCapacity)
open LogPipeline (PatternEngine)

variable {ι Rule : Type}

@[simp]
theorem events_append (first second : List (Label ι)) :
    events (first ++ second) = events first ++ events second :=
  List.filterMap_append

@[simp]
theorem pipeLabels_append (first second : List (Label ι)) :
    pipeLabels (first ++ second) = pipeLabels first ++ pipeLabels second :=
  List.flatMap_append

@[simp]
theorem accepted_append (first second : List (Label ι)) :
    accepted (first ++ second) = accepted first ++ accepted second :=
  List.filterMap_append

@[simp]
theorem events_single (label : Label ι) : events [label] = label.event.toList := by
  cases shape : label.event <;> simp [events, shape]

@[simp]
theorem pipeLabels_single (label : Label ι) : pipeLabels [label] = label.pipeline := by
  simp [pipeLabels]

section Buffer

variable [DecidableEq ι] {ring next : RingBuffer.State ι LogEntry} {event : Event ι LogEntry}

/-- The head moves with a claim only, and the tail with a pop only. -/
theorem positions_stay (moved : RingBuffer.Moved logCapacity ring next event)
    (noClaim : event.claim = none) (noPop : event.pop = none) :
    next.head = ring.head ∧ next.tail = ring.tail := by
  cases moved with
  | called value point => exact ⟨rfl, rfl⟩
  | produced move =>
    cases move with
    | exchanged point here => cases noClaim
    | _ => exact ⟨rfl, rfl⟩
  | polled point => exact ⟨rfl, rfl⟩
  | consumed move =>
    cases move with
    | advanced point => cases noPop
    | _ => exact ⟨rfl, rfl⟩

theorem observePush_inside {i : ι} (log : Option LogEntry × List LogEntry)
    (inside : returns event = false) (notCalled : ∀ j value, event ≠ .called j value) :
    RingBuffer.observePush i log event = log := by
  cases event with
  | silent => rfl
  | called j value => exact absurd rfl (notCalled j value)
  | claimed j pos value => rfl
  | pushReturned j accepted => cases inside
  | recycled => rfl
  | popReturned result => cases inside

theorem tryPush_event {i : ι} {entry : LogEntry}
    (taken : RingBuffer.step logCapacity ring (.tryPush i entry) = some (next, event)) :
    event = .called i entry := by
  cases point : ring.producer i <;>
    simp only [RingBuffer.step, point, Option.some.injEq, Prod.mk.injEq, reduceCtorEq] at taken
  exact taken.2.symm

theorem produce_event {i : ι} {spurious : Bool}
    (taken : RingBuffer.step logCapacity ring (.produce i spurious) = some (next, event)) :
    (∀ j value, event ≠ .called j value) ∧ event.pop = none := by
  cases RingBuffer.produce_cases taken <;> exact ⟨nofun, rfl⟩

theorem tryPop_event
    (taken : RingBuffer.step logCapacity ring .tryPop = some (next, event)) : event = .silent := by
  cases point : ring.consumer <;>
    simp only [RingBuffer.step, point, Option.some.injEq, Prod.mk.injEq, reduceCtorEq] at taken
  exact taken.2.symm

theorem consume_event
    (taken : RingBuffer.step logCapacity ring .consume = some (next, event)) :
    (∀ j value, event ≠ .called j value) ∧ event.claim = none := by
  cases RingBuffer.consume_cases taken <;> exact ⟨nofun, rfl⟩

/-- The same values from every producer, up to the order of the producers. -/
theorem perm_of_claimsBy {first second : List (ι × LogEntry)}
    (same : ∀ i, RingBuffer.claimsBy i first = RingBuffer.claimsBy i second) :
    first.Perm second := by
  have counts : ∀ (pairs : List (ι × LogEntry)) (i : ι) (entry : LogEntry),
      pairs.count (i, entry) = (RingBuffer.claimsBy i pairs).count entry := by
    intro pairs i entry
    unfold RingBuffer.claimsBy
    rw [List.count, List.count, List.countP_map, List.countP_filter]
    refine List.countP_congr fun pair _ => ?_
    simp [Prod.ext_iff, and_comm]
  apply List.perm_iff_count.mpr
  rintro ⟨i, entry⟩
  rw [counts, counts, same]

end Buffer

variable [DecidableEq ι] {kind : ι → Kind} {engine : PatternEngine Rule}
  {workers : Nat} {labels : List (Label ι)} {label : Label ι} {s t : State ι Rule}

theorem step_ring (step : Step kind engine s label t) :
    Run (RingBuffer.Step logCapacity) s.ring label.event.toList t.ring := by
  cases step with
  | call here taken => exact Run.single ⟨_, taken⟩
  | produce here taken inside => exact Run.single ⟨_, taken⟩
  | pushReturns here taken => exact Run.single ⟨_, taken⟩
  | poll here taken => exact Run.single ⟨_, taken⟩
  | consume taken inside => exact Run.single ⟨_, taken⟩
  | popReturns taken moved => exact Run.single ⟨_, taken⟩
  | _ => exact Run.refl

theorem step_pipe (step : Step kind engine s label t) :
    Run (LogPipeline.Step engine) s.pipe label.pipeline t.pipe := by
  cases step with
  | popReturns taken moved => exact moved
  | pipe own moved => exact Run.single moved
  | signal => exact Run.single (.raise _)
  | stop here => exact Run.single (.raise _)
  | shutdown here => exact Run.single (.shutdown _)
  | _ => exact Run.refl

theorem ring_run (run : Run (Step kind engine) (initial ι Rule workers) labels s) :
    Run (RingBuffer.Step logCapacity) RingBuffer.initial (events labels) s.ring := by
  apply Run.invariant (fun labels s =>
    Run (RingBuffer.Step logCapacity) RingBuffer.initial (events labels) s.ring) _ _ run
  · exact Run.refl
  · intro labels current label next _ ih step
    rw [events_append, events_single]
    exact ih.trans (step_ring step)

theorem pipe_run (run : Run (Step kind engine) (initial ι Rule workers) labels s) :
    Run (LogPipeline.Step engine) (LogPipeline.initial workers) (pipeLabels labels) s.pipe := by
  apply Run.invariant (fun labels s =>
    Run (LogPipeline.Step engine) (LogPipeline.initial workers) (pipeLabels labels) s.pipe) _ _ run
  · exact Run.refl
  · intro labels current label next _ ih step
    rw [pipeLabels_append, pipeLabels_single]
    exact ih.trans (step_pipe step)

theorem step_popped (step : Step kind engine s label t) :
    RingBuffer.pops (events [label]) = LogPipeline.popped label.pipeline := by
  rw [events_single]
  cases step with
  | call here taken => rw [tryPush_event taken]; rfl
  | produce here taken inside =>
    change RingBuffer.pops [_] = _
    rw [RingBuffer.pops_single, (produce_event taken).2]
    rfl
  | pushReturns here taken => rfl
  | poll here taken => rw [tryPop_event taken]; rfl
  | @consume ring event taken inside =>
    cases event with
    | popReturned result => cases inside
    | _ => rfl
  | @popReturns draining result ring pipe taken moved => cases draining <;> cases result <;> rfl
  | @pipe label pipe own moved =>
    cases label with
    | pop entry => cases own
    | drain entry => cases own
    | _ => rfl
  | _ => rfl

theorem popped_eq (run : Run (Step kind engine) (initial ι Rule workers) labels s) :
    RingBuffer.pops (events labels) = LogPipeline.popped (pipeLabels labels) := by
  apply Run.invariant (fun labels _ =>
    RingBuffer.pops (events labels) = LogPipeline.popped (pipeLabels labels)) _ _ run
  · rfl
  · intro labels current label next _ ih step
    rw [events_append, RingBuffer.pops_append, pipeLabels_append, LogPipeline.popped_append, ih,
      step_popped step, pipeLabels_single]

def Thread.pending : Thread → Option LogEntry
  | .inPush entry _ => some entry
  | _ => none

theorem Thread.Over.pending {thread : Thread} (ended : thread.Over) : thread.pending = none := by
  rcases ended with unborn | returned
  · rw [unborn]
    rfl
  · rw [returned]
    rfl

theorem first_pending (kind : Kind) : kind.first.pending = none := by
  cases kind <;> rfl

theorem after_pending (kind : Kind) : kind.after.pending = none := by
  cases kind <;> rfl

theorem onRefusal_pending (kind : Kind) (stop : Bool) (entry : LogEntry) (rest : List LogEntry) :
    (kind.onRefusal stop entry rest).pending = none := by
  cases kind <;> cases stop <;> rfl

theorem move_pending {i : ι} {position : Thread} (before : (s.threads i).pending = none)
    (after : position.pending = none) (j : ι) :
    ((s.move i position).threads j).pending = (s.threads j).pending := by
  by_cases same : j = i
  · rw [same, State.move_self, before, after]
  · rw [State.move_ne s position same]

/-- The log of a producer: the entry it is pushing, and those accepted from it. -/
def LogOk (labels : List (Label ι)) (s : State ι Rule) : Prop :=
  ∀ i, RingBuffer.pushLog i (events labels) =
    ((s.threads i).pending, RingBuffer.claimsBy i (accepted labels))

theorem LogOk.frame (log : LogOk labels s) (noneAccepted : accepted [label] = [])
    (quiet : ∀ i seen, (events [label]).foldl (RingBuffer.observePush i) seen = seen)
    (pending : ∀ i, (t.threads i).pending = (s.threads i).pending) :
    LogOk (labels ++ [label]) t := by
  intro i
  rw [events_append, accepted_append, noneAccepted, List.append_nil, pending, ← log i,
    RingBuffer.pushLog, RingBuffer.pushLog, List.foldl_append, quiet]

theorem LogOk.step (log : LogOk labels s) (step : Step kind engine s label t) :
    LogOk (labels ++ [label]) t := by
  cases step with
  | @start i here opened =>
    exact log.frame rfl (fun _ _ => rfl) (move_pending (by rw [here]; rfl) (first_pending _))
  | @check i here =>
    refine log.frame rfl (fun _ _ => rfl) (move_pending (by rw [here]; rfl) ?_)
    cases s.pipe.stopFlag <;> rfl
  | @timeout i here loops =>
    exact log.frame rfl (fun _ _ => rfl) (move_pending (by rw [here]; rfl) rfl)
  | @leave i here => exact log.frame rfl (fun _ _ => rfl) (move_pending (by rw [here]; rfl) rfl)
  | @read i entries here reads =>
    exact log.frame rfl (fun _ _ => rfl) (move_pending (by rw [here]; rfl) rfl)
  | @finish i here =>
    exact log.frame rfl (fun _ _ => rfl) (move_pending (by rw [here]; rfl) (after_pending _))
  | @retry i entry rest here =>
    exact log.frame rfl (fun _ _ => rfl)
      (move_pending (by rw [here]; rfl) (onRefusal_pending _ _ _ _))
  | @call i entry rest ring event here taken =>
    intro j
    have known := log j
    rw [tryPush_event taken, events_append, accepted_append]
    by_cases same : j = i
    · subst same
      rw [here] at known
      change RingBuffer.pushLog j (events labels ++ [.called j entry]) =
        (((s.move j (.inPush entry rest)).threads j).pending, _)
      rw [RingBuffer.pushLog_concat, known, RingBuffer.observePush, if_pos rfl, State.move_self]
      simp [accepted, Thread.pending]
    · have other : ¬i = j := fun equal => same equal.symm
      change RingBuffer.pushLog j (events labels ++ [.called i entry]) =
        (((s.move i (.inPush entry rest)).threads j).pending, _)
      rw [RingBuffer.pushLog_concat, known, RingBuffer.observePush, if_neg other,
        State.move_ne s _ same]
      simp [accepted]
  | @produce i entry rest spurious ring event here taken inside =>
    refine log.frame rfl (fun j seen => ?_) fun _ => rfl
    rw [events_single]
    exact observePush_inside seen inside (produce_event taken).1
  | @pushReturns i entry rest spurious answer ring here taken =>
    intro j
    have known := log j
    rw [events_append, accepted_append]
    by_cases same : j = i
    · subst same
      rw [here] at known
      change RingBuffer.pushLog j (events labels ++ [.pushReturned j answer]) =
        (((s.move j _).threads j).pending, _)
      rw [RingBuffer.pushLog_concat, known, RingBuffer.observePush, if_pos rfl, State.move_self]
      cases answer with
      | false => simp [accepted, Thread.pending]
      | true => simp [accepted, Thread.pending, RingBuffer.claimsBy]
    · have other : ¬i = j := fun equal => same equal.symm
      change RingBuffer.pushLog j (events labels ++ [.pushReturned i answer]) =
        (((s.move i _).threads j).pending, _)
      rw [RingBuffer.pushLog_concat, known, RingBuffer.observePush, if_neg other,
        State.move_ne s _ same]
      cases answer with
      | false => simp [accepted]
      | true => simp [accepted, RingBuffer.claimsBy, other]
  | poll here taken =>
    refine log.frame rfl (fun j seen => ?_) fun _ => rfl
    rw [tryPop_event taken]
    rfl
  | consume taken inside =>
    refine log.frame rfl (fun j seen => ?_) fun _ => rfl
    rw [events_single]
    exact observePush_inside seen inside (consume_event taken).1
  | popReturns taken moved => exact log.frame rfl (fun _ _ => rfl) fun _ => rfl
  | pipe own moved => exact log.frame rfl (fun _ _ => rfl) fun _ => rfl
  | signal => exact log.frame rfl (fun _ _ => rfl) fun _ => rfl
  | stop here => exact log.frame rfl (fun _ _ => rfl) fun _ => rfl
  | join ready => exact log.frame rfl (fun _ _ => rfl) fun _ => rfl
  | shutdown here => exact log.frame rfl (fun _ _ => rfl) fun _ => rfl

theorem log_run (run : Run (Step kind engine) (initial ι Rule workers) labels s) :
    LogOk labels s :=
  run.invariant LogOk (fun _ => rfl) fun _ _ _ _ _ log step => log.step step

structure Order (kind : ι → Kind) (s : State ι Rule) : Prop where
  threads : ∀ i, s.main.Past (kind i).joinedAt → (s.threads i).Over
  pipeline : s.main.Past .joiningPipeline → s.pipe.consumer = .returned
  stopped : s.pipe.stop = true ↔ s.main.Past .shuttingDown
  workers : s.main.Past .joiningWorkers → s.pipe.alive = 0

/-- Along the pipeline's steps: a consumer that has returned has returned, and without `shutdown`
the pool keeps its flag. -/
theorem pipe_frame {labels : List LogPipeline.Label} {pipe next : LogPipeline.State Rule}
    (run : Run (LogPipeline.Step engine) pipe labels next) :
    (pipe.consumer = .returned → next.consumer = .returned) ∧ next.alive ≤ pipe.alive ∧
      (.shutdown ∉ labels → next.stop = pipe.stop) := by
  apply Run.invariant (fun labels next =>
    (pipe.consumer = .returned → next.consumer = .returned) ∧ next.alive ≤ pipe.alive ∧
      (.shutdown ∉ labels → next.stop = pipe.stop)) _ _ run
  · exact ⟨id, le_rfl, fun _ => rfl⟩
  · rintro labels current label next _ ⟨returned, alive, stop⟩ step
    refine ⟨fun gone => step.returned (returned gone), step.alive_le.trans alive, fun never => ?_⟩
    rw [List.mem_append, List.mem_singleton, not_or] at never
    rw [step.stop_eq fun here => never.2 here.symm, stop never.1]

omit [DecidableEq ι] in
theorem Order.frame (order : Order kind s)
    (pipe : Run (LogPipeline.Step engine) s.pipe label.pipeline t.pipe)
    (serving : .shutdown ∉ label.pipeline) (main : t.main = s.main)
    (threads : ∀ i, s.main.Past (kind i).joinedAt → (s.threads i).Over → (t.threads i).Over) :
    Order kind t := by
  obtain ⟨returned, alive, stop⟩ := pipe_frame pipe
  constructor
  · rw [main]
    exact fun i past => threads i past (order.threads i past)
  · rw [main]
    exact fun past => returned (order.pipeline past)
  · rw [main, stop serving]
    exact order.stopped
  · rw [main]
    exact fun past => Nat.le_zero.mp (alive.trans (order.workers past).le)

theorem move_over {i : ι} {position : Thread} (going : ¬(s.threads i).Over) (j : ι)
    (ended : (s.threads j).Over) : ((s.move i position).threads j).Over := by
  by_cases same : j = i
  · rw [same] at ended
    exact absurd ended going
  · rwa [State.move_ne s position same]

omit [DecidableEq ι] in
theorem State.Ready.ended (ready : s.Ready kind) {i : ι} (here : (kind i).joinedAt = s.main) :
    (s.threads i).Over := by
  unfold State.Ready at ready
  rcases (kind i).joinedAt_cases with joined | joined | joined <;>
    (rw [here] at joined; simp only [joined] at ready here; exact ready i here)

omit [DecidableEq ι] in
theorem Order.advance (order : Order kind s) (running : s.main ≠ .returned)
    (pipe : Run (LogPipeline.Step engine) s.pipe label.pipeline t.pipe)
    (main : t.main = s.main.next) (threads : t.threads = s.threads)
    (joined : ∀ i, (kind i).joinedAt = s.main → (s.threads i).Over)
    (pipeline : s.main = .joiningPipeline → s.pipe.consumer = .returned)
    (stopped : t.pipe.stop = true ↔ s.pipe.stop = true ∨ s.main = .shuttingDown)
    (workers : s.main = .joiningWorkers → s.pipe.alive = 0) : Order kind t := by
  obtain ⟨returned, alive, _⟩ := pipe_frame pipe
  constructor
  · intro i past
    rw [main, Main.past_next running] at past
    rw [threads]
    exact past.elim (order.threads i) (joined i)
  · intro past
    rw [main, Main.past_next running] at past
    exact returned (past.elim order.pipeline fun here => pipeline here.symm)
  · rw [main, Main.past_next running, stopped, order.stopped]
    exact or_congr_right eq_comm
  · intro past
    rw [main, Main.past_next running] at past
    have none : s.pipe.alive = 0 := past.elim order.workers fun here => workers here.symm
    exact Nat.le_zero.mp (alive.trans none.le)

theorem Order.step (order : Order kind s) (step : Step kind engine s label t) : Order kind t := by
  have piped := step_pipe step
  have moves {i : ι} {position : Thread} (going : ¬(s.threads i).Over) :
      ∀ j, s.main.Past (kind j).joinedAt → (s.threads j).Over →
        ((s.move i position).threads j).Over := fun j _ ended => move_over going j ended
  cases step with
  | @start i here opened =>
    refine order.frame piped nofun rfl fun j past ended => ?_
    by_cases same : j = i
    · rw [same] at past
      exact absurd past opened
    · rwa [State.move_ne s _ same]
  | @check i here => exact order.frame piped nofun rfl (moves (by rw [here]; nofun))
  | timeout here loops => exact order.frame piped nofun rfl (moves (by rw [here]; nofun))
  | leave here => exact order.frame piped nofun rfl (moves (by rw [here]; nofun))
  | read here reads => exact order.frame piped nofun rfl (moves (by rw [here]; nofun))
  | finish here => exact order.frame piped nofun rfl (moves (by rw [here]; nofun))
  | retry here => exact order.frame piped nofun rfl (moves (by rw [here]; nofun))
  | call here taken => exact order.frame piped nofun rfl (moves (by rw [here]; nofun))
  | produce here taken inside => exact order.frame piped nofun rfl fun _ _ => id
  | pushReturns here taken => exact order.frame piped nofun rfl (moves (by rw [here]; nofun))
  | poll here taken => exact order.frame piped nofun rfl fun _ _ => id
  | consume taken inside => exact order.frame piped nofun rfl fun _ _ => id
  | @popReturns draining result ring pipe taken moved =>
    refine order.frame piped ?_ rfl fun _ _ => id
    cases draining <;> cases result <;> simp [Label.pipeline, handed]
  | @pipe label pipe own moved =>
    refine order.frame piped ?_ rfl fun _ _ => id
    intro inside
    rw [← List.mem_singleton.mp inside] at own
    cases own
  | signal => exact order.frame piped (by simp [Label.pipeline]) rfl fun _ _ => id
  | stop here =>
    refine order.advance (by rw [here]; nofun) piped (by rw [here]; rfl) rfl (fun i joined => ?_) ?_
      ?_ ?_
    · exact absurd (joined.trans here) (kind i).joinedAt_ne.1
    · rw [here]
      nofun
    · simp [here, State.raise]
    · rw [here]
      nofun
  | join ready =>
    have running : s.main ≠ .returned := fun here => by simp [State.Ready, here] at ready
    refine order.advance running piped rfl rfl (fun i here => ready.ended here)
      (fun here => ?_) ?_ (fun here => ?_)
    · simpa [State.Ready, here] using ready
    · have other : s.main ≠ .shuttingDown := fun here => by simp [State.Ready, here] at ready
      simp [other]
    · simpa [State.Ready, here] using ready
  | shutdown here =>
    refine order.advance (by rw [here]; nofun) piped (by rw [here]; rfl) rfl (fun i joined => ?_) ?_
      ?_ ?_
    · exact absurd (joined.trans here) (kind i).joinedAt_ne.2
    · rw [here]
      nofun
    · simp [here]
    · rw [here]
      nofun

theorem order_run (run : Run (Step kind engine) (initial ι Rule workers) labels s) :
    Order kind s := by
  refine run.invariant (fun _ s => Order kind s) ?_ fun _ _ _ _ _ order step => order.step step
  have serving : ∀ position, ¬Main.serving.Past position := fun _ => Nat.not_lt_zero _
  exact ⟨fun i _ => Or.inl rfl, fun past => absurd past (serving _),
    ⟨nofun, fun past => absurd past (serving _)⟩, fun past => absurd past (serving _)⟩

theorem dropped_run (run : Run (Step kind engine) (initial ι Rule workers) labels s) :
    LogPipeline.dropped (pipeLabels labels) = [] := by
  apply Run.invariant (fun labels _ => LogPipeline.dropped (pipeLabels labels) = []) _ _ run
  · rfl
  · intro labels current label next run none step
    have order := order_run run
    rw [pipeLabels_append, LogPipeline.dropped_append, none, List.nil_append, pipeLabels_single]
    cases step with
    | @popReturns draining result ring pipe taken moved => cases draining <;> cases result <;> rfl
    | @pipe label pipe own moved =>
      cases moved with
      | @enqueue entry here =>
        cases stopped : current.pipe.stop with
        | false => rfl
        | true =>
          have past : current.main.Past .joiningPipeline :=
            lt_trans (by decide) (order.stopped.mp stopped)
          rw [order.pipeline past] at here
          cases here
      | _ => rfl
    | _ => rfl

/-- When `main` has returned, no thread is inside `try_push`. -/
theorem Order.quiet (order : Order kind s) (returned : s.main = .returned)
    (run : Run (Step kind engine) (initial ι Rule workers) labels s) (i : ι) :
    s.ring.producer i = .idle := by
  have past : s.main.Past (kind i).joinedAt := by
    rw [returned]
    rcases (kind i).joinedAt_cases with joined | joined | joined <;> rw [joined] <;> decide
  have log := log_run run i
  have point := RingBuffer.run_order i (ring_run run)
  rw [log, (order.threads i past).pending] at point
  cases here : s.ring.producer i with
  | idle => rfl
  | publish pos =>
    rw [here] at point
    obtain ⟨value, pending, _⟩ := point
    cases pending
  | _ =>
    rw [here] at point
    cases point.1

theorem accepted_perm (run : Run (Step kind engine) (initial ι Rule workers) labels s)
    (returned : s.main = .returned) :
    (accepted labels).Perm (RingBuffer.claims (events labels)) := by
  refine perm_of_claimsBy fun i => ?_
  have idle := (order_run run).quiet returned run i
  have point := RingBuffer.run_order i (ring_run run)
  have all := point.accepted.2 fun pos => by
    rw [idle]
    exact id
  rw [log_run run i] at all
  exact all

theorem processed_perm (someWorker : 0 < workers)
    (run : Run (Step kind engine) (initial ι Rule workers) labels s)
    (returned : s.main = .returned) :
    (RingBuffer.pops (events labels)).Perm (processed labels s) := by
  have order := order_run run
  have gone : s.pipe.consumer = .returned := order.pipeline (by rw [returned]; decide)
  have finished : s.pipe.Finished :=
    ⟨gone, order.stopped.mpr (by rw [returned]; decide), order.workers (by rw [returned]; decide)⟩
  have counted := LogPipeline.popped_run (pipe_run run)
  rw [gone] at counted
  have all := (LogPipeline.accounted_run (pipe_run run)).finished someWorker finished
  rw [dropped_run run, List.append_nil] at all
  rw [popped_eq run, counted]
  simpa [LogPipeline.Consumer.unlined, processed] using all

def Clean (kind : ι → Kind) (engine : PatternEngine Rule) (workers : Nat) (labels : List (Label ι))
    (s : State ι Rule) : Prop :=
  ∀ label, ¬Took (Step kind engine) (initial ι Rule workers) labels s label fun _ m => Loses m label

/-- An entry is behind the drain: the consumer is gone, and fewer were popped than claimed. -/
def Behind (labels : List (Label ι)) (s : State ι Rule) : Prop :=
  s.pipe.consumer = .returned ∧
    (RingBuffer.pops (events labels)).length < (RingBuffer.claims (events labels)).length

theorem pops_le_claims (run : Run (Step kind engine) (initial ι Rule workers) labels s)
    (few : (RingBuffer.claims (events labels)).length < 2 ^ 63) :
    (RingBuffer.pops (events labels)).length ≤ (RingBuffer.claims (events labels)).length := by
  have inv := RingBuffer.run_invariant (by decide) (ring_run run) few
  have ordered := inv.ordered
  rw [inv.recycled_eq] at ordered
  omega

theorem positions_eq_iff (run : Run (Step kind engine) (initial ι Rule workers) labels s)
    (few : (RingBuffer.claims (events labels)).length < 2 ^ 63) :
    s.ring.head = s.ring.tail ↔
      (RingBuffer.claims (events labels)).length = (RingBuffer.pops (events labels)).length := by
  have inv := RingBuffer.run_invariant (by decide) (ring_run run) few
  have fewer := pops_le_claims run few
  rw [inv.head, inv.tail]
  exact ⟨RingBuffer.ofNat_injective (by omega) (by omega), fun same => by rw [same]⟩

/-- A result is handed to a consumer that waits for it, and ends it if there is none. -/
theorem handed_consumer {draining : Bool} {result : Option LogEntry}
    {pipe next : LogPipeline.State Rule}
    (run : Run (LogPipeline.Step engine) pipe (handed draining result) next) :
    pipe.consumer ≠ .returned ∧
      (next.consumer = .returned → draining = true ∧ result = none) := by
  cases draining <;> cases result <;> obtain ⟨middle, first, rest⟩ := run.uncons
  case false.none =>
    rw [rest.of_nil]
    cases first with
    | popNothing here => simp [here]
  case true.none =>
    cases first with
    | drainNothing here => simp [here]
  case false.some entry =>
    obtain ⟨last, second, none⟩ := rest.uncons
    rw [none.of_nil]
    cases first with
    | push => cases second with
      | pop here found =>
        have waits : pipe.consumer = .popping := here
        simp [waits]
  case true.some entry =>
    obtain ⟨last, second, none⟩ := rest.uncons
    rw [none.of_nil]
    cases first with
    | push => cases second with
      | drain here found =>
        have waits : pipe.consumer = .draining := here
        obtain ⟨_, _, same⟩ := LogPipeline.matchAndAlert_eq engine
          { pipe with ring := pipe.ring ++ [entry] } entry
        rw [same]
        simp [waits]

/-- Only the last look of the drain ends the consumer. -/
theorem step_returned (step : Step kind engine s label t) (gone : t.pipe.consumer = .returned) :
    s.pipe.consumer = .returned ∨ label = .popped true none := by
  cases step with
  | @popReturns draining result ring pipe taken moved =>
    obtain ⟨rfl, rfl⟩ := (handed_consumer moved).2 gone
    exact .inr rfl
  | @pipe label pipe own moved =>
    rcases moved.of_returned gone with before | last
    · exact .inl before
    · rw [last] at own
      cases own
  | _ => exact .inl gone

theorem step_positions (step : Step kind engine s label t)
    (noClaim : ∀ event, label = .ring event → event.claim = none)
    (gone : t.pipe.consumer = .returned) :
    t.ring.head = s.ring.head ∧ t.ring.tail = s.ring.tail := by
  cases step with
  | call here taken =>
    rw [tryPush_event taken] at taken
    exact positions_stay (RingBuffer.step_cases ⟨_, taken⟩) rfl rfl
  | produce here taken inside =>
    exact positions_stay (RingBuffer.step_cases ⟨_, taken⟩) (noClaim _ rfl) (produce_event taken).2
  | pushReturns here taken => exact positions_stay (RingBuffer.step_cases ⟨_, taken⟩) rfl rfl
  | poll here taken =>
    rw [tryPop_event taken] at taken
    exact positions_stay (RingBuffer.step_cases ⟨_, taken⟩) rfl rfl
  | @consume ring event taken inside =>
    refine positions_stay (RingBuffer.step_cases ⟨_, taken⟩) (consume_event taken).2 ?_
    cases event with
    | popReturned result => cases inside
    | _ => rfl
  | @popReturns draining result ring pipe taken moved =>
    obtain ⟨rfl, rfl⟩ := (handed_consumer moved).2 gone
    exact positions_stay (RingBuffer.step_cases ⟨_, taken⟩) rfl rfl
  | _ => exact ⟨rfl, rfl⟩

/-- In a run that loses nothing, the drain ends with nothing claimed, and so it stays. -/
theorem positions_of_clean (run : Run (Step kind engine) (initial ι Rule workers) labels s)
    (clean : Clean kind engine workers labels s) :
    s.pipe.consumer = .returned → s.ring.head = s.ring.tail := by
  apply run.invariant_of_never
    (fun s => s.pipe.consumer = .returned → s.ring.head = s.ring.tail) _ _ clean
  · intro gone
    cases gone
  · intro current label next same step harmless gone
    have level : current.ring.head = current.ring.tail ∧
        ∀ event, label = .ring event → event.claim = none := by
      rcases step_returned step gone with before | last
      · refine ⟨same before, fun event here => ?_⟩
        cases event with
        | claimed i pos value =>
          rw [here] at harmless
          exact absurd before harmless
        | _ => rfl
      · rw [last] at harmless
        refine ⟨not_not.mp harmless, fun event here => ?_⟩
        rw [last] at here
        cases here
    obtain ⟨head, tail⟩ := step_positions step level.2 gone
    rw [head, tail, level.1]

theorem Behind.step (behind : Behind labels s) (step : Step kind engine s label t) :
    Behind (labels ++ [label]) t := by
  obtain ⟨gone, fewer⟩ := behind
  have stays : RingBuffer.pops (events [label]) = [] := by
    rw [step_popped step]
    cases step with
    | popReturns taken moved => exact absurd gone (handed_consumer moved).1
    | @pipe label pipe own moved =>
      cases label with
      | pop entry => cases own
      | drain entry => cases own
      | _ => rfl
    | _ => rfl
  refine ⟨(pipe_frame (step_pipe step)).1 gone, ?_⟩
  rw [events_append, RingBuffer.pops_append, RingBuffer.claims_append, stays, List.length_append,
    List.length_append]
  exact Nat.lt_add_right _ fewer

/-- A step that loses an entry leaves it behind the drain. -/
theorem Loses.behind (run : Run (Step kind engine) (initial ι Rule workers) labels s)
    (few : (RingBuffer.claims (events labels)).length < 2 ^ 63) (loses : Loses s label)
    (step : Step kind engine s label t) : Behind (labels ++ [label]) t := by
  have fewer := pops_le_claims run few
  match label, loses with
  | .popped true none, apart =>
    have apart : (RingBuffer.claims (events labels)).length ≠
        (RingBuffer.pops (events labels)).length := fun same =>
      apart ((positions_eq_iff run few).mpr same)
    cases step with
    | popReturns taken moved =>
      obtain ⟨last, first, rest⟩ := moved.uncons
      rw [rest.of_nil]
      cases first with
      | drainNothing here =>
        refine ⟨rfl, ?_⟩
        have silent : events (labels ++ [.popped true none]) =
            events labels ++ [.popReturned none] := events_append _ _
        rw [silent, RingBuffer.pops_append, RingBuffer.claims_append]
        simp only [RingBuffer.pops_single, RingBuffer.claims_single, Event.pop, Event.claim,
          Option.toList_none, List.append_nil]
        omega
  | .ring (.claimed i pos entry), gone =>
    refine ⟨(pipe_frame (step_pipe step)).1 gone, ?_⟩
    have claimed : events (labels ++ [.ring (.claimed i pos entry)]) =
        events labels ++ [.claimed i pos entry] := events_append _ _
    rw [claimed, RingBuffer.pops_append, RingBuffer.claims_append]
    simp only [RingBuffer.pops_single, RingBuffer.claims_single, Event.pop, Event.claim,
      Option.toList_none, Option.toList_some, List.append_nil, List.length_append,
      List.length_singleton]
    omega

/-- When `main` has returned, every accepted entry was popped and processed if and only if the
drain ended with nothing claimed and no position was claimed after that. -/
theorem noneLost_iff (someWorker : 0 < workers)
    (run : Run (Step kind engine) (initial ι Rule workers) labels s) (returned : s.main = .returned)
    (few : (RingBuffer.claims (events labels)).length < 2 ^ 63) :
    NoneLost labels s ↔ Clean kind engine workers labels s := by
  have perm := (accepted_perm run returned).map Prod.snd
  have fewer := pops_le_claims run few
  constructor
  · rintro ⟨popped, _⟩ label ⟨before, after, middle, next, rfl, first, step, rest, loses⟩
    have earlier : (RingBuffer.claims (events before)).length < 2 ^ 63 := by
      rw [events_append, RingBuffer.claims_append, List.length_append] at few
      omega
    have behind : Behind (before ++ [label] ++ after) s := by
      apply rest.invariant (fun more s => Behind (before ++ [label] ++ more) s)
      · rw [List.append_nil]
        exact Loses.behind first earlier loses step
      · intro more current label next _ behind step
        rw [← List.append_assoc]
        exact behind.step step
    have shape : before ++ [label] ++ after = before ++ label :: after := by simp
    rw [shape] at behind
    have enough := popped.length_le
    rw [perm.length_eq, List.length_map] at enough
    exact absurd enough (not_le.mpr behind.2)
  · intro clean
    have gone : s.pipe.consumer = .returned := (order_run run).pipeline (by rw [returned]; decide)
    have level := (positions_eq_iff run few).mp (positions_of_clean run clean gone)
    have inv := RingBuffer.run_invariant (by decide) (ring_run run) few
    have fifo := inv.fifo
    rw [← level, List.take_length] at fifo
    have all : ((accepted labels).map Prod.snd).Perm (RingBuffer.pops (events labels)) := by
      rw [fifo]
      exact perm
    exact ⟨all.subperm, (all.trans (processed_perm someWorker run returned)).subperm⟩

section Scenario

def Inside (threads : ι → Thread) : RingBuffer.Action ι LogEntry → Prop
  | .produce i _ => ∃ entry rest, threads i = .inPush entry rest
  | .consume => True
  | _ => False

theorem inside_run {actions : List (RingBuffer.Action ι LogEntry)}
    {ring : RingBuffer.State ι LogEntry} {shown : List (Event ι LogEntry)}
    (own : ∀ action ∈ actions, Inside s.threads action)
    (done : RingBuffer.execute logCapacity s.ring actions = some (ring, shown))
    (inside : ∀ event ∈ shown, returns event = false) :
    Run (Step kind engine) s (shown.map .ring) { s with ring := ring } := by
  induction actions generalizing s shown with
  | nil =>
    simp only [RingBuffer.execute, Option.some.injEq, Prod.mk.injEq] at done
    obtain ⟨rfl, rfl⟩ := done
    exact Run.refl
  | cons action actions ih =>
    simp only [RingBuffer.execute, Option.bind_eq_bind, Option.bind_eq_some_iff,
      Option.some.injEq] at done
    obtain ⟨⟨next, event⟩, first, ⟨last, more⟩, second, same⟩ := done
    obtain ⟨rfl, rfl⟩ := Prod.mk.inj same
    have quiet := inside event List.mem_cons_self
    have taken : Step kind engine s (.ring event) { s with ring := next } := by
      have here := own action List.mem_cons_self
      cases action with
      | tryPush i value => exact here.elim
      | produce i spurious =>
        obtain ⟨entry, rest, position⟩ := here
        exact .produce position first quiet
      | tryPop => exact here.elim
      | consume => exact .consume first quiet
    have rest := ih (s := { s with ring := next })
      (fun other member => own other (List.mem_cons_of_mem _ member)) second
      fun other member => inside other (List.mem_cons_of_mem _ member)
    exact (Run.single taken).trans rest

theorem push_run {i : ι} {entry : LogEntry} {rest : List LogEntry}
    (here : s.threads i = .pushing (entry :: rest)) (idle : s.ring.producer i = .idle)
    (free : (s.ring.slot logCapacity s.ring.head).sequence = s.ring.head) :
    Run (Step kind engine) s
      [.ring (.called i entry), .ring .silent, .ring .silent, .ring (.claimed i s.ring.head entry),
        .ring .silent, .pushed i entry true]
      { s.move i (.pushing rest) with ring := s.ring.pushed logCapacity entry } := by
  have same : RingBuffer.signedDifference
      (s.ring.slots (s.ring.head &&& RingBuffer.kMask logCapacity)).sequence s.ring.head = 0 :=
    RingBuffer.signedDifference_eq_zero.mpr free
  have called : Step kind engine s (.ring (.called i entry)) { s.move i (.inPush entry rest) with
      ring := s.ring.setProducer i (.loadHead entry) } :=
    .call here (by simp [RingBuffer.step, idle])
  let stored : RingBuffer.State ι LogEntry :=
    ({ s.ring with head := s.ring.head + 1 }.setSlot logCapacity s.ring.head
      { s.ring.slot logCapacity s.ring.head with storage := some entry }).setProducer i
        (.publish s.ring.head)
  have done : RingBuffer.execute logCapacity (s.ring.setProducer i (.loadHead entry))
      [.produce i false, .produce i false, .produce i false, .produce i false] =
      some (stored, [.silent, .silent, .claimed i s.ring.head entry, .silent]) := by
    simp [stored, RingBuffer.execute, RingBuffer.step, RingBuffer.produce, same,
      RingBuffer.State.setProducer, RingBuffer.State.setSlot, RingBuffer.State.slot]
  have published : RingBuffer.step logCapacity stored (.produce i false) =
      some (s.ring.pushed logCapacity entry, .pushReturned i true) := by
    simp [stored, RingBuffer.step, RingBuffer.produce, idle, RingBuffer.State.setProducer,
      RingBuffer.State.setSlot, RingBuffer.State.slot, RingBuffer.State.pushed]
  have inPush : (s.move i (.inPush entry rest)).threads i = .inPush entry rest :=
    s.move_self i _
  have between : Run (Step kind engine)
      { s.move i (.inPush entry rest) with ring := s.ring.setProducer i (.loadHead entry) } _
      { s.move i (.inPush entry rest) with ring := stored } :=
    inside_run (by simp [Inside]) done (by simp [returns])
  have returned : Step kind engine { s.move i (.inPush entry rest) with ring := stored }
      (.pushed i entry true)
      { s.move i (.pushing rest) with ring := s.ring.pushed logCapacity entry } := by
    have step := @Step.pushReturns ι Rule _ kind engine
      { s.move i (.inPush entry rest) with ring := stored } i entry rest false true _ inPush
      published
    simpa [State.move, Function.update_idem] using step
  exact ((Run.single called).trans between).snoc returned

variable {draining : Bool} {pipe : LogPipeline.State Rule}

theorem pop_run {entry : LogEntry} (idle : s.ring.consumer = .idle)
    (ready : s.ring.slot logCapacity s.ring.tail = ⟨s.ring.tail + 1, some entry⟩)
    (here : s.pipe.consumer = .popping ∨ s.pipe.consumer = .draining)
    (moved : Run (LogPipeline.Step engine) s.pipe (handed draining (some entry)) pipe) :
    Run (Step kind engine) s
      [.ring .silent, .ring .silent, .ring .silent, .ring .recycled, .popped draining (some entry)]
      { s with
        ring := s.ring.popped logCapacity
        pipe := pipe } := by
  simp only [RingBuffer.State.slot] at ready
  have polled : Step kind engine s (.ring .silent)
      { s with ring := s.ring.setConsumer .loadSequence } :=
    .poll here (by simp [RingBuffer.step, idle])
  let recycled : RingBuffer.State ι LogEntry :=
    (s.ring.setSlot logCapacity s.ring.tail
      ⟨s.ring.tail + BitVec.ofNat 64 logCapacity.value, none⟩).setConsumer (.advance entry)
  have done : RingBuffer.execute logCapacity (s.ring.setConsumer .loadSequence)
      [.consume, .consume, .consume] = some (recycled, [.silent, .silent, .recycled]) := by
    simp [recycled, RingBuffer.execute, RingBuffer.step, RingBuffer.consume, ready,
      RingBuffer.State.setConsumer, RingBuffer.State.setSlot, RingBuffer.State.slot]
  have advanced : RingBuffer.step logCapacity recycled .consume =
      some (s.ring.popped logCapacity, .popReturned (some entry)) := by
    simp [recycled, RingBuffer.step, RingBuffer.consume, idle, RingBuffer.State.setConsumer,
      RingBuffer.State.setSlot, RingBuffer.State.popped]
  have between : Run (Step kind engine) { s with ring := s.ring.setConsumer .loadSequence } _
      { s with ring := recycled } :=
    inside_run (by simp [Inside]) done (by simp [returns])
  exact ((Run.single polled).trans between).snoc (.popReturns advanced moved)

theorem miss_run (idle : s.ring.consumer = .idle)
    (empty : RingBuffer.signedDifference (s.ring.slot logCapacity s.ring.tail).sequence
      (s.ring.tail + 1) ≠ 0)
    (here : s.pipe.consumer = .popping ∨ s.pipe.consumer = .draining)
    (moved : Run (LogPipeline.Step engine) s.pipe (handed draining none) pipe) :
    Run (Step kind engine) s [.ring .silent, .popped draining none] { s with pipe := pipe } := by
  have polled : Step kind engine s (.ring .silent)
      { s with ring := s.ring.setConsumer .loadSequence } :=
    .poll here (by simp [RingBuffer.step, idle])
  have missed : RingBuffer.step logCapacity (s.ring.setConsumer .loadSequence) .consume =
      some (s.ring, .popReturned none) := by
    clear polled
    generalize s.ring = ring at idle empty
    obtain ⟨head, tail, slots, producer, consumer⟩ := ring
    simp only [RingBuffer.State.slot] at idle empty
    simp only [RingBuffer.step, RingBuffer.consume, RingBuffer.State.setConsumer,
      RingBuffer.State.slot, idle]
    exact if_neg empty
  exact (Run.single polled).snoc (.popReturns missed moved)

end Scenario

def watcher : Unit → Kind := fun _ => .fileWatcher

def entry : LogEntry := LogPipeline.entry

def beforeStop : List (Label Unit) :=
  [.thread (), .thread (), .thread (), .ring (.called () entry), .ring .silent, .ring .silent,
    .ring (.claimed () 0 entry), .ring .silent, .pushed () entry true, .pipe .check, .ring .silent,
    .ring .silent, .ring .silent, .ring .recycled, .popped false (some entry), .pipe (.count entry),
    .pipe (.enqueue entry true), .pipe (.take entry), .pipe (.alert 0), .pipe (.callback 0),
    .thread (), .pipe .raise, .thread (), .main, .main, .pipe .check, .ring .silent,
    .popped true none, .main, .main, .main, .pipe .shutdown, .pipe .exit, .main]

theorem noneLost_beforeStop : ∃ s : State Unit Unit, NoneLost beforeStop s ∧
    Clean watcher LogPipeline.oneRule 1 beforeStop s := by
  have started := Run.single (@Step.start Unit Unit _ watcher LogPipeline.oneRule
    (initial Unit Unit 1) () rfl (by decide))
  have checked := started.snoc (@Step.check _ _ _ _ _ _ () rfl)
  have reading := checked.snoc (@Step.read _ _ _ _ _ _ () [entry] rfl trivial)
  have pushed := reading.trans (@push_run Unit Unit _ _ _ _ () entry [] rfl rfl rfl)
  have polling := pushed.snoc (.pipe rfl (.check rfl))
  have popped := polling.trans (@pop_run Unit Unit _ _ _ _ false _ entry rfl rfl (.inl rfl)
    ((Run.single (.push _ entry)).snoc (.pop rfl rfl)))
  have counted := (popped.snoc (.pipe rfl (.count rfl))).snoc (.pipe rfl (.enqueue rfl))
  have taken := counted.snoc (.pipe rfl (.take rfl (by decide)))
  have alerted := taken.snoc (.pipe rfl (@LogPipeline.Step.alert _ _ _ 0 entry rfl))
  have called := alerted.snoc (.pipe rfl (@LogPipeline.Step.callback _ _ _ 0 entry (some ()) rfl))
  have finished := (called.snoc (@Step.finish _ _ _ _ _ _ () rfl)).snoc (.stop rfl)
  have left := finished.snoc (@Step.check _ _ _ _ _ _ () rfl)
  have closed := (left.snoc (.join nofun)).snoc (.join nofun)
  have draining := closed.snoc (.pipe rfl (.check rfl))
  have drained := draining.trans (@miss_run Unit Unit _ _ _ _ true _ rfl (by decide) (.inr rfl)
    (Run.single (.drainNothing rfl)))
  have joined := (drained.snoc (.join rfl)).snoc (.join trivial)
  have ended := joined.snoc (.join fun i _ => .inr rfl)
  have shut := (ended.snoc (.shutdown rfl)).snoc (.pipe rfl (.exit rfl rfl (by decide)))
  have run : Run _ _ beforeStop _ := shut.snoc (.join rfl)
  have both := noneLost_iff (by decide) run rfl (by decide)
  have kept := both.mp ⟨List.Subperm.refl [entry], List.Subperm.refl [entry]⟩
  exact ⟨_, both.mpr kept, kept⟩

def afterDrain : List (Label Unit) :=
  [.thread (), .thread (), .thread (), .pipe .raise, .main, .main, .pipe .check, .ring .silent,
    .popped true none, .main, .main, .ring (.called () entry), .ring .silent, .ring .silent,
    .ring (.claimed () 0 entry), .ring .silent, .pushed () entry true, .thread (), .thread (),
    .main, .pipe .shutdown, .pipe .exit, .main]

/-- The entry is accepted after the drain, and nobody pops it. -/
theorem afterDrain_lost : ∃ s : State Unit Unit,
    Run (Step watcher LogPipeline.oneRule) (initial Unit Unit 1) afterDrain s ∧
      s.main = .returned ∧ ¬NoneLost afterDrain s := by
  have started := Run.single (@Step.start Unit Unit _ watcher LogPipeline.oneRule
    (initial Unit Unit 1) () rfl (by decide))
  have checked := started.snoc (@Step.check _ _ _ _ _ _ () rfl)
  have reading := checked.snoc (@Step.read _ _ _ _ _ _ () [entry] rfl trivial)
  have stopped := reading.snoc (.stop rfl)
  have closed := (stopped.snoc (.join nofun)).snoc (.join nofun)
  have draining := closed.snoc (.pipe rfl (.check rfl))
  have drained := draining.trans (@miss_run Unit Unit _ _ _ _ true _ rfl (by decide) (.inr rfl)
    (Run.single (.drainNothing rfl)))
  have joined := (drained.snoc (.join rfl)).snoc (.join trivial)
  have pushed := joined.trans (@push_run Unit Unit _ _ _ _ () entry [] rfl rfl rfl)
  have left := (pushed.snoc (@Step.finish _ _ _ _ _ _ () rfl)).snoc (@Step.check _ _ _ _ _ _ () rfl)
  have ended := left.snoc (.join fun i _ => .inr rfl)
  have shut := (ended.snoc (.shutdown rfl)).snoc (.pipe rfl (.exit rfl rfl (by decide)))
  have run := shut.snoc (.join rfl)
  exact ⟨_, run, rfl, fun lost => absurd lost.popped.length_le (by decide)⟩


end LogMonitor.Shutdown
