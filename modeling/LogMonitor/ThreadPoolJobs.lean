import LogMonitor.ThreadPool

/-!
A pool whose tasks wait for something that only the outside brings. How far the pool
gets by itself, without spurious wake-ups, depends on how many of its tasks never
come to their end.
-/

namespace LogMonitor.ThreadPool
open Library.Transition

variable {Task σ : Type} {n : Nat}

/-- The constructor; without a number it leaves two threads of the hardware to others. -/
def threadCount (hardware numThreads : Nat) : Nat :=
  if numThreads = 0 then if 2 < hardware then hardware - 2 else 1 else numThreads

theorem threadCount_pos (hardware numThreads : Nat) : 0 < threadCount hardware numThreads := by
  unfold threadCount
  split_ifs <;> omega

/-- Tasks that go on by themselves until they are over or have to wait. -/
structure Jobs (σ : Type) where
  advance : σ → Option σ
  done : σ → Bool
  /-- An exception has left the worker, which ends the process. -/
  fatal : σ → Bool
  left : σ → Nat
  less {session next : σ} : advance session = some next → left next < left session
  ended {session : σ} : done session = true → advance session = none

def Jobs.settle (jobs : Jobs σ) (session : σ) : σ :=
  match _step : jobs.advance session with
  | none => session
  | some next => jobs.settle next
termination_by jobs.left session
decreasing_by exact jobs.less _step

def Jobs.Ends (jobs : Jobs σ) (session : σ) : Prop := jobs.done (jobs.settle session) = true

instance (jobs : Jobs σ) (session : σ) : Decidable (jobs.Ends session) :=
  inferInstanceAs (Decidable (_ = true))

structure Work (σ Task : Type) (n : Nat) where
  pool : State Task n
  sessions : Nat → σ
  alive : Bool

inductive OwnLabel (Task : Type) (n : Nat) where
  | pool (label : Label Task n)
  | advance (ticket : Nat)

/-- What the threads of the pool do by themselves; `notify_one` and the end of `shutdown` are due
once their threads have begun. -/
def Label.isDue : Label Task n → Bool
  | .notifyOne => true
  | .enter _ _ => true
  | .notifyAll => true
  | .join _ => true
  | _ => false

inductive Own (jobs : Jobs σ) : Work σ Task n → OwnLabel Task n → Work σ Task n → Prop
  | pool {w : Work σ Task n} {label : Label Task n} {next : State Task n} (alive : w.alive = true)
      (due : label.isDue = true) (step : Step w.pool label next) :
      Own jobs w (.pool label) { w with pool := next }
  | finish {w : Work σ Task n} {worker : Fin n} {queued : Queued Task} (alive : w.alive = true)
      (here : w.pool.workers worker = .running queued)
      (done : jobs.done (w.sessions queued.ticket) = true) :
      Own jobs w (.pool (.finish worker queued)) { w with pool := w.pool.move worker .checking }
  | advance {w : Work σ Task n} {worker : Fin n} {queued : Queued Task} {session : σ}
      (alive : w.alive = true) (here : w.pool.workers worker = .running queued)
      (step : jobs.advance (w.sessions queued.ticket) = some session) :
      Own jobs w (.advance queued.ticket) { w with
        sessions := Function.update w.sessions queued.ticket session
        alive := !jobs.fatal session }

def State.held (s : State Task n) : List (Queued Task) :=
  (List.finRange n).flatMap fun worker => (s.workers worker).held

def Work.Rests (jobs : Jobs σ) (w : Work σ Task n) : Prop := ∀ label next, ¬Own jobs w label next

def Work.stuck (jobs : Jobs σ) (w : Work σ Task n) (tasks : List (Queued Task)) : Nat :=
  tasks.countP fun queued => ¬jobs.Ends (w.sessions queued.ticket)

section Settle

variable {jobs : Jobs σ}

theorem Jobs.settle_advance {session next : σ} (step : jobs.advance session = some next) :
    jobs.settle session = jobs.settle next := by
  rw [settle]
  split
  next none =>
    rw [step] at none
    cases none
  next other same =>
    rw [step] at same
    rw [Option.some.inj same]

theorem Jobs.settle_waiting {session : σ} (waits : jobs.advance session = none) :
    jobs.settle session = session := by
  rw [settle]
  split
  next => rfl
  next other same =>
    rw [waits] at same
    cases same

theorem Jobs.ends_advance {session next : σ} (step : jobs.advance session = some next) :
    jobs.Ends session ↔ jobs.Ends next := by
  rw [Ends, Ends, jobs.settle_advance step]

theorem Jobs.ends_done {session : σ} (done : jobs.done session = true) : jobs.Ends session := by
  rw [Ends, jobs.settle_waiting (jobs.ended done)]
  exact done

theorem Jobs.not_ends {session : σ} (waits : jobs.advance session = none)
    (going : jobs.done session = false) : ¬jobs.Ends session := by
  rw [Ends, jobs.settle_waiting waits, going]
  exact Bool.false_ne_true

end Settle

section Pool

variable {labels : List (Label Task n)} {s : State Task n}

theorem mem_held {queued : Queued Task} :
    queued ∈ s.held ↔ ∃ worker, s.workers worker = .running queued := by
  simp only [State.held, List.mem_flatMap, List.mem_finRange, true_and]
  apply exists_congr
  intro worker
  cases s.workers worker with
  | running other => simp [Worker.held, eq_comm]
  | _ => simp [Worker.held]

theorem Served.running (served : Served labels s) {worker : Fin n} {queued : Queued Task}
    (here : s.workers worker = .running queued) : (worker, queued) ∈ taken labels := by
  have held := served.held worker
  rw [here] at held
  have event : (worker, queued) ∈ eventsOf worker (taken labels) := by simp [held, Worker.held]
  exact (List.mem_filter.mp event).1

theorem Served.one_worker (served : Served labels s) {worker other : Fin n} {queued : Queued Task}
    (here : s.workers worker = .running queued) (there : s.workers other = .running queued) :
    worker = other := by
  have first := served.taken_once (served.running here)
  have second := served.taken_once (served.running there)
  have same := List.singleton_inj.mp (first.symm.trans second)
  exact congrArg Prod.fst same

theorem Served.nodup (served : Served labels s) : (s.held ++ s.tasks).Nodup := by
  have all : ((taken labels).map Prod.snd ++ s.tasks).Nodup := by
    apply List.Nodup.of_map Queued.ticket
    rw [served.order, served.tickets]
    exact List.nodup_range
  obtain ⟨-, tasks, apart⟩ := List.nodup_append.mp all
  apply List.nodup_append.mpr
  refine ⟨List.nodup_flatMap.mpr ⟨fun worker _ => ?_, ?_⟩, tasks, ?_⟩
  · cases s.workers worker <;> simp [Worker.held]
  · refine (List.nodup_finRange n).imp fun {worker other} different queued one two => different ?_
    have here : s.workers worker = .running queued := by
      cases position : s.workers worker <;> simp_all [Worker.held]
    have there : s.workers other = .running queued := by
      cases position : s.workers other <;> simp_all [Worker.held]
    exact served.one_worker here there
  · intro queued one
    obtain ⟨worker, here⟩ := mem_held.mp one
    exact apart queued (List.mem_map_of_mem (served.running here))

def Worker.alert : Worker Task → Nat
  | .checking => 1
  | _ => 0

theorem sum_move (weight : Worker Task → Nat) (s : State Task n) (worker : Fin n)
    (position : Worker Task) :
    (∑ other, weight ((s.move worker position).workers other)) + weight (s.workers worker) =
      (∑ other, weight (s.workers other)) + weight position := by
  have rest : ∑ other ∈ Finset.univ.erase worker, weight ((s.move worker position).workers other) =
      ∑ other ∈ Finset.univ.erase worker, weight (s.workers other) := by
    refine Finset.sum_congr rfl fun other member => ?_
    simp [State.move, Finset.ne_of_mem_erase member]
  have there := Finset.mem_univ worker
  rw [← Finset.add_sum_erase _ _ there, rest, ← Finset.add_sum_erase _ _ there]
  have here : (s.move worker position).workers worker = position := by simp [State.move]
  rw [here]
  omega

/-- As long as a worker sleeps, whatever is queued has somebody who will see it. -/
theorem wakeful_run (run : Run Step (initial Task n) labels s) {worker : Fin n}
    (asleep : s.workers worker = .waiting) :
    s.tasks.length ≤ s.notifying + ∑ other, (s.workers other).alert := by
  revert worker
  refine run.invariant (fun _ s => ∀ {worker : Fin n}, s.workers worker = .waiting →
    s.tasks.length ≤ s.notifying + ∑ other, (s.workers other).alert) (fun _ => Nat.zero_le _) ?_
  intro labels s label next _ ih step
  -- who sleeps after another worker has moved slept before
  have slept {mover sleeper : Fin n} {position : Worker Task} (awake : position ≠ .waiting)
      (asleep : (s.move mover position).workers sleeper = .waiting) :
      s.workers sleeper = .waiting := by
    by_cases same : sleeper = mover
    · subst same
      simp only [State.move, Function.update_self] at asleep
      exact absurd asleep awake
    · simpa [State.move, same] using asleep
  cases step with
  | offer call task =>
    intro sleeper asleep
    cases stopped : s.stop with
    | true =>
      simp only [State.offer, stopped, if_true] at asleep ⊢
      exact ih asleep
    | false =>
      simp only [State.offer, stopped, Bool.false_eq_true, if_false] at asleep ⊢
      have before := ih asleep
      rw [List.length_append, List.length_singleton]
      omega
  | @notifyOne worker pending here =>
    intro sleeper asleep
    have before := ih here
    have moved := sum_move Worker.alert s worker .checking
    rw [here] at moved
    simp only [Worker.alert, State.move] at moved before ⊢
    omega
  | notifyNone pending awake =>
    intro sleeper asleep
    exact absurd asleep (awake sleeper)
  | @enter worker here =>
    intro sleeper asleep
    rcases workerSection_cases s worker with
      ⟨empty, -, returns⟩ | ⟨queued, rest, first, takes⟩ | ⟨empty, -, waits⟩
    · rw [returns]
      simp [State.move, empty]
    · rw [takes] at asleep ⊢
      have before := ih (@slept worker _ (.running queued) (by simp) asleep)
      have moved := sum_move Worker.alert s worker (.running queued)
      rw [here] at moved
      rw [first, List.length_cons] at before
      simp only [Worker.alert, State.move] at moved before ⊢
      omega
    · rw [waits]
      simp [State.move, empty]
  | @finish worker queued here =>
    intro sleeper asleep
    have before := ih (@slept worker _ .checking (by simp) asleep)
    have moved := sum_move Worker.alert s worker .checking
    rw [here] at moved
    simp only [Worker.alert, State.move] at moved before ⊢
    omega
  | @wake worker here =>
    intro sleeper asleep
    have before := ih (@slept worker _ .checking (by simp) asleep)
    have moved := sum_move Worker.alert s worker .checking
    rw [here] at moved
    simp only [Worker.alert, State.move] at moved before ⊢
    omega
  | shutdown =>
    intro sleeper asleep
    exact ih asleep
  | notifyAll =>
    intro sleeper asleep
    exact absurd asleep (wake_ne_waiting _)
  | join =>
    intro sleeper asleep
    exact ih asleep

end Pool

section Progress

variable {jobs : Jobs σ}

/-- How far the pool has come by itself: the tasks in `gone` have left the queue. -/
structure Progress (jobs : Jobs σ) (first w : Work σ Task n) (gone : List (Queued Task)) :
    Prop where
  reached : ∃ labels, Run Step (initial Task n) labels w.pool
  queue : first.pool.tasks = gone ++ w.pool.tasks
  stop : w.pool.stop = first.pool.stop
  ends : ∀ ticket, jobs.Ends (w.sessions ticket) ↔ jobs.Ends (first.sessions ticket)
  running : ∀ worker queued, w.pool.workers worker = .running queued →
    queued ∈ first.pool.held ++ gone
  stays : ∀ queued ∈ first.pool.held ++ gone, ¬jobs.Ends (first.sessions queued.ticket) →
    ∃ worker, w.pool.workers worker = .running queued

theorem Progress.start {w : Work σ Task n} {labels : List (Label Task n)}
    (run : Run Step (initial Task n) labels w.pool) : Progress jobs w w [] where
  reached := ⟨labels, run⟩
  queue := rfl
  stop := rfl
  ends _ := Iff.rfl
  running worker queued here := by
    rw [List.append_nil]
    exact mem_held.mpr ⟨worker, here⟩
  stays queued listed _ := by
    rw [List.append_nil] at listed
    exact mem_held.mp listed

theorem Progress.same {first w : Work σ Task n} {gone : List (Queued Task)}
    (inv : Progress jobs first w gone) {label : Label Task n} {next : State Task n}
    (step : Step w.pool label next) (tasks : next.tasks = w.pool.tasks)
    (stop : next.stop = w.pool.stop)
    (workers : ∀ worker queued, next.workers worker = .running queued ↔
      w.pool.workers worker = .running queued) :
    Progress jobs first { w with pool := next } gone := by
  obtain ⟨labels, run⟩ := inv.reached
  constructor
  · exact ⟨labels ++ [label], run.snoc step⟩
  · rw [tasks]
    exact inv.queue
  · exact stop.trans inv.stop
  · exact inv.ends
  · exact fun worker queued here => inv.running worker queued ((workers worker queued).mp here)
  · intro queued listed stuck
    obtain ⟨worker, here⟩ := inv.stays queued listed stuck
    exact ⟨worker, (workers worker queued).mpr here⟩

theorem move_running {s : State Task n} {worker : Fin n} {position : Worker Task}
    (other : Fin n) (queued : Queued Task) :
    (s.move worker position).workers other = .running queued ↔
      other = worker ∧ position = .running queued ∨
        other ≠ worker ∧ s.workers other = .running queued := by
  by_cases same : other = worker
  · simp [State.move, same]
  · simp [State.move, same]

theorem move_idle {s : State Task n} {worker : Fin n} {position : Worker Task}
    (before : ∀ queued, s.workers worker ≠ .running queued)
    (after : ∀ queued, position ≠ .running queued) (other : Fin n) (queued : Queued Task) :
    (s.move worker position).workers other = .running queued ↔
      s.workers other = .running queued := by
  rw [move_running]
  by_cases same : other = worker
  · subst same
    simp [before, after]
  · simp [same]

theorem Progress.pop {first w : Work σ Task n} {gone : List (Queued Task)}
    (inv : Progress jobs first w gone) {worker : Fin n} {queued : Queued Task}
    {rest : List (Queued Task)} (here : w.pool.workers worker = .checking)
    (front : w.pool.tasks = queued :: rest)
    (takes : w.pool.workerSection worker =
      (some queued, { w.pool.move worker (.running queued) with tasks := rest })) :
    Progress jobs first { w with pool := (w.pool.workerSection worker).2 } (gone ++ [queued]) := by
  obtain ⟨labels, run⟩ := inv.reached
  constructor
  · exact ⟨_, run.snoc (.enter here)⟩
  · rw [inv.queue, front, takes, List.append_assoc, List.singleton_append]
  · rw [takes]
    exact inv.stop
  · exact inv.ends
  · intro other task there
    rw [takes] at there
    rw [← List.append_assoc]
    rcases (move_running other task).mp there with ⟨-, same⟩ | ⟨-, before⟩
    · exact List.mem_append_right _ (List.mem_singleton.mpr (Worker.running.inj same).symm)
    · exact List.mem_append_left _ (inv.running other task before)
  · intro task listed stuck
    rw [takes]
    rw [← List.append_assoc] at listed
    rcases List.mem_append.mp listed with old | new
    · obtain ⟨other, before⟩ := inv.stays task old stuck
      refine ⟨other, (move_running other task).mpr (.inr ⟨?_, before⟩)⟩
      rintro rfl
      rw [here] at before
      cases before
    · rw [List.mem_singleton.mp new]
      exact ⟨worker, (move_running worker queued).mpr (.inl ⟨rfl, rfl⟩)⟩

theorem Progress.finish {first w : Work σ Task n} {gone : List (Queued Task)}
    (inv : Progress jobs first w gone) {worker : Fin n} {queued : Queued Task}
    (here : w.pool.workers worker = .running queued)
    (done : jobs.done (w.sessions queued.ticket) = true) :
    Progress jobs first { w with pool := w.pool.move worker .checking } gone := by
  obtain ⟨labels, run⟩ := inv.reached
  constructor
  · exact ⟨_, run.snoc (.finish here)⟩
  · exact inv.queue
  · exact inv.stop
  · exact inv.ends
  · intro other task there
    rcases (move_running other task).mp there with ⟨-, same⟩ | ⟨-, before⟩
    · cases same
    · exact inv.running other task before
  · intro task listed stuck
    obtain ⟨other, before⟩ := inv.stays task listed stuck
    refine ⟨other, (move_running other task).mpr (.inr ⟨?_, before⟩)⟩
    rintro rfl
    rw [here] at before
    obtain rfl := Worker.running.inj before
    exact stuck ((inv.ends _).mp (Jobs.ends_done done))

theorem Progress.advance {first w : Work σ Task n} {gone : List (Queued Task)}
    (inv : Progress jobs first w gone) {ticket : Nat} {session : σ} {alive : Bool}
    (step : jobs.advance (w.sessions ticket) = some session) :
    Progress jobs first { w with
      sessions := Function.update w.sessions ticket session
      alive := alive } gone := by
  refine ⟨inv.reached, inv.queue, inv.stop, fun other => ?_, inv.running, inv.stays⟩
  rw [← inv.ends other]
  change jobs.Ends (Function.update w.sessions ticket session other) ↔ _
  by_cases same : other = ticket
  · subst same
    rw [Function.update_self, Jobs.ends_advance step]
  · rw [Function.update_of_ne same]

theorem wake_running (position : Worker Task) (queued : Queued Task) :
    position.wake = .running queued ↔ position = .running queued := by
  cases position <;> simp [Worker.wake]

theorem Progress.step {first w next : Work σ Task n} {gone : List (Queued Task)}
    (inv : Progress jobs first w gone) {label : OwnLabel Task n} (step : Own jobs w label next) :
    Progress jobs first next gone ∨ ∃ worker queued rest,
      w.pool.workers worker = .checking ∧ w.pool.tasks = queued :: rest ∧
        Progress jobs first next (gone ++ [queued]) := by
  cases step with
  | finish alive here done => exact .inl (inv.finish here done)
  | advance alive here step => exact .inl (inv.advance step)
  | pool alive due step =>
    have taken := step
    cases step with
    | @notifyOne worker pending here =>
      exact .inl (inv.same taken rfl rfl (move_idle (by simp [here]) nofun))
    | notifyNone => exact .inl (inv.same taken rfl rfl fun _ _ => Iff.rfl)
    | @enter worker here =>
      rcases workerSection_cases w.pool worker with
        ⟨-, -, returns⟩ | ⟨queued, rest, front, takes⟩ | ⟨-, -, waits⟩
      · apply Or.inl
        apply inv.same taken
        · rw [returns]
          rfl
        · rw [returns]
          rfl
        · rw [returns]
          exact move_idle (by simp [here]) nofun
      · exact .inr ⟨worker, queued, rest, here, front, inv.pop here front takes⟩
      · apply Or.inl
        apply inv.same taken
        · rw [waits]
          rfl
        · rw [waits]
          rfl
        · rw [waits]
          exact move_idle (by simp [here]) nofun
    | notifyAll => exact .inl (inv.same taken rfl rfl fun _ _ => wake_running _ _)
    | join => exact .inl (inv.same taken rfl rfl fun _ _ => Iff.rfl)
    | offer => cases due
    | finish => cases due
    | wake => cases due
    | shutdown => cases due

end Progress

section Capacity

variable {jobs : Jobs σ}

/-- When nothing goes on and something is queued, every worker has a task that is stuck. -/
theorem Work.Rests.full {w : Work σ Task n} (rests : w.Rests jobs) (alive : w.alive = true)
    {labels : List (Label Task n)} (run : Run Step (initial Task n) labels w.pool)
    (going : w.pool.stop = false) (pending : w.pool.tasks ≠ []) (worker : Fin n) :
    ∃ queued, w.pool.workers worker = .running queued ∧
      ¬jobs.Ends (w.sessions queued.ticket) := by
  have entered (other : Fin n) : w.pool.workers other ≠ .checking :=
    fun here => rests _ _ (.pool alive rfl (.enter here))
  cases position : w.pool.workers worker with
  | checking => exact absurd position (entered worker)
  | exited =>
    have stopped := ((closed_run run).exits worker position).1
    rw [going] at stopped
    cases stopped
  | waiting =>
    have quiet : w.pool.notifying = 0 := by
      by_contra notifying
      exact rests _ _ (.pool alive rfl (.notifyOne (Nat.pos_of_ne_zero notifying) position))
    have unalert : ∑ other, (w.pool.workers other).alert = 0 := by
      apply Finset.sum_eq_zero
      intro other _
      have there := entered other
      cases place : w.pool.workers other with
      | checking => exact absurd place there
      | _ => rfl
    have seen := wakeful_run run position
    rw [quiet, unalert, Nat.zero_add, Nat.le_zero, List.length_eq_zero_iff] at seen
    exact absurd seen pending
  | running queued =>
    refine ⟨queued, rfl, Jobs.not_ends ?_ ?_⟩
    · rw [Option.eq_none_iff_forall_ne_some]
      intro session step
      exact rests _ _ (.advance alive position step)
    · rw [Bool.eq_false_iff]
      intro done
      exact rests _ _ (.finish alive position done)

theorem length_flatMap_held (s : State Task n) (workers : List (Fin n)) :
    (workers.flatMap fun worker => (s.workers worker).held).length ≤ workers.length := by
  induction workers with
  | nil => exact Nat.le_refl 0
  | cons worker workers ih =>
    rw [List.flatMap_cons, List.length_append, List.length_cons]
    have one : (s.workers worker).held.length ≤ 1 := by
      cases s.workers worker <;> simp [Worker.held]
    omega

/-- Tasks that stay with their workers leave room for no more than a worker each. -/
theorem stuck_lt {first w : Work σ Task n} {tasks : List (Queued Task)} (distinct : tasks.Nodup)
    (stays : ∀ queued ∈ tasks, ¬jobs.Ends (first.sessions queued.ticket) →
      ∃ worker, w.pool.workers worker = .running queued)
    {free : Fin n} (idle : ∀ queued, w.pool.workers free ≠ .running queued) :
    first.stuck jobs tasks < n := by
  let others := (List.finRange n).erase free
  have within : (tasks.filter fun queued => ¬jobs.Ends (first.sessions queued.ticket)) ⊆
      others.flatMap fun worker => (w.pool.workers worker).held := by
    intro queued listed
    obtain ⟨inside, stuck⟩ := List.mem_filter.mp listed
    obtain ⟨worker, here⟩ := stays queued inside (of_decide_eq_true stuck)
    have other : worker ≠ free := by
      rintro rfl
      exact idle queued here
    refine List.mem_flatMap.mpr ⟨worker, (List.mem_erase_of_ne other).mpr (List.mem_finRange _), ?_⟩
    rw [here]
    exact List.mem_singleton_self _
  have fewer := (List.subperm_of_subset (distinct.filter _) within).length_le
  have room := length_flatMap_held w.pool others
  have length : others.length = n - 1 := by
    rw [List.length_erase_of_mem (List.mem_finRange free), List.length_finRange]
  have some := free.pos
  rw [Work.stuck, List.countP_eq_length_filter]
  omega

theorem le_stuck {first w : Work σ Task n} {tasks : List (Queued Task)}
    {labels : List (Label Task n)} (served : Served labels w.pool)
    (full : ∀ worker, ∃ queued, w.pool.workers worker = .running queued ∧ queued ∈ tasks ∧
      ¬jobs.Ends (first.sessions queued.ticket)) : n ≤ first.stuck jobs tasks := by
  have within : w.pool.held ⊆
      tasks.filter fun queued => ¬jobs.Ends (first.sessions queued.ticket) := by
    intro queued held
    obtain ⟨worker, here⟩ := mem_held.mp held
    obtain ⟨other, there, inside, stuck⟩ := full worker
    obtain rfl := Worker.running.inj (here.symm.trans there)
    exact List.mem_filter.mpr ⟨inside, decide_eq_true stuck⟩
  have distinct := (List.nodup_append.mp served.nodup).1
  have length : w.pool.held.length = n := by
    have each (worker : Fin n) : (w.pool.workers worker).held.length = 1 := by
      obtain ⟨queued, here, -⟩ := full worker
      rw [here]
      rfl
    simp [State.held, List.length_flatMap, each]
  have fewer := (List.subperm_of_subset distinct within).length_le
  rw [Work.stuck, List.countP_eq_length_filter]
  omega

/-- What the pool can do by itself is decided when it begins: a queued task is taken if and only
if fewer tasks than workers, of those that are running or queued before it, never come to their
end. -/
theorem taken_iff {labels : List (Label Task n)} {first final : Work σ Task n}
    (reached : Run Step (initial Task n) labels first.pool) (going : first.pool.stop = false)
    {ahead behind : List (Queued Task)} {task : Queued Task}
    (queue : first.pool.tasks = ahead ++ task :: behind) {more : List (OwnLabel Task n)}
    (run : Run (Own jobs) first more final) (rests : final.Rests jobs)
    (alive : final.alive = true) :
    task ∉ final.pool.tasks ↔ first.stuck jobs (first.pool.held ++ ahead) < n := by
  have distinct := (served_run reached).nodup
  have tasks := (List.nodup_append.mp distinct).2.1
  have listed : (first.pool.held ++ ahead).Nodup := by
    rw [queue, ← List.append_assoc] at distinct
    exact distinct.of_append_left
  obtain ⟨gone, inv, early⟩ : ∃ gone, Progress jobs first final gone ∧
      (task ∈ gone → first.stuck jobs (first.pool.held ++ ahead) < n) := by
    refine run.invariant (fun _ w => ∃ gone, Progress jobs first w gone ∧
      (task ∈ gone → first.stuck jobs (first.pool.held ++ ahead) < n))
      ⟨[], .start reached, nofun⟩ ?_
    intro more w label next _ ih step
    obtain ⟨gone, inv, early⟩ := ih
    rcases inv.step step with same | ⟨worker, queued, rest, here, front, later⟩
    · exact ⟨gone, same, early⟩
    · refine ⟨gone ++ [queued], later, fun inside => ?_⟩
      rcases List.mem_append.mp inside with old | new
      · exact early old
      · obtain rfl := List.mem_singleton.mp new
        have shape := inv.queue
        rw [front] at shape
        have fresh := tasks
        rw [shape, List.nodup_append, List.nodup_cons] at fresh
        have absent : task ∉ gone := fun there => fresh.2.2 task there task (by simp) rfl
        have same := ((List.append_cons_inj_of_notMem absent fresh.2.1.1).mp
          (shape.symm.trans queue)).1
        subst same
        exact stuck_lt listed inv.stays (fun other there => by rw [here] at there; cases there)
  have parts := tasks
  rw [inv.queue, List.nodup_append] at parts
  have there : task ∈ gone ++ final.pool.tasks := by
    rw [← inv.queue, queue]
    simp
  constructor
  · intro absent
    exact early ((List.mem_append.mp there).resolve_right absent)
  · intro room waits
    have before : gone ⊆ ahead := by
      have absent : task ∉ gone := fun left => parts.2.2 task left task waits rfl
      rcases List.append_eq_append_iff.mp (inv.queue.symm.trans queue) with
        ⟨middle, rfl, -⟩ | ⟨middle, rfl, rest⟩
      · exact List.subset_append_left ..
      · cases middle with
        | nil => simp
        | cons next middle =>
          obtain ⟨rfl, -⟩ := List.cons.inj rest
          exact absurd (by simp) absent
    obtain ⟨passed, arrived⟩ := inv.reached
    have pending : final.pool.tasks ≠ [] := List.ne_nil_of_mem waits
    have full := rests.full alive arrived (inv.stop.trans going) pending
    have stuck : n ≤ first.stuck jobs (first.pool.held ++ ahead) := by
      apply le_stuck (served_run arrived)
      intro worker
      obtain ⟨queued, here, never⟩ := full worker
      refine ⟨queued, here, ?_, fun ends => never ((inv.ends _).mpr ends)⟩
      rcases List.mem_append.mp (inv.running worker queued here) with held | left
      · exact List.mem_append_left _ held
      · exact List.mem_append_right _ (before left)
    omega

/-- How many steps a worker has before it, with what its task has. -/
def Worker.effort (jobs : Jobs σ) (sessions : Nat → σ) : Worker Task → Nat
  | .checking => 1
  | .running queued => 2 + jobs.left (sessions queued.ticket)
  | _ => 0

/-- The steps of the thread in `shutdown`; it may wake every worker. -/
def Closing.effort (n : Nat) : Closing → Nat
  | .notCalled => 0
  | .flagged => 2 * n + 1
  | .joining joined => n - joined

def Work.budget (jobs : Jobs σ) (w : Work σ Task n) : Nat :=
  (w.pool.tasks.map fun queued => 2 + jobs.left (w.sessions queued.ticket)).sum +
    (∑ worker, (w.pool.workers worker).effort jobs w.sessions) + 2 * w.pool.notifying +
    w.pool.closing.effort n

theorem own_budget {w next : Work σ Task n} {label : OwnLabel Task n}
    (step : Own jobs w label next) : next.budget jobs < w.budget jobs := by
  cases step with
  | @finish worker queued alive here done =>
    have moved := sum_move (Worker.effort jobs w.sessions) w.pool worker .checking
    rw [here] at moved
    simp only [Worker.effort, Work.budget, State.move] at moved ⊢
    omega
  | @advance worker queued session alive here step =>
    have less := jobs.less step
    have each (ticket : Nat) :
        jobs.left (Function.update w.sessions queued.ticket session ticket) ≤
          jobs.left (w.sessions ticket) := by
      by_cases same : ticket = queued.ticket
      · subst same
        rw [Function.update_self]
        exact Nat.le_of_lt less
      · rw [Function.update_of_ne same]
    have tasks : (w.pool.tasks.map fun other =>
        2 + jobs.left (Function.update w.sessions queued.ticket session other.ticket)).sum ≤
          (w.pool.tasks.map fun other => 2 + jobs.left (w.sessions other.ticket)).sum := by
      apply List.sum_le_sum
      intro other _
      exact Nat.add_le_add_left (each other.ticket) 2
    have workers : ∑ other, (w.pool.workers other).effort jobs
        (Function.update w.sessions queued.ticket session) <
          ∑ other, (w.pool.workers other).effort jobs w.sessions := by
      apply Finset.sum_lt_sum
      · intro other _
        cases w.pool.workers other with
        | running task => exact Nat.add_le_add_left (each task.ticket) 2
        | _ => exact Nat.le_refl _
      · refine ⟨worker, Finset.mem_univ _, ?_⟩
        rw [here]
        simp only [Worker.effort, Function.update_self]
        omega
    simp only [Work.budget]
    omega
  | @pool label next alive due step =>
    cases step with
    | @notifyOne worker pending here =>
      have moved := sum_move (Worker.effort jobs w.sessions) w.pool worker .checking
      rw [here] at moved
      simp only [Worker.effort, Work.budget, State.move] at moved ⊢
      omega
    | notifyNone pending =>
      simp only [Work.budget]
      omega
    | @enter worker here =>
      rcases workerSection_cases w.pool worker with
        ⟨-, -, returns⟩ | ⟨queued, rest, front, takes⟩ | ⟨-, -, waits⟩
      · have moved := sum_move (Worker.effort jobs w.sessions) w.pool worker .exited
        rw [here] at moved
        rw [returns]
        simp only [Worker.effort, Work.budget, State.move] at moved ⊢
        omega
      · have moved := sum_move (Worker.effort jobs w.sessions) w.pool worker (.running queued)
        rw [here] at moved
        rw [takes]
        simp only [Worker.effort, Work.budget, State.move, front, List.map_cons,
          List.sum_cons] at moved ⊢
        omega
      · have moved := sum_move (Worker.effort jobs w.sessions) w.pool worker .waiting
        rw [here] at moved
        rw [waits]
        simp only [Worker.effort, Work.budget, State.move] at moved ⊢
        omega
    | notifyAll here =>
      have woken : ∑ worker, ((w.pool.workers worker).wake).effort jobs w.sessions ≤
          ∑ worker, ((w.pool.workers worker).effort jobs w.sessions + 1) := by
        apply Finset.sum_le_sum
        intro worker _
        cases w.pool.workers worker <;> simp [Worker.wake, Worker.effort]
      simp only [Finset.sum_add_distrib, Finset.sum_const, Finset.card_univ, Fintype.card_fin,
        smul_eq_mul, Nat.mul_one] at woken
      simp only [Work.budget, here, Closing.effort]
      omega
    | @join worker here exited =>
      have inside := worker.isLt
      simp only [Work.budget, here, Closing.effort]
      omega
    | offer => cases due
    | finish => cases due
    | wake => cases due
    | shutdown => cases due

theorem own_run {first final : Work σ Task n} {more : List (OwnLabel Task n)}
    (run : Run (Own jobs) first more final) :
    more.length + final.budget jobs ≤ first.budget jobs := by
  induction run with
  | refl => simp
  | snoc earlier last ih =>
    have less := own_budget last
    rw [List.length_append, List.length_singleton]
    omega

theorem progress_run {labels : List (Label Task n)} {first final : Work σ Task n}
    (reached : Run Step (initial Task n) labels first.pool) {more : List (OwnLabel Task n)}
    (run : Run (Own jobs) first more final) : ∃ gone, Progress jobs first final gone := by
  refine run.invariant (fun _ w => ∃ gone, Progress jobs first w gone) ⟨[], .start reached⟩ ?_
  intro more w label next _ ih step
  obtain ⟨gone, inv⟩ := ih
  rcases inv.step step with same | ⟨worker, queued, rest, -, -, later⟩
  · exact ⟨gone, same⟩
  · exact ⟨gone ++ [queued], later⟩

/-- Once `shutdown` has set the flag it returns by itself if and only if every task that is running
or queued comes to its end. -/
theorem returned_iff (someWorker : 0 < n) {labels : List (Label Task n)}
    {first final : Work σ Task n} (reached : Run Step (initial Task n) labels first.pool)
    (stopped : first.pool.stop = true)
    {more : List (OwnLabel Task n)} (run : Run (Own jobs) first more final)
    (rests : final.Rests jobs) (alive : final.alive = true) :
    final.pool.Returned ↔ first.stuck jobs (first.pool.held ++ first.pool.tasks) = 0 := by
  obtain ⟨gone, inv⟩ := progress_run reached run
  obtain ⟨passed, arrived⟩ := inv.reached
  have closed := closed_run arrived
  constructor
  · intro returned
    obtain ⟨empty, exited⟩ := closed.returned someWorker returned
    rw [Work.stuck, List.countP_eq_zero]
    intro queued listed stuck
    have queue := inv.queue
    rw [empty, List.append_nil] at queue
    rw [queue] at listed
    obtain ⟨worker, here⟩ := inv.stays queued listed (of_decide_eq_true stuck)
    rw [exited worker] at here
    cases here
  · intro none
    rw [Work.stuck, List.countP_eq_zero] at none
    have flagged := closed.flag.mp (inv.stop.trans stopped)
    by_contra pending
    cases closing : final.pool.closing with
    | notCalled => exact flagged closing
    | flagged => exact rests _ _ (.pool alive rfl (.notifyAll closing))
    | joining joined =>
      have below : joined < n := by
        apply lt_of_le_of_ne (closed.joined joined closing).1
        intro all
        apply pending
        rw [State.Returned, closing, all]
      let worker : Fin n := ⟨joined, below⟩
      cases position : final.pool.workers worker with
      | checking => exact rests _ _ (.pool alive rfl (.enter position))
      | waiting => exact closed.awake joined closing worker position
      | exited => exact rests _ _ (.pool alive rfl (@Step.join _ _ _ worker closing position))
      | running queued =>
        have ends : jobs.Ends (first.sessions queued.ticket) := by
          by_contra stuck
          apply none queued _ (decide_eq_true stuck)
          rw [inv.queue, ← List.append_assoc]
          exact List.mem_append_left _ (inv.running worker queued position)
        apply Jobs.not_ends _ _ ((inv.ends _).mpr ends)
        · rw [Option.eq_none_iff_forall_ne_some]
          intro session step
          exact rests _ _ (.advance alive position step)
        · rw [Bool.eq_false_iff]
          intro done
          exact rests _ _ (.finish alive position done)

end Capacity

end LogMonitor.ThreadPool
