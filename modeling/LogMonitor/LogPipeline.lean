import LogMonitor.Library.Transition
import LogMonitor.LogEntry
import Mathlib.Data.List.Perm.Basic
import Mathlib.Logic.Function.Basic

/-!
The pipeline between the ring buffer and the thread pool, thread by thread: the
consumer's loop and its drain on shutdown, the pool's queue and its workers. A
worker hands every entry to the tap; the drain matches and alerts, but hands
nothing on.
-/

namespace LogMonitor.LogPipeline
open Library Library.ByteString Library.Transition

/-- The rules in their order, with `std::regex_search` for the pattern of a rule. -/
structure PatternEngine (Rule : Type) where
  rules : List Rule
  regexSearch : Rule → Bytes → Bool

variable {Rule : Type}

/-- `PatternEngine::match`: the first rule whose pattern is found. -/
def PatternEngine.firstMatch (engine : PatternEngine Rule) (line : Bytes) : Option Rule :=
  engine.rules.find? fun rule => engine.regexSearch rule line

def maxLines : Nat := 20

def addRecent (lines : List Bytes) (line : Bytes) : List Bytes :=
  let lines := lines ++ [line]
  if maxLines < lines.length then lines.drop 1 else lines

inductive Consumer where
  /-- Before it looks at the stop flag. -/
  | checking
  | popping
  | popped (entry : LogEntry)
  /-- The entry is counted and not yet handed to the pool. -/
  | counted (entry : LogEntry)
  | draining
  | returned

inductive Work (Rule : Type) where
  | matching (entry : LogEntry)
  /-- The alert, if any, is handled; the tap comes next. -/
  | calling (entry : LogEntry) (rule : Option Rule)

def Work.entry : Work Rule → LogEntry
  | .matching entry => entry
  | .calling entry _ => entry

structure State (Rule : Type) where
  ring : List LogEntry
  stopFlag : Bool
  consumer : Consumer
  totalLines : UInt64
  totalMatched : UInt64
  recentLines : Bytes → List Bytes
  /-- The queue of the pool, its flag, and how many of its workers have not returned. -/
  tasks : List LogEntry
  stop : Bool
  alive : Nat
  running : List (Work Rule)
  /-- The calls of `handle_alert`, and the calls of the tap. -/
  alerts : List (LogEntry × Rule)
  callbacks : List (LogEntry × Option Rule)

def initial (workers : Nat) : State Rule where
  ring := []
  stopFlag := false
  consumer := .checking
  totalLines := 0
  totalMatched := 0
  recentLines := fun _ => []
  tasks := []
  stop := false
  alive := workers
  running := []
  alerts := []
  callbacks := []

def matchAndAlert (engine : PatternEngine Rule) (s : State Rule) (entry : LogEntry) : State Rule :=
  match engine.firstMatch entry.line with
  | none => s
  | some rule =>
    { s with
      totalMatched := s.totalMatched + 1
      alerts := s.alerts ++ [(entry, rule)] }

inductive Label where
  | push (entry : LogEntry)
  /-- The stop flag is raised. -/
  | raise
  | check
  | popNothing
  | pop (entry : LogEntry)
  | count (entry : LogEntry)
  | enqueue (entry : LogEntry) (accepted : Bool)
  | drain (entry : LogEntry)
  | drainNothing
  | take (entry : LogEntry)
  | alert (index : Nat)
  | callback (index : Nat)
  /-- `ThreadPool::shutdown` sets its flag; it returns when the workers have. -/
  | shutdown
  | exit

/-- A pop may find nothing although something is in the ring: a slot that is claimed and not
yet published hides what comes after it. -/
inductive Step (engine : PatternEngine Rule) : State Rule → Label → State Rule → Prop
  | push (s : State Rule) (entry : LogEntry) :
      Step engine s (.push entry) { s with ring := s.ring ++ [entry] }
  | raise (s : State Rule) : Step engine s .raise { s with stopFlag := true }
  | check {s : State Rule} (here : s.consumer = .checking) :
      Step engine s .check { s with consumer := if s.stopFlag then .draining else .popping }
  | popNothing {s : State Rule} (here : s.consumer = .popping) :
      Step engine s .popNothing { s with consumer := .checking }
  | pop {s : State Rule} {entry : LogEntry} {rest : List LogEntry} (here : s.consumer = .popping)
      (first : s.ring = entry :: rest) :
      Step engine s (.pop entry) { s with
        ring := rest
        consumer := .popped entry }
  | count {s : State Rule} {entry : LogEntry} (here : s.consumer = .popped entry) :
      Step engine s (.count entry) { s with
        consumer := .counted entry
        totalLines := s.totalLines + 1
        recentLines := Function.update s.recentLines entry.source
          (addRecent (s.recentLines entry.source) entry.line) }
  | enqueue {s : State Rule} {entry : LogEntry} (here : s.consumer = .counted entry) :
      Step engine s (.enqueue entry (!s.stop)) { s with
        consumer := .checking
        -- `enqueue` returns without a word when the pool is shut down
        tasks := if s.stop then s.tasks else s.tasks ++ [entry] }
  | drain {s : State Rule} {entry : LogEntry} {rest : List LogEntry} (here : s.consumer = .draining)
      (first : s.ring = entry :: rest) :
      Step engine s (.drain entry) { matchAndAlert engine s entry with
        ring := rest
        totalLines := s.totalLines + 1 }
  | drainNothing {s : State Rule} (here : s.consumer = .draining) :
      Step engine s .drainNothing { s with consumer := .returned }
  | take {s : State Rule} {entry : LogEntry} {rest : List LogEntry} (first : s.tasks = entry :: rest)
      (idle : s.running.length < s.alive) :
      Step engine s (.take entry) { s with
        tasks := rest
        running := s.running ++ [.matching entry] }
  | alert {s : State Rule} {index : Nat} {entry : LogEntry}
      (here : s.running[index]? = some (.matching entry)) :
      Step engine s (.alert index) { matchAndAlert engine s entry with
        running := s.running.set index (.calling entry (engine.firstMatch entry.line)) }
  | callback {s : State Rule} {index : Nat} {entry : LogEntry} {rule : Option Rule}
      (here : s.running[index]? = some (.calling entry rule)) :
      Step engine s (.callback index) { s with
        running := s.running.eraseIdx index
        callbacks := s.callbacks ++ [(entry, rule)] }
  | shutdown (s : State Rule) : Step engine s .shutdown { s with stop := true }
  | exit {s : State Rule} (stopped : s.stop = true) (empty : s.tasks = [])
      (idle : s.running.length < s.alive) : Step engine s .exit { s with alive := s.alive - 1 }

def State.Finished (s : State Rule) : Prop :=
  s.consumer = .returned ∧ s.stop = true ∧ s.alive = 0

def counted (labels : List Label) : List LogEntry :=
  labels.filterMap fun
    | .count entry => some entry
    | .drain entry => some entry
    | _ => none

def drained (labels : List Label) : List LogEntry :=
  labels.filterMap fun
    | .drain entry => some entry
    | _ => none

/-- The entries that come to the pool after it was shut down. -/
def dropped (labels : List Label) : List LogEntry :=
  labels.filterMap fun
    | .enqueue entry false => some entry
    | _ => none

/-- Every counted entry went to the tap once, with the first rule that matches it. -/
structure Tapped (engine : PatternEngine Rule) (labels : List Label) (s : State Rule) : Prop where
  once : (s.callbacks.map Prod.fst).Perm (counted labels)
  rule : ∀ call ∈ s.callbacks, call.2 = engine.firstMatch call.1.line

def Consumer.inHand : Consumer → List LogEntry
  | .counted entry => [entry]
  | _ => []

/-- Where the counted entries are: each is in one place. -/
structure Accounted (engine : PatternEngine Rule) (workers : Nat) (labels : List Label)
    (s : State Rule) : Prop where
  balance : ∀ entry, (counted labels).count entry =
    (s.callbacks.map Prod.fst).count entry + (s.running.map Work.entry).count entry +
      s.tasks.count entry + s.consumer.inHand.count entry + (drained labels).count entry +
      (dropped labels).count entry
  calling : ∀ entry rule, .calling entry rule ∈ s.running → rule = engine.firstMatch entry.line
  called : ∀ call ∈ s.callbacks, call.2 = engine.firstMatch call.1.line
  bounded : s.running.length ≤ s.alive
  exited : s.alive < workers → s.stop = true ∧ s.tasks = []

theorem counted_append (first second : List Label) :
    counted (first ++ second) = counted first ++ counted second :=
  List.filterMap_append

theorem drained_append (first second : List Label) :
    drained (first ++ second) = drained first ++ drained second :=
  List.filterMap_append

theorem dropped_append (first second : List Label) :
    dropped (first ++ second) = dropped first ++ dropped second :=
  List.filterMap_append

def State.places (s : State Rule) (entry : LogEntry) : Nat :=
  (s.callbacks.map Prod.fst).count entry + (s.running.map Work.entry).count entry +
    s.tasks.count entry + s.consumer.inHand.count entry

theorem Accounted.balance_next {engine : PatternEngine Rule} {workers : Nat} {labels : List Label}
    {s t : State Rule} (accounted : Accounted engine workers labels s) {label : Label}
    (moved : ∀ entry, (counted [label]).count entry + s.places entry =
      t.places entry + (drained [label]).count entry + (dropped [label]).count entry)
    (entry : LogEntry) : (counted (labels ++ [label])).count entry =
      (t.callbacks.map Prod.fst).count entry + (t.running.map Work.entry).count entry +
        t.tasks.count entry + t.consumer.inHand.count entry +
        (drained (labels ++ [label])).count entry + (dropped (labels ++ [label])).count entry := by
  have before := accounted.balance entry
  have change := moved entry
  unfold State.places at change
  rw [counted_append, drained_append, dropped_append, List.count_append, List.count_append,
    List.count_append]
  omega

theorem Accounted.of_same {engine : PatternEngine Rule} {workers : Nat} {labels : List Label}
    {s t : State Rule} (accounted : Accounted engine workers labels s) {label : Label}
    (silent : counted [label] = [] ∧ drained [label] = [] ∧ dropped [label] = [])
    (inHand : t.consumer.inHand = s.consumer.inHand) (callbacks : t.callbacks = s.callbacks)
    (running : t.running = s.running) (tasks : t.tasks = s.tasks) (alive : t.alive = s.alive)
    (stop : s.stop = true → t.stop = true) : Accounted engine workers (labels ++ [label]) t := by
  have unmoved : ∀ entry, (counted [label]).count entry + s.places entry =
      t.places entry + (drained [label]).count entry + (dropped [label]).count entry := by
    intro entry
    unfold State.places
    rw [silent.1, silent.2.1, silent.2.2, inHand, callbacks, running, tasks, List.count_nil]
    omega
  refine ⟨accounted.balance_next unmoved, ?_, ?_, ?_, ?_⟩
  · rw [running]
    exact accounted.calling
  · rw [callbacks]
    exact accounted.called
  · rw [running, alive]
    exact accounted.bounded
  · rw [alive, tasks]
    exact fun gone => (accounted.exited gone).imp_left stop

section MatchAndAlert

variable (engine : PatternEngine Rule) (s : State Rule) (entry : LogEntry)

/-- Matching and alerting touches the counter of matches and the alerts only. -/
theorem matchAndAlert_eq : ∃ totalMatched alerts, matchAndAlert engine s entry =
    { s with
      totalMatched := totalMatched
      alerts := alerts } := by
  unfold matchAndAlert
  split
  next => exact ⟨s.totalMatched, s.alerts, rfl⟩
  next => exact ⟨_, _, rfl⟩

end MatchAndAlert

theorem accounted_step {engine : PatternEngine Rule} {workers : Nat} {labels : List Label}
    {s t : State Rule} {label : Label} (accounted : Accounted engine workers labels s)
    (step : Step engine s label t) : Accounted engine workers (labels ++ [label]) t := by
  have ⟨_, calling, called, bounded, exited⟩ := accounted
  cases step with
  | push entry => exact accounted.of_same ⟨rfl, rfl, rfl⟩ rfl rfl rfl rfl rfl id
  | raise => exact accounted.of_same ⟨rfl, rfl, rfl⟩ rfl rfl rfl rfl rfl id
  | check here =>
    refine accounted.of_same ⟨rfl, rfl, rfl⟩ ?_ rfl rfl rfl rfl id
    rw [here]
    cases s.stopFlag <;> rfl
  | popNothing here =>
    refine accounted.of_same ⟨rfl, rfl, rfl⟩ ?_ rfl rfl rfl rfl id
    rw [here]
    rfl
  | pop here first =>
    refine accounted.of_same ⟨rfl, rfl, rfl⟩ ?_ rfl rfl rfl rfl id
    rw [here]
    rfl
  | @count entry here =>
    refine ⟨accounted.balance_next fun other => ?_, calling, called, bounded, exited⟩
    simp only [State.places, here, Consumer.inHand, counted, drained, dropped,
      List.filterMap_cons, List.filterMap_nil, List.count_nil]
    omega
  | @enqueue entry here =>
    cases stopped : s.stop with
    | false =>
      refine ⟨accounted.balance_next fun other => ?_, calling, called, bounded, fun gone => ?_⟩
      · simp only [State.places, here, Consumer.inHand, counted, drained, dropped, Bool.not_false,
          List.filterMap_cons, List.filterMap_nil, Bool.false_eq_true, if_false, List.count_append,
          List.count_nil]
        omega
      · have absurdity := (exited gone).1
        rw [stopped] at absurdity
        cases absurdity
    | true =>
      refine ⟨accounted.balance_next fun other => ?_, calling, called, bounded,
        fun gone => ⟨rfl, (exited gone).2⟩⟩
      simp only [State.places, here, Consumer.inHand, counted, drained, dropped, Bool.not_true,
        List.filterMap_cons, List.filterMap_nil, if_true, List.count_nil]
      omega
  | @drain entry rest here first =>
    obtain ⟨totalMatched, alerts, same⟩ := matchAndAlert_eq engine s entry
    rw [same]
    refine ⟨accounted.balance_next fun other => ?_, calling, called, bounded, exited⟩
    simp only [State.places, counted, drained, dropped, List.filterMap_cons, List.filterMap_nil,
      List.count_nil]
    omega
  | drainNothing here =>
    refine accounted.of_same ⟨rfl, rfl, rfl⟩ ?_ rfl rfl rfl rfl id
    rw [here]
    rfl
  | @take entry rest first idle =>
    refine ⟨accounted.balance_next fun other => ?_, fun other rule inside => ?_, called, ?_,
      fun gone => ?_⟩
    · simp only [State.places, first, counted, drained, dropped, List.filterMap_cons,
        List.filterMap_nil, List.map_append, List.map_cons, List.map_nil, Work.entry,
        List.count_append, List.count_cons, List.count_nil]
      omega
    · rcases List.mem_append.mp inside with old | new
      · exact calling other rule old
      · cases List.mem_singleton.mp new
    · rw [List.length_append]
      exact idle
    · have empty := (exited gone).2
      rw [first] at empty
      cases empty
  | @alert index entry here =>
    obtain ⟨totalMatched, alerts, same⟩ := matchAndAlert_eq engine s entry
    rw [same]
    have entries : (s.running.set index (.calling entry (engine.firstMatch entry.line))).map
        Work.entry = s.running.map Work.entry := by
      obtain ⟨bound, found⟩ := List.getElem?_eq_some_iff.mp here
      have inside : index < (s.running.map Work.entry).length := by rwa [List.length_map]
      have unchanged : entry = (s.running.map Work.entry)[index] := by
        rw [List.getElem_map, found]
        rfl
      rw [List.map_set, Work.entry, unchanged, List.set_getElem_self]
    refine ⟨accounted.balance_next fun other => ?_, fun other rule inside => ?_, called, ?_, exited⟩
    · simp only [State.places, entries, counted, drained, dropped, List.filterMap_cons,
        List.filterMap_nil, List.count_nil]
      omega
    · rcases List.mem_or_eq_of_mem_set inside with old | new
      · exact calling other rule old
      · cases new
        rfl
    · rwa [List.length_set]
  | @callback index entry rule here =>
    have inside : .calling entry rule ∈ s.running := List.mem_of_getElem? here
    obtain ⟨bound, found⟩ := List.getElem?_eq_some_iff.mp here
    have removed := List.getElem_cons_eraseIdx_perm bound
    rw [found] at removed
    refine ⟨accounted.balance_next fun other => ?_, fun other found => ?_, ?_, ?_, exited⟩
    · have parted := (removed.map Work.entry).count_eq other
      simp only [List.map_cons, Work.entry, List.count_cons] at parted
      simp only [State.places, counted, drained, dropped, List.filterMap_cons, List.filterMap_nil,
        List.map_append, List.map_cons, List.map_nil, List.count_append, List.count_cons,
        List.count_nil]
      omega
    · exact fun there => calling other found (List.mem_of_mem_eraseIdx there)
    · intro call there
      rcases List.mem_append.mp there with old | new
      · exact called call old
      · rw [List.mem_singleton.mp new]
        exact calling entry rule inside
    · exact (List.eraseIdx_sublist ..).length_le.trans bounded
  | shutdown => exact accounted.of_same ⟨rfl, rfl, rfl⟩ rfl rfl rfl rfl rfl fun _ => rfl
  | exit stopped empty idle =>
    refine ⟨accounted.balance_next fun other => ?_, calling, called, Nat.le_sub_one_of_lt idle,
      fun _ => ⟨stopped, empty⟩⟩
    simp only [State.places, counted, drained, dropped, List.filterMap_cons, List.filterMap_nil,
      List.count_nil]
    omega

theorem accounted_initial (engine : PatternEngine Rule) (workers : Nat) :
    Accounted engine workers [] (initial workers) where
  balance entry := rfl
  calling entry rule inside := by simp [initial] at inside
  called call inside := by simp [initial] at inside
  bounded := Nat.zero_le workers
  exited gone := absurd gone (lt_irrefl workers)

theorem accounted_run {engine : PatternEngine Rule} {workers : Nat} {labels : List Label}
    {s : State Rule} (run : Run (Step engine) (initial workers) labels s) :
    Accounted engine workers labels s :=
  run.invariant (Accounted engine workers) (accounted_initial engine workers)
    fun _ _ _ _ _ accounted step => accounted_step accounted step

/-- When all is over, what was counted went to the tap, was drained or came too late. -/
theorem Accounted.finished {engine : PatternEngine Rule} {workers : Nat} (someWorker : 0 < workers)
    {labels : List Label} {s : State Rule} (accounted : Accounted engine workers labels s)
    (finished : s.Finished) :
    (counted labels).Perm (s.callbacks.map Prod.fst ++ (drained labels ++ dropped labels)) := by
  obtain ⟨returned, stopped, gone⟩ := finished
  have idle : s.running = [] := by
    have bounded := accounted.bounded
    rw [gone] at bounded
    exact List.eq_nil_of_length_eq_zero (Nat.le_zero.mp bounded)
  have empty : s.tasks = [] := (accounted.exited (by omega)).2
  apply List.perm_iff_count.mpr
  intro entry
  have balance := accounted.balance entry
  simp only [returned, idle, empty, Consumer.inHand, List.map_nil, List.count_nil] at balance
  simp only [List.count_append]
  omega

/-- After `run` and `shutdown` have returned, every counted entry went to the tap exactly once,
with its first rule, if and only if the drain found nothing and nothing came to the pool after
it was shut down. -/
theorem tapped_iff (engine : PatternEngine Rule) {workers : Nat} (someWorker : 0 < workers)
    {labels : List Label} {s : State Rule} (run : Run (Step engine) (initial workers) labels s)
    (finished : s.Finished) :
    Tapped engine labels s ↔ drained labels = [] ∧ dropped labels = [] := by
  have accounted := accounted_run run
  have all := accounted.finished someWorker finished
  constructor
  · intro tapped
    have lengths := (tapped.once.trans all).length_eq
    rw [List.length_append, List.length_append] at lengths
    constructor
    · exact List.eq_nil_of_length_eq_zero (by omega)
    · exact List.eq_nil_of_length_eq_zero (by omega)
  · rintro ⟨noneDrained, noneDropped⟩
    rw [noneDrained, noneDropped, List.append_nil, List.append_nil] at all
    exact ⟨all.symm, accounted.called⟩

/-- `main` shuts the pool down after it has joined the consumer. -/
def Joined (labels : List Label) : Prop :=
  ∀ before after, labels = before ++ .shutdown :: after → .drainNothing ∈ before

theorem Joined.left {first second : List Label} (joined : Joined (first ++ second)) : Joined first :=
  fun before after shape => joined before (after ++ second) (by rw [shape]; simp)

section Frame

variable {engine : PatternEngine Rule} {s t : State Rule} {label : Label}

theorem Step.returned (step : Step engine s label t) (gone : s.consumer = .returned) :
    t.consumer = .returned := by
  cases step with
  | push entry => exact gone
  | raise => exact gone
  | check here => rw [gone] at here; cases here
  | popNothing here => rw [gone] at here; cases here
  | pop here first => rw [gone] at here; cases here
  | count here => rw [gone] at here; cases here
  | enqueue here => rw [gone] at here; cases here
  | drain here first => rw [gone] at here; cases here
  | drainNothing here => rfl
  | take first idle => exact gone
  | @alert index entry here =>
    obtain ⟨_, _, same⟩ := matchAndAlert_eq engine s entry
    rw [same]
    exact gone
  | callback here => exact gone
  | shutdown => exact gone
  | exit stopped empty idle => exact gone

theorem Step.of_drainNothing (step : Step engine s .drainNothing t) : t.consumer = .returned := by
  cases step
  rfl

/-- The consumer returns when the drain finds nothing. -/
theorem Step.of_returned (step : Step engine s label t) (gone : t.consumer = .returned) :
    s.consumer = .returned ∨ label = .drainNothing := by
  cases step with
  | push entry => exact .inl gone
  | raise => exact .inl gone
  | check here => cases raised : s.stopFlag <;> simp [raised] at gone
  | popNothing here => cases gone
  | pop here first => cases gone
  | count here => cases gone
  | enqueue here => cases gone
  | @drain entry rest here first =>
    obtain ⟨_, _, same⟩ := matchAndAlert_eq engine s entry
    rw [same] at gone
    exact .inl gone
  | drainNothing here => exact .inr rfl
  | take first idle => exact .inl gone
  | @alert index entry here =>
    obtain ⟨_, _, same⟩ := matchAndAlert_eq engine s entry
    rw [same] at gone
    exact .inl gone
  | callback here => exact .inl gone
  | shutdown => exact .inl gone
  | exit stopped empty idle => exact .inl gone

theorem Step.stop_eq (step : Step engine s label t) (other : label ≠ .shutdown) :
    t.stop = s.stop := by
  cases step with
  | @drain entry rest here first =>
    obtain ⟨_, _, same⟩ := matchAndAlert_eq engine s entry
    rw [same]
  | @alert index entry here =>
    obtain ⟨_, _, same⟩ := matchAndAlert_eq engine s entry
    rw [same]
  | shutdown => exact absurd rfl other
  | _ => rfl

/-- Workers return, and none comes back. -/
theorem Step.alive_le (step : Step engine s label t) : t.alive ≤ s.alive := by
  cases step with
  | @drain entry rest here first =>
    obtain ⟨_, _, same⟩ := matchAndAlert_eq engine s entry
    rw [same]
  | @alert index entry here =>
    obtain ⟨_, _, same⟩ := matchAndAlert_eq engine s entry
    rw [same]
  | exit stopped empty idle => exact Nat.sub_le _ _
  | _ => exact le_rfl

end Frame

theorem dropped_of_joined {engine : PatternEngine Rule} {workers : Nat} {labels : List Label}
    {s : State Rule} (run : Run (Step engine) (initial workers) labels s) (joined : Joined labels) :
    dropped labels = [] := by
  apply Run.invariant (fun labels _ => Joined labels → dropped labels = []) _ _ run joined
  · exact fun _ => rfl
  · intro labels current label next run none step joined
    have gone : current.stop = true → current.consumer = .returned := by
      refine run.brought (fun s => s.consumer = .returned) (fun s => s.stop = true)
        Bool.false_ne_true (fun step before => ?_) (fun {_ label _} step shut => ?_) joined.left
      · rcases before with already | now
        · exact step.returned already
        · rw [now] at step
          exact step.of_drainNothing
      · by_cases other : label = .shutdown
        · exact .inr other
        · exact .inl (step.stop_eq other ▸ shut)
    rw [dropped_append, none joined.left, List.nil_append]
    cases step with
    | @enqueue entry here =>
      cases stopped : current.stop with
      | false => rfl
      | true =>
        rw [gone stopped] at here
        cases here
    | _ => rfl

def popped (labels : List Label) : List LogEntry :=
  labels.filterMap fun
    | .pop entry => some entry
    | .drain entry => some entry
    | _ => none

theorem popped_append (first second : List Label) :
    popped (first ++ second) = popped first ++ popped second :=
  List.filterMap_append

def Consumer.unlined : Consumer → List LogEntry
  | .popped entry => [entry]
  | _ => []

theorem popped_run {engine : PatternEngine Rule} {workers : Nat} {labels : List Label}
    {s : State Rule} (run : Run (Step engine) (initial workers) labels s) :
    popped labels = counted labels ++ s.consumer.unlined := by
  apply Run.invariant (fun labels s => popped labels = counted labels ++ s.consumer.unlined) _ _ run
  · rfl
  · intro labels current label next _ ih step
    have kept (quiet : popped [label] = [] ∧ counted [label] = [])
        (unlined : next.consumer.unlined = current.consumer.unlined) :
        popped (labels ++ [label]) = counted (labels ++ [label]) ++ next.consumer.unlined := by
      rw [popped_append, counted_append, quiet.1, quiet.2, unlined, List.append_nil,
        List.append_nil, ih]
    cases step with
    | push entry => exact kept ⟨rfl, rfl⟩ rfl
    | raise => exact kept ⟨rfl, rfl⟩ rfl
    | check here =>
      refine kept ⟨rfl, rfl⟩ ?_
      rw [here]
      cases current.stopFlag <;> rfl
    | popNothing here => exact kept ⟨rfl, rfl⟩ (by rw [here]; rfl)
    | pop here first =>
      rw [popped_append, counted_append, ih, here]
      simp [popped, counted, Consumer.unlined]
    | count here =>
      rw [popped_append, counted_append, ih, here]
      simp [popped, counted, Consumer.unlined]
    | enqueue here => exact kept ⟨rfl, rfl⟩ (by rw [here]; rfl)
    | @drain entry rest here first =>
      obtain ⟨_, _, same⟩ := matchAndAlert_eq engine current entry
      rw [popped_append, counted_append, ih, same, here]
      simp [popped, counted, Consumer.unlined]
    | drainNothing here => exact kept ⟨rfl, rfl⟩ (by rw [here]; rfl)
    | take first idle => exact kept ⟨rfl, rfl⟩ rfl
    | @alert index entry here =>
      obtain ⟨_, _, same⟩ := matchAndAlert_eq engine current entry
      rw [same] at kept ⊢
      exact kept ⟨rfl, rfl⟩ rfl
    | callback here => exact kept ⟨rfl, rfl⟩ rfl
    | shutdown => exact kept ⟨rfl, rfl⟩ rfl
    | exit stopped empty idle => exact kept ⟨rfl, rfl⟩ rfl

def oneRule : PatternEngine Unit := ⟨[()], fun _ _ => true⟩

def entry : LogEntry := ⟨text "down", text "app.log", [], 0, 1⟩

def inTime : List Label :=
  [.push entry, .check, .pop entry, .count entry, .enqueue entry true, .take entry, .alert 0,
    .callback 0, .raise, .check, .drainNothing, .shutdown, .exit]

def tooLate : List Label :=
  [.push entry, .raise, .check, .drain entry, .drainNothing, .shutdown, .exit]

theorem tapped_inTime : ∃ s, s.Finished ∧ Tapped oneRule inTime s := by
  have pushed := Run.single (@Step.push _ oneRule (initial 1) entry)
  have counted := ((pushed.snoc (.check rfl)).snoc (.pop rfl rfl)).snoc (.count rfl)
  have handed := counted.snoc (.enqueue rfl)
  have taken := handed.snoc (.take rfl (by decide))
  have alerted := taken.snoc (@Step.alert _ _ _ 0 entry rfl)
  have called := alerted.snoc (@Step.callback _ _ _ 0 entry (some ()) rfl)
  have returned := ((called.snoc (.raise _)).snoc (.check rfl)).snoc (.drainNothing rfl)
  have run := (returned.snoc (.shutdown _)).snoc (.exit rfl rfl (by decide))
  exact ⟨_, ⟨rfl, rfl, rfl⟩, (tapped_iff oneRule (by decide) run ⟨rfl, rfl, rfl⟩).mpr ⟨rfl, rfl⟩⟩

/-- The entry that the drain pops is counted and alerted on, but the tap never sees it. -/
theorem tooLate_untapped :
    ∃ s, Run (Step oneRule) (initial 1) tooLate s ∧ s.Finished ∧ ¬Tapped oneRule tooLate s := by
  have pushed := Run.single (@Step.push _ oneRule (initial 1) entry)
  have draining := (pushed.snoc (.raise _)).snoc (.check rfl)
  have returned := (draining.snoc (.drain rfl rfl)).snoc (.drainNothing rfl)
  have run := (returned.snoc (.shutdown _)).snoc (.exit rfl rfl (by decide))
  refine ⟨_, run, ⟨rfl, rfl, rfl⟩, fun tapped => ?_⟩
  have none := tapped.once.length_eq
  exact absurd none (by decide)

end LogMonitor.LogPipeline
