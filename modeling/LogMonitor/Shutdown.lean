import LogMonitor.LogPipeline
import LogMonitor.RingBufferMpsc

/-!
The program from the start of its threads to the end of `main`: the threads that
push, each in its loop around `try_push`, the consumer of the pipeline with its pool,
and `main`, which stops and joins them one after the other. The ring buffer and the
pipeline take the steps of their own models; every run here holds a run of each.
-/

namespace LogMonitor.Shutdown
open Library.Transition
open RingBuffer (Event logCapacity)
open LogPipeline (PatternEngine)

variable {ι Rule : Type} [DecidableEq ι]

/-- Where `main` is, from the dashboard on. -/
inductive Main where
  | serving
  | stoppingNetwork
  | stoppingHttp
  | joiningPipeline
  | joiningStats
  | joiningWatchers
  | shuttingDown
  | joiningWorkers
  | returned
deriving DecidableEq

def Main.rank : Main → Nat
  | .serving => 0
  | .stoppingNetwork => 1
  | .stoppingHttp => 2
  | .joiningPipeline => 3
  | .joiningStats => 4
  | .joiningWatchers => 5
  | .shuttingDown => 6
  | .joiningWorkers => 7
  | .returned => 8

def Main.next : Main → Main
  | .serving => .stoppingNetwork
  | .stoppingNetwork => .stoppingHttp
  | .stoppingHttp => .joiningPipeline
  | .joiningPipeline => .joiningStats
  | .joiningStats => .joiningWatchers
  | .joiningWatchers => .shuttingDown
  | .shuttingDown => .joiningWorkers
  | .joiningWorkers => .returned
  | .returned => .returned

def Main.Past (main position : Main) : Prop := position.rank < main.rank

instance (main position : Main) : Decidable (main.Past position) :=
  inferInstanceAs (Decidable (_ < _))

theorem Main.past_next {main : Main} (running : main ≠ .returned) (position : Main) :
    main.next.Past position ↔ main.Past position ∨ position = main := by
  cases main <;> cases position <;> first | exact absurd rfl running | decide

/-- The threads that push: a watcher, and one thread for each connection and request. -/
inductive Kind where
  | fileWatcher
  | tcpClient
  /-- The array `lines` of a request to the ingester. -/
  | httpLines
  /-- The single `line` of such a request. -/
  | httpLine
  /-- `HttpServer::handle_ingest`. -/
  | ingest

inductive Thread where
  | unborn
  /-- Before it looks at the stop flag. -/
  | checking
  | reading
  /-- Before the `try_push` of the first entry. -/
  | pushing (entries : List LogEntry)
  | inPush (entry : LogEntry) (rest : List LogEntry)
  | refused (entry : LogEntry) (rest : List LogEntry)
  | returned

def Kind.loops : Kind → Bool
  | .fileWatcher | .tcpClient => true
  | _ => false

def Kind.first (kind : Kind) : Thread := if kind.loops then .checking else .reading

def Kind.after (kind : Kind) : Thread := if kind.loops then .checking else .returned

/-- What a thread may read at once. -/
def Kind.Reads (entries : List LogEntry) : Kind → Prop
  | .fileWatcher | .httpLines => True
  | _ => entries.length ≤ 1

/-- What a thread does when the buffer refuses an entry. The watcher leaves `read_new_lines` only,
and the array of lines goes on with the next one. -/
def Kind.onRefusal (stop : Bool) (entry : LogEntry) (rest : List LogEntry) : Kind → Thread
  | .fileWatcher => if stop then .checking else .pushing (entry.movedFrom :: rest)
  | .tcpClient => if stop then .returned else .pushing (entry.movedFrom :: rest)
  | .httpLines => if stop then .pushing rest else .pushing (entry.movedFrom :: rest)
  | .httpLine | .ingest => .pushing rest

/-- Where `main` waits for a thread: the pool of the ingester and the server's `listen` return
when their workers have. -/
def Kind.joinedAt : Kind → Main
  | .fileWatcher => .joiningWatchers
  | .tcpClient | .httpLines | .httpLine => .stoppingNetwork
  | .ingest => .stoppingHttp

theorem Kind.joinedAt_cases (kind : Kind) : kind.joinedAt = .stoppingNetwork ∨
    kind.joinedAt = .stoppingHttp ∨ kind.joinedAt = .joiningWatchers := by
  cases kind <;> simp [Kind.joinedAt]

theorem Kind.joinedAt_ne (kind : Kind) :
    kind.joinedAt ≠ .serving ∧ kind.joinedAt ≠ .shuttingDown := by
  cases kind <;> exact ⟨nofun, nofun⟩

structure State (ι Rule : Type) where
  ring : RingBuffer.State ι LogEntry
  threads : ι → Thread
  pipe : LogPipeline.State Rule
  main : Main

def initial (ι Rule : Type) (workers : Nat) : State ι Rule where
  ring := RingBuffer.initial
  threads := fun _ => .unborn
  pipe := LogPipeline.initial workers
  main := .serving

def State.move (s : State ι Rule) (i : ι) (position : Thread) : State ι Rule :=
  { s with threads := Function.update s.threads i position }

@[simp]
theorem State.move_self (s : State ι Rule) (i : ι) (position : Thread) :
    (s.move i position).threads i = position :=
  Function.update_self ..

theorem State.move_ne (s : State ι Rule) {i j : ι} (position : Thread) (different : j ≠ i) :
    (s.move i position).threads j = s.threads j :=
  Function.update_of_ne different ..

def State.raise (s : State ι Rule) : State ι Rule :=
  { s with pipe := { s.pipe with stopFlag := true } }

def Thread.Over (thread : Thread) : Prop := thread = .unborn ∨ thread = .returned

def State.Ready (kind : ι → Kind) (s : State ι Rule) : Prop :=
  match s.main with
  | .stoppingNetwork | .stoppingHttp | .joiningWatchers =>
    ∀ i, (kind i).joinedAt = s.main → (s.threads i).Over
  | .joiningPipeline => s.pipe.consumer = .returned
  -- the statistics push nothing
  | .joiningStats => True
  | .joiningWorkers => s.pipe.alive = 0
  | .serving | .shuttingDown | .returned => False

inductive Label (ι : Type) where
  /-- A step inside `try_push` or `try_pop`, up to the return. -/
  | ring (event : Event ι LogEntry)
  | pushed (i : ι) (entry : LogEntry) (accepted : Bool)
  /-- `try_pop` returns, in the loop of `run` or in `drain`. -/
  | popped (draining : Bool) (result : Option LogEntry)
  /-- A step of the pipeline that leaves the buffer alone. -/
  | pipe (label : LogPipeline.Label)
  | thread (i : ι)
  | main

def returns : Event ι LogEntry → Bool
  | .pushReturned _ _ | .popReturned _ => true
  | _ => false

def handed : Bool → Option LogEntry → List LogPipeline.Label
  | false, none => [.popNothing]
  | true, none => [.drainNothing]
  | false, some entry => [.push entry, .pop entry]
  | true, some entry => [.push entry, .drain entry]

/-- The steps of the consumer and of the pool that do not touch the buffer. -/
def apart : LogPipeline.Label → Bool
  | .check | .count _ | .enqueue _ _ | .take _ | .alert _ | .callback _ | .exit => true
  | _ => false

inductive Step (kind : ι → Kind) (engine : PatternEngine Rule) :
    State ι Rule → Label ι → State ι Rule → Prop
  /-- A connection or a request comes, as long as its server is not stopped. -/
  | start {s : State ι Rule} {i : ι} (here : s.threads i = .unborn)
      (opened : ¬s.main.Past (kind i).joinedAt) :
      Step kind engine s (.thread i) (s.move i (kind i).first)
  | check {s : State ι Rule} {i : ι} (here : s.threads i = .checking) :
      Step kind engine s (.thread i) (s.move i (if s.pipe.stopFlag then .returned else .reading))
  | timeout {s : State ι Rule} {i : ι} (here : s.threads i = .reading)
      (loops : (kind i).loops = true) : Step kind engine s (.thread i) (s.move i .checking)
  /-- The end of the connection, or an error. -/
  | leave {s : State ι Rule} {i : ι} (here : s.threads i = .reading) :
      Step kind engine s (.thread i) (s.move i .returned)
  | read {s : State ι Rule} {i : ι} {entries : List LogEntry} (here : s.threads i = .reading)
      (reads : (kind i).Reads entries) :
      Step kind engine s (.thread i) (s.move i (.pushing entries))
  | finish {s : State ι Rule} {i : ι} (here : s.threads i = .pushing []) :
      Step kind engine s (.thread i) (s.move i (kind i).after)
  | retry {s : State ι Rule} {i : ι} {entry : LogEntry} {rest : List LogEntry}
      (here : s.threads i = .refused entry rest) :
      Step kind engine s (.thread i)
        (s.move i ((kind i).onRefusal s.pipe.stopFlag entry rest))
  | call {s : State ι Rule} {i : ι} {entry : LogEntry} {rest : List LogEntry}
      {ring : RingBuffer.State ι LogEntry} {event : Event ι LogEntry}
      (here : s.threads i = .pushing (entry :: rest))
      (taken : RingBuffer.step logCapacity s.ring (.tryPush i entry) = some (ring, event)) :
      Step kind engine s (.ring event) { s.move i (.inPush entry rest) with ring := ring }
  | produce {s : State ι Rule} {i : ι} {entry : LogEntry} {rest : List LogEntry} {spurious : Bool}
      {ring : RingBuffer.State ι LogEntry} {event : Event ι LogEntry}
      (here : s.threads i = .inPush entry rest)
      (taken : RingBuffer.step logCapacity s.ring (.produce i spurious) = some (ring, event))
      (inside : returns event = false) : Step kind engine s (.ring event) { s with ring := ring }
  | pushReturns {s : State ι Rule} {i : ι} {entry : LogEntry} {rest : List LogEntry}
      {spurious accepted : Bool} {ring : RingBuffer.State ι LogEntry}
      (here : s.threads i = .inPush entry rest)
      (taken : RingBuffer.step logCapacity s.ring (.produce i spurious) =
        some (ring, .pushReturned i accepted)) :
      Step kind engine s (.pushed i entry accepted)
        { s.move i (if accepted then .pushing rest else .refused entry rest) with ring := ring }
  | poll {s : State ι Rule} {ring : RingBuffer.State ι LogEntry} {event : Event ι LogEntry}
      (here : s.pipe.consumer = .popping ∨ s.pipe.consumer = .draining)
      (taken : RingBuffer.step logCapacity s.ring .tryPop = some (ring, event)) :
      Step kind engine s (.ring event) { s with ring := ring }
  | consume {s : State ι Rule} {ring : RingBuffer.State ι LogEntry} {event : Event ι LogEntry}
      (taken : RingBuffer.step logCapacity s.ring .consume = some (ring, event))
      (inside : returns event = false) : Step kind engine s (.ring event) { s with ring := ring }
  | popReturns {s : State ι Rule} {draining : Bool} {result : Option LogEntry}
      {ring : RingBuffer.State ι LogEntry} {pipe : LogPipeline.State Rule}
      (taken : RingBuffer.step logCapacity s.ring .consume = some (ring, .popReturned result))
      (moved : Run (LogPipeline.Step engine) s.pipe (handed draining result) pipe) :
      Step kind engine s (.popped draining result) { s with
        ring := ring
        pipe := pipe }
  | pipe {s : State ι Rule} {label : LogPipeline.Label} {pipe : LogPipeline.State Rule}
      (own : apart label = true) (moved : LogPipeline.Step engine s.pipe label pipe) :
      Step kind engine s (.pipe label) { s with pipe := pipe }
  /-- A signal comes. -/
  | signal (s : State ι Rule) : Step kind engine s (.pipe .raise) s.raise
  | stop {s : State ι Rule} (here : s.main = .serving) :
      Step kind engine s (.pipe .raise) { s.raise with main := .stoppingNetwork }
  | join {s : State ι Rule} (ready : s.Ready kind) :
      Step kind engine s .main { s with main := s.main.next }
  | shutdown {s : State ι Rule} (here : s.main = .shuttingDown) :
      Step kind engine s (.pipe .shutdown) { s with
        pipe := { s.pipe with stop := true }
        main := .joiningWorkers }

def Label.event : Label ι → Option (Event ι LogEntry)
  | .ring event => some event
  | .pushed i _ accepted => some (.pushReturned i accepted)
  | .popped _ result => some (.popReturned result)
  | _ => none

def Label.pipeline : Label ι → List LogPipeline.Label
  | .popped draining result => handed draining result
  | .pipe label => [label]
  | _ => []

def events (labels : List (Label ι)) : List (Event ι LogEntry) := labels.filterMap Label.event

def pipeLabels (labels : List (Label ι)) : List LogPipeline.Label := labels.flatMap Label.pipeline

/-- The entries whose `try_push` returned true, with the threads that pushed them. -/
def accepted (labels : List (Label ι)) : List (ι × LogEntry) :=
  labels.filterMap fun
    | .pushed i entry true => some (i, entry)
    | _ => none

/-- The entries that are done with: a worker has returned from `process_entry`, or the drain has
handled them. -/
def processed (labels : List (Label ι)) (s : State ι Rule) : List LogEntry :=
  s.pipe.callbacks.map Prod.fst ++ LogPipeline.drained (pipeLabels labels)

/-- Every accepted entry was popped and processed, as often as it was accepted. -/
structure NoneLost (labels : List (Label ι)) (s : State ι Rule) : Prop where
  popped : ((accepted labels).map Prod.snd).Subperm (RingBuffer.pops (events labels))
  processed : ((accepted labels).map Prod.snd).Subperm (processed labels s)

/-- A step that loses an entry: the drain ends while a position is claimed and not popped, or a
position is claimed after that. -/
def Loses (s : State ι Rule) : Label ι → Prop
  | .popped true none => s.ring.head ≠ s.ring.tail
  | .ring (.claimed _ _ _) => s.pipe.consumer = .returned
  | _ => False

end LogMonitor.Shutdown
