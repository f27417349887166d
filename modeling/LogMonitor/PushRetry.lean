import LogMonitor.LogEntry
import LogMonitor.RingBufferMpsc

/-!
The retry loop `while (!ring_buffer_.try_push(std::move(entry)))` of the three
producers, run against the ring buffer with every interleaving. The parameter
of `try_push` is taken by value, so each attempt moves out of the local
variable whether or not the buffer accepts it. The loop's counter and its
yields have no effect on the data, and the stop flag stays unset.
-/

namespace LogMonitor.PushRetry
open Library.Transition Library.ByteString RingBuffer

variable {ι : Type} [DecidableEq ι]

/-- The loop of one producer: its variable `entry`, next to the entry it built and the
number of attempts that were refused. -/
structure Loop where
  built : LogEntry
  entry : LogEntry
  refused : Nat

/-- The loops that are running; `origins` records for each claimed position which loop
claimed it, and is no part of the program. -/
structure Loops (ι : Type) where
  running : ι → Option Loop
  origins : List (Option (LogEntry × Nat))

structure System (ι : Type) where
  ring : RingBuffer.State ι LogEntry
  loops : Loops ι

inductive Label (ι : Type) where
  | built (producer : ι) (entry : LogEntry)
  | ring (event : Event ι LogEntry)

def Loops.set (loops : Loops ι) (i : ι) (loop : Option Loop) : Loops ι :=
  { loops with running := Function.update loops.running i loop }

/-- How the loops take part in a step of the buffer. A caller without a loop pushes what
it likes and ignores the result, as `HttpServer::handle_ingest` does. -/
def Loops.observe (loops : Loops ι) : Event ι LogEntry → Option (Loops ι)
  | .called i value =>
    match loops.running i with
    | none => some loops
    | some loop =>
      -- the argument is constructed by moving out of the variable
      if value = loop.entry then some (loops.set i (some { loop with entry := loop.entry.movedFrom }))
      else none
  | .pushReturned i accepted =>
    match loops.running i with
    | none => some loops
    | some loop =>
      some (loops.set i (if accepted then none else some { loop with refused := loop.refused + 1 }))
  | .claimed i _ _ =>
    some { loops with
      origins := loops.origins ++ [(loops.running i).map fun loop => (loop.built, loop.refused)] }
  | _ => some loops

inductive Step (capacity : Capacity) (s : System ι) : Label ι → System ι → Prop
  | built {i : ι} {entry : LogEntry} (free : s.loops.running i = none)
      (outside : s.ring.producer i = .idle) (made : Built entry) :
      Step capacity s (.built i entry) { s with loops := s.loops.set i (some ⟨entry, entry, 0⟩) }
  | ring {event : Event ι LogEntry} {ring : RingBuffer.State ι LogEntry} {loops : Loops ι}
      (move : RingBuffer.Step capacity s.ring event ring)
      (follow : s.loops.observe event = some loops) :
      Step capacity s (.ring event) ⟨ring, loops⟩

def initial : System ι where
  ring := RingBuffer.initial
  loops := ⟨fun _ => none, []⟩

def Label.event : Label ι → Option (Event ι LogEntry)
  | .built _ _ => none
  | .ring event => some event

def events (labels : List (Label ι)) : List (Event ι LogEntry) := labels.filterMap Label.event

section Events

omit [DecidableEq ι]

@[simp] theorem events_append (labels more : List (Label ι)) :
    events (labels ++ more) = events labels ++ events more :=
  List.filterMap_append

@[simp] theorem events_built (i : ι) (entry : LogEntry) : events [.built i entry] = [] := rfl

@[simp] theorem events_ring (event : Event ι LogEntry) : events [.ring event] = [event] := rfl

end Events

/-- What the variable holds when the next attempt starts after `refused` failures. -/
def attempted (built : LogEntry) (refused : Nat) : LogEntry :=
  if refused = 0 then built else built.movedFrom

theorem attempted_movedFrom (built : LogEntry) (refused : Nat) :
    (attempted built refused).movedFrom = attempted built (refused + 1) := by
  unfold attempted
  split <;> rfl

theorem attempted_eq_iff {built : LogEntry} (made : Built built) (refused : Nat) :
    attempted built refused = built ↔ refused = 0 := by
  unfold attempted
  by_cases none : refused = 0
  · simp [none]
  · simp [none, made.movedFrom_ne]

theorem ring_run {capacity : Capacity} {labels : List (Label ι)} {s : System ι}
    (run : Run (Step capacity) initial labels s) :
    Run (RingBuffer.Step capacity) RingBuffer.initial (events labels) s.ring := by
  refine Run.invariant (fun labels final =>
    Run (RingBuffer.Step capacity) RingBuffer.initial (events labels) final.ring) Run.refl ?_ run
  intro labels current label next _ ih move
  cases move with
  | built => rwa [events_append, events_built, List.append_nil]
  | ring move _ =>
    rw [events_append]
    exact Run.snoc ih move

def carried : Producer LogEntry → Option LogEntry
  | .loadHead value | .loadSequence value _ | .compareExchange value _ | .construct value _ =>
    some value
  | _ => none

/-- A loop between attempts holds `attempted`, and inside one it has already moved it out. -/
structure LoopOk (point : Producer LogEntry) (loop : Loop) : Prop where
  made : Built loop.built
  between : point = .idle → loop.entry = attempted loop.built loop.refused
  inside : point ≠ .idle → loop.entry = attempted loop.built (loop.refused + 1)
  value : ∀ value, carried point = some value → value = attempted loop.built loop.refused

theorem LoopOk.within {point next : Producer LogEntry} {loop : Loop} (ok : LoopOk point loop)
    (before : point ≠ .idle) (after : next ≠ .idle)
    (same : ∀ value, carried next = some value → carried point = some value) :
    LoopOk next loop where
  made := ok.made
  between := fun idle => absurd idle after
  inside := fun _ => ok.inside before
  value := fun value carrying => ok.value value (same value carrying)

/-- The loops fit the program points, and a claimed position that a loop owns got what the
loop's variable held at that attempt. -/
structure Invariant (s : System ι) (claimed : List (ι × LogEntry)) : Prop where
  loops : ∀ i loop, s.loops.running i = some loop → LoopOk (s.ring.producer i) loop
  aligned : s.loops.origins.length = claimed.length
  origins : ∀ (q : Nat) (built : LogEntry) (refused : Nat),
    s.loops.origins[q]? = some (some (built, refused)) →
    Built built ∧ ∃ owner : ι, claimed[q]? = some (owner, attempted built refused)

@[simp] theorem running_set_self (loops : Loops ι) (i : ι) (loop : Option Loop) :
    (loops.set i loop).running i = loop :=
  Function.update_self ..

@[simp] theorem running_set_ne (loops : Loops ι) {i j : ι} (different : j ≠ i)
    (loop : Option Loop) : (loops.set i loop).running j = loops.running j :=
  Function.update_of_ne different ..

@[simp] theorem origins_set (loops : Loops ι) (i : ι) (loop : Option Loop) :
    (loops.set i loop).origins = loops.origins := rfl

section Preservation

variable {capacity : Capacity} {s : System ι} {claimed : List (ι × LogEntry)}

theorem Invariant.replace (inv : Invariant s claimed) {i : ι} {ring : RingBuffer.State ι LogEntry}
    {loops : Loops ι} (others : ∀ j, j ≠ i → ring.producer j = s.ring.producer j)
    (kept : ∀ j, j ≠ i → loops.running j = s.loops.running j)
    (own : ∀ loop, loops.running i = some loop → LoopOk (ring.producer i) loop)
    (same : loops.origins = s.loops.origins) : Invariant ⟨ring, loops⟩ claimed where
  loops := by
    intro j loop running
    by_cases here : j = i
    · subst here
      exact own loop running
    · simp only [others j here]
      exact inv.loops j loop ((kept j here).symm.trans running)
  aligned := by rw [same]; exact inv.aligned
  origins := by rw [same]; exact inv.origins

omit [DecidableEq ι] in
theorem Invariant.consumed (inv : Invariant s claimed) {ring : RingBuffer.State ι LogEntry}
    (same : ring.producer = s.ring.producer) : Invariant ⟨ring, s.loops⟩ claimed where
  loops := by rw [same]; exact inv.loops
  aligned := inv.aligned
  origins := inv.origins

theorem Invariant.advance (inv : Invariant s claimed) (i : ι) {ring : RingBuffer.State ι LogEntry}
    (others : ∀ j, j ≠ i → ring.producer j = s.ring.producer j)
    (before : s.ring.producer i ≠ .idle) (after : ring.producer i ≠ .idle)
    (same : ∀ value, carried (ring.producer i) = some value →
      carried (s.ring.producer i) = some value) : Invariant ⟨ring, s.loops⟩ claimed :=
  inv.replace others (fun _ _ => rfl)
    (fun loop running => (inv.loops i loop running).within before after same) rfl

theorem Invariant.called (inv : Invariant s claimed) {i : ι} {value : LogEntry} {loops : Loops ι}
    (point : s.ring.producer i = .idle) (follow : s.loops.observe (.called i value) = some loops) :
    Invariant ⟨s.ring.setProducer i (.loadHead value), loops⟩ claimed := by
  have others : ∀ j, j ≠ i →
      (s.ring.setProducer i (.loadHead value)).producer j = s.ring.producer j :=
    fun j different => setProducer_ne _ different _
  simp only [Loops.observe] at follow
  cases running : s.loops.running i with
  | none =>
    simp only [running, Option.some.injEq] at follow
    subst follow
    exact inv.replace others (fun _ _ => rfl) (fun loop found => by simp [running] at found) rfl
  | some loop =>
    simp only [running] at follow
    split at follow
    next taken =>
      obtain rfl := Option.some.inj follow
      have ok := inv.loops i loop running
      have held := ok.between point
      refine inv.replace others (fun j different => running_set_ne _ different _) ?_ rfl
      intro next found
      rw [running_set_self, Option.some.injEq] at found
      subst found
      rw [setProducer_self]
      refine ⟨ok.made, fun idle => by simp at idle, fun _ => ?_, fun carriedValue carrying => ?_⟩
      · show loop.entry.movedFrom = _
        rw [held, attempted_movedFrom]
      · simp only [carried, Option.some.injEq] at carrying
        rw [← carrying, taken, held]
    next => simp at follow

theorem Invariant.returned (inv : Invariant s claimed) {i : ι} {accepted : Bool} {loops : Loops ι}
    {ring : RingBuffer.State ι LogEntry} (point : s.ring.producer i ≠ .idle)
    (others : ∀ j, j ≠ i → ring.producer j = s.ring.producer j) (idle : ring.producer i = .idle)
    (follow : s.loops.observe (.pushReturned i accepted) = some loops) :
    Invariant ⟨ring, loops⟩ claimed := by
  simp only [Loops.observe] at follow
  cases running : s.loops.running i with
  | none =>
    simp only [running, Option.some.injEq] at follow
    subst follow
    exact inv.replace others (fun _ _ => rfl) (fun loop found => by simp [running] at found) rfl
  | some loop =>
    simp only [running, Option.some.injEq] at follow
    subst follow
    have ok := inv.loops i loop running
    refine inv.replace others (fun j different => running_set_ne _ different _) ?_ rfl
    intro next found
    rw [running_set_self] at found
    cases accepted with
    | true => simp at found
    | false =>
      simp only [Bool.false_eq_true, if_false, Option.some.injEq] at found
      subst found
      rw [idle]
      exact ⟨ok.made, fun _ => ok.inside point, fun busy => absurd rfl busy,
        fun value carrying => by simp [carried] at carrying⟩

theorem Invariant.exchanged (inv : Invariant s claimed) {i : ι} {value : LogEntry} {pos : Word}
    (point : s.ring.producer i = .compareExchange value pos) {loops : Loops ι}
    (follow : s.loops.observe (.claimed i pos value) = some loops) :
    Invariant ⟨{ s.ring with head := s.ring.head + 1 }.setProducer i (.construct value pos), loops⟩
      (claimed ++ [(i, value)]) := by
  obtain rfl := Option.some.inj follow
  have moved : Invariant ⟨{ s.ring with head := s.ring.head + 1 }.setProducer i
      (.construct value pos), s.loops⟩ claimed :=
    inv.advance i (fun j different => setProducer_ne _ different _) (by simp [point]) (by simp)
      (by simp [point, carried])
  refine ⟨moved.loops, by simp [inv.aligned], ?_⟩
  intro q built refused origin
  rcases Nat.lt_or_ge q claimed.length with old | new
  · rw [List.getElem?_append_left (by rwa [inv.aligned])] at origin
    obtain ⟨made, owner, found⟩ := inv.origins q built refused origin
    exact ⟨made, owner, by rwa [List.getElem?_append_left old]⟩
  · have bound := (List.getElem?_eq_some_iff.mp origin).1
    rw [List.length_append, List.length_singleton, inv.aligned] at bound
    obtain rfl : q = claimed.length := by omega
    rw [← inv.aligned, List.getElem?_concat_length, Option.some.injEq,
      Option.map_eq_some_iff] at origin
    obtain ⟨loop, running, same⟩ := origin
    obtain ⟨rfl, rfl⟩ := Prod.mk.inj same
    have ok := inv.loops i loop running
    rw [point] at ok
    refine ⟨ok.made, i, ?_⟩
    rw [List.getElem?_concat_length, ok.value value rfl]

theorem Invariant.produced (inv : Invariant s claimed) {i : ι}
    {ring : RingBuffer.State ι LogEntry} {event : Event ι LogEntry} {loops : Loops ι}
    (move : Produced capacity s.ring i ring event) (follow : s.loops.observe event = some loops) :
    Invariant ⟨ring, loops⟩ (claimed ++ event.claim.toList) := by
  cases move with
  | refused point _ =>
    rw [show (Event.pushReturned i false : Event ι LogEntry).claim.toList = [] from rfl,
      List.append_nil]
    exact inv.returned (by simp [point]) (fun j different => setProducer_ne _ different _)
      (setProducer_self ..) follow
  | published point =>
    rw [show (Event.pushReturned i true : Event ι LogEntry).claim.toList = [] from rfl,
      List.append_nil]
    exact inv.returned (by simp [point]) (fun j different => setProducer_ne _ different _)
      (setProducer_self ..) follow
  | exchanged point _ => exact inv.exchanged point follow
  | loaded point | matched point _ | overtaken point | failed point | constructed point =>
    obtain rfl := Option.some.inj follow
    rw [show (Event.silent : Event ι LogEntry).claim.toList = [] from rfl, List.append_nil]
    exact inv.advance i (fun j different => setProducer_ne _ different _) (by simp [point])
      (by simp) (by simp [point, carried])

theorem Invariant.moved (inv : Invariant s claimed) {ring : RingBuffer.State ι LogEntry}
    {event : Event ι LogEntry} {loops : Loops ι} (move : Moved capacity s.ring ring event)
    (follow : s.loops.observe event = some loops) :
    Invariant ⟨ring, loops⟩ (claimed ++ event.claim.toList) := by
  cases move with
  | called value point =>
    rw [show (Event.called _ value : Event ι LogEntry).claim.toList = [] from rfl, List.append_nil]
    exact inv.called point follow
  | produced move => exact inv.produced move follow
  | polled _ =>
    obtain rfl := Option.some.inj follow
    exact (List.append_nil claimed).symm ▸ inv.consumed rfl
  | consumed move =>
    cases move <;> obtain rfl := Option.some.inj follow <;>
      exact (List.append_nil claimed).symm ▸ inv.consumed rfl

theorem Invariant.built (inv : Invariant s claimed) {i : ι} {entry : LogEntry}
    (outside : s.ring.producer i = .idle) (made : Built entry) :
    Invariant { s with loops := s.loops.set i (some ⟨entry, entry, 0⟩) } claimed := by
  refine inv.replace (fun _ _ => rfl) (fun j different => running_set_ne _ different _) ?_ rfl
  intro loop found
  rw [running_set_self, Option.some.injEq] at found
  subst found
  rw [outside]
  exact ⟨made, fun _ => rfl, fun busy => absurd rfl busy,
    fun value carrying => by simp [carried] at carrying⟩

end Preservation

theorem run_invariant {capacity : Capacity} {labels : List (Label ι)} {s : System ι}
    (run : Run (Step capacity) initial labels s) : Invariant s (claims (events labels)) := by
  refine Run.invariant (fun labels final => Invariant final (claims (events labels))) ?_ ?_ run
  · exact ⟨by simp [initial], rfl, by simp [initial]⟩
  · intro labels current label next _ inv move
    cases move with
    | built free outside made =>
      rw [events_append, events_built, List.append_nil]
      exact inv.built outside made
    | ring move follow =>
      rw [events_append, events_ring, claims_append, claims_single]
      exact inv.moved (step_cases move) follow

/-- What the consumer pops for a loop is what the variable held at the accepted attempt. -/
theorem popped_attempted {capacity : Capacity} (two : 2 ≤ capacity.value)
    {labels : List (Label ι)} {s : System ι} (run : Run (Step capacity) initial labels s)
    (few : (claims (events labels)).length < 2 ^ 63) {q : Nat} {built value : LogEntry}
    {refused : Nat} (origin : s.loops.origins[q]? = some (some (built, refused)))
    (popped : (pops (events labels))[q]? = some value) :
    Built built ∧ value = attempted built refused := by
  have fifo := (RingBuffer.run_invariant two (ring_run run) few).fifo
  obtain ⟨made, owner, claim⟩ := (run_invariant run).origins q built refused origin
  have bound := (List.getElem?_eq_some_iff.mp popped).1
  rw [fifo, List.getElem?_map, List.getElem?_take_of_lt bound, claim] at popped
  exact ⟨made, (Option.some.inj popped).symm⟩

/-- In every run the consumer pops the entry that was built if and only if no attempt to
push it was refused. -/
theorem popped_iff_never_refused {capacity : Capacity} (two : 2 ≤ capacity.value)
    {labels : List (Label ι)} {s : System ι} (run : Run (Step capacity) initial labels s)
    (few : (claims (events labels)).length < 2 ^ 63) (q : Nat) (built value : LogEntry)
    (refused : Nat) (origin : s.loops.origins[q]? = some (some (built, refused)))
    (popped : (pops (events labels))[q]? = some value) : value = built ↔ refused = 0 := by
  obtain ⟨made, rfl⟩ := popped_attempted two run few origin popped
  exact attempted_eq_iff made refused

section FullBuffer

def Loops.observeAll (loops : Loops ι) (events : List (Event ι LogEntry)) : Option (Loops ι) :=
  events.foldlM Loops.observe loops

theorem lift_run {capacity : Capacity} {s : System ι} {events : List (Event ι LogEntry)}
    {ring : RingBuffer.State ι LogEntry} {loops : Loops ι}
    (run : Run (RingBuffer.Step capacity) s.ring events ring)
    (follow : s.loops.observeAll events = some loops) :
    Run (Step capacity) s (events.map .ring) ⟨ring, loops⟩ := by
  induction run generalizing loops with
  | refl =>
    obtain rfl := Option.some.inj follow
    exact Run.refl
  | @snoc earlier current next event _ last ih =>
    rw [Loops.observeAll, List.foldlM_append] at follow
    obtain ⟨middle, before, final⟩ := Option.bind_eq_some_iff.mp follow
    rw [List.map_append]
    refine Run.snoc (ih before) (.ring last ?_)
    simpa using final

omit [DecidableEq ι] in
@[simp] theorem events_map_ring (events : List (Event ι LogEntry)) :
    PushRetry.events (events.map .ring) = events := by
  unfold PushRetry.events
  rw [List.filterMap_map]
  exact List.filterMap_some

theorem observeAll_push (loops : Loops ι) (i : ι) (value : LogEntry) (pos : Word)
    (free : loops.running i = none) :
    loops.observeAll (pushEvents i value pos) =
      some { loops with origins := loops.origins ++ [none] } := by
  simp [Loops.observeAll, pushEvents, Loops.observe, free]

theorem observeAll_pop (loops : Loops ι) (value : LogEntry) :
    loops.observeAll (popEvents value) = some loops := rfl

theorem observeAll_refusal (loops : Loops ι) (i : ι) (loop : Loop)
    (running : loops.running i = some loop) :
    loops.observeAll (refusalEvents i loop.entry) =
      some (loops.set i (some ⟨loop.built, loop.entry.movedFrom, loop.refused + 1⟩)) := by
  simp [Loops.observeAll, refusalEvents, Loops.observe, running, Loops.set]

theorem observeAll_retry (loops : Loops ι) (i : ι) (loop : Loop) (pos : Word)
    (running : loops.running i = some loop) :
    loops.observeAll (pushEvents i loop.entry pos) =
      some { loops.set i none with
        origins := loops.origins ++ [some (loop.built, loop.refused)] } := by
  simp [Loops.observeAll, pushEvents, Loops.observe, running, Loops.set]

theorem fill_run {capacity : Capacity} (two : 2 ≤ capacity.value) (i : ι) (value : LogEntry)
    (n : Nat) (room : n ≤ capacity.value) :
    ∃ (labels : List (Label ι)) (s : System ι), Run (Step capacity) initial labels s ∧
      s.ring.Idle ∧ (∀ j, s.loops.running j = none) ∧ (claims (events labels)).length = n ∧
      pops (events labels) = [] := by
  have half := capacity.half
  induction n with
  | zero => exact ⟨[], _, Run.refl, ⟨fun _ => rfl, rfl⟩, fun _ => rfl, rfl, rfl⟩
  | succ n ih =>
    obtain ⟨labels, s, run, idle, free, claimed, popped⟩ := ih (by omega)
    have inv := RingBuffer.run_invariant two (ring_run run) (by omega)
    have recycled := inv.idle_recycled idle
    rw [popped, List.length_nil] at recycled
    have push := push_run value (idle.producers i)
      (congrArg Slot.sequence (inv.idle_free (by omega)))
    refine ⟨_, _, run.trans (lift_run push (observeAll_push _ i value _ (free i))),
      idle.pushed value, free, ?_, ?_⟩
    · rw [events_append, events_map_ring, claims_append, List.length_append, claimed]
      rfl
    · rw [events_append, events_map_ring, pops_append, popped]
      rfl

theorem drain_run {capacity : Capacity} (two : 2 ≤ capacity.value) {labels : List (Label ι)}
    {s : System ι} (run : Run (Step capacity) initial labels s) (idle : s.ring.Idle)
    (few : (claims (events labels)).length < 2 ^ 63) (k : Nat)
    (there : (pops (events labels)).length + k ≤ (claims (events labels)).length) :
    ∃ (labels' : List (Label ι)) (s' : System ι), Run (Step capacity) initial labels' s' ∧
      s'.ring.Idle ∧ s'.loops = s.loops ∧ claims (events labels') = claims (events labels) ∧
      (pops (events labels')).length = (pops (events labels)).length + k := by
  induction k with
  | zero => exact ⟨labels, s, run, idle, rfl, rfl, rfl⟩
  | succ k ih =>
    obtain ⟨labels', s', run', idle', loops, claimed, popped⟩ := ih (by omega)
    have inv := RingBuffer.run_invariant two (ring_run run') (by rwa [claimed])
    obtain ⟨value, ready⟩ := inv.idle_ready idle' (by rw [claimed]; omega)
    have pop := pop_run idle'.consumer ready
    refine ⟨_, _, run'.trans (lift_run pop (observeAll_pop _ value)), idle'.popped, loops, ?_, ?_⟩
    · rw [events_append, events_map_ring, claims_append, claimed]
      exact List.append_nil _
    · rw [events_append, events_map_ring, pops_append, List.length_append, popped]
      rfl

/-- An attempt on a full buffer fails and leaves the moved-from entry behind. -/
theorem refuse_run {capacity : Capacity} (two : 2 ≤ capacity.value) {labels : List (Label ι)}
    {s : System ι} (run : Run (Step capacity) initial labels s) (idle : s.ring.Idle)
    (few : (claims (events labels)).length < 2 ^ 63) {i : ι} {loop : Loop}
    (running : s.loops.running i = some loop)
    (full : (claims (events labels)).length = (pops (events labels)).length + capacity.value) :
    ∃ labels' : List (Label ι), Run (Step capacity) initial labels' ⟨s.ring,
        s.loops.set i (some ⟨loop.built, loop.entry.movedFrom, loop.refused + 1⟩)⟩ ∧
      claims (events labels') = claims (events labels) ∧
      pops (events labels') = pops (events labels) := by
  have inv := RingBuffer.run_invariant two (ring_run run) few
  have behind := inv.idle_full idle two (by rw [inv.idle_recycled idle]; exact full)
  have refused := refusal_run loop.entry (idle.producers i) behind
  refine ⟨_, run.trans (lift_run refused (observeAll_refusal _ i loop running)), ?_, ?_⟩
  · rw [events_append, events_map_ring, claims_append]
    exact List.append_nil _
  · rw [events_append, events_map_ring, pops_append]
    exact List.append_nil _

/-- An attempt with room succeeds and ends the loop. -/
theorem accept_run {capacity : Capacity} (two : 2 ≤ capacity.value) {labels : List (Label ι)}
    {s : System ι} (run : Run (Step capacity) initial labels s) (idle : s.ring.Idle)
    (few : (claims (events labels)).length < 2 ^ 63) {i : ι} {loop : Loop}
    (running : s.loops.running i = some loop)
    (room : (claims (events labels)).length < (pops (events labels)).length + capacity.value) :
    ∃ (labels' : List (Label ι)) (s' : System ι), Run (Step capacity) initial labels' s' ∧
      s'.ring.Idle ∧ s'.loops.origins = s.loops.origins ++ [some (loop.built, loop.refused)] ∧
      (claims (events labels')).length = (claims (events labels)).length + 1 ∧
      pops (events labels') = pops (events labels) := by
  have inv := RingBuffer.run_invariant two (ring_run run) few
  have free := inv.idle_free (by rw [inv.idle_recycled idle]; exact room)
  have accepted := push_run loop.entry (idle.producers i) (congrArg Slot.sequence free)
  refine ⟨_, _, run.trans (lift_run accepted (observeAll_retry _ i loop _ running)),
    idle.pushed loop.entry, rfl, ?_, ?_⟩
  · rw [events_append, events_map_ring, claims_append, List.length_append]
    rfl
  · rw [events_append, events_map_ring, pops_append]
    exact List.append_nil _

/-- A line that a client sent in the `lines` array of the service `web`. -/
def webLine : LogEntry := httpLineEntry (text "web") (text "GET /") 1 0

theorem built_run {capacity : Capacity} {labels : List (Label ι)} {s : System ι}
    (run : Run (Step capacity) initial labels s) {i : ι} (free : s.loops.running i = none)
    (idle : s.ring.Idle) :
    Run (Step capacity) initial (labels ++ [.built i webLine])
      { s with loops := s.loops.set i (some ⟨webLine, webLine, 0⟩) } :=
  Run.snoc run (.built free (idle.producers i) (.http _ _ _ _))

theorem popped_iff_never_refused_at_once :
    ∃ (labels : List (Label Bool)) (s : System Bool) (value : LogEntry),
      s.loops.origins[0]? = some (some (webLine, 0)) ∧
      (pops (events labels))[0]? = some value ∧ (value = webLine ↔ 0 = 0) := by
  have two : 2 ≤ logCapacity.value := by decide
  have quiet : (initial : System Bool).ring.Idle := ⟨fun _ => rfl, rfl⟩
  have started : Run (Step logCapacity) (initial : System Bool) [] _ := Run.refl
  have building := built_run started (rfl : (initial : System Bool).loops.running true = none) quiet
  obtain ⟨labels, s, run, idle, origins, claimed, popped⟩ :=
    accept_run two building quiet (by decide) (running_set_self ..) (by decide)
  have one : (claims (events labels)).length = 1 := claimed
  have none : pops (events labels) = [] := popped
  obtain ⟨labels', s', run', _, loops, claimed', popped'⟩ :=
    drain_run two run idle (by omega) 1 (by rw [one, none]; decide)
  have origin : s'.loops.origins[0]? = some (some (webLine, 0)) := by
    rw [loops, origins]
    rfl
  obtain ⟨value, found⟩ : ∃ value, (pops (events labels'))[0]? = some value :=
    ⟨_, List.getElem?_eq_getElem (by omega)⟩
  exact ⟨labels', s', value, origin, found,
    popped_iff_never_refused two run' (by rw [claimed']; omega) 0 webLine value 0 origin found⟩

/-- A full buffer refuses one attempt; after a pop the retry succeeds, and what the
consumer finds is the empty entry that the first attempt left behind. -/
theorem refused_once_lost :
    ∃ (labels : List (Label Bool)) (s : System Bool) (value : LogEntry),
      Run (Step logCapacity) initial labels s ∧ (claims (events labels)).length < 2 ^ 63 ∧
      s.loops.origins[65536]? = some (some (webLine, 1)) ∧
      (pops (events labels))[65536]? = some value ∧ value ≠ webLine := by
  have two : 2 ≤ logCapacity.value := by decide
  have size : logCapacity.value = 65536 := rfl
  obtain ⟨labels₀, s₀, run₀, idle₀, free, claimed₀, popped₀⟩ :=
    fill_run two false webLine 65536 (by decide)
  have aligned := (run_invariant run₀).aligned
  have building := built_run run₀ (free true) idle₀
  have history : events (labels₀ ++ [.built true webLine]) = events labels₀ := by
    rw [events_append, events_built, List.append_nil]
  obtain ⟨labels₁, run₁, claimed₁, popped₁⟩ :=
    refuse_run two building idle₀ (by rw [history]; omega) (running_set_self ..)
      (by rw [history, claimed₀, popped₀, size]; rfl)
  rw [history] at claimed₁ popped₁
  obtain ⟨labels₂, s₂, run₂, idle₂, loops₂, claimed₂, popped₂⟩ :=
    drain_run two run₁ idle₀ (by rw [claimed₁]; omega) 1
      (by simp [claimed₁, popped₁, popped₀, claimed₀])
  rw [claimed₁] at claimed₂
  rw [popped₁, popped₀] at popped₂
  obtain ⟨labels₃, s₃, run₃, idle₃, origins₃, claimed₃, popped₃⟩ :=
    accept_run two run₂ idle₂ (by rw [claimed₂]; omega)
      (by rw [loops₂]; exact running_set_self ..) (by rw [claimed₂, popped₂, claimed₀, size]; decide)
  rw [claimed₂, claimed₀] at claimed₃
  rw [← popped₃] at popped₂
  obtain ⟨labels₄, s₄, run₄, _, loops₄, claimed₄, popped₄⟩ :=
    drain_run two run₃ idle₃ (by omega) 65536 (by rw [popped₂, claimed₃]; decide)
  have origin : s₄.loops.origins[65536]? = some (some (webLine, 1)) := by
    rw [loops₄, origins₃, loops₂, List.getElem?_append_right (by simp [aligned, claimed₀])]
    simp [aligned, claimed₀]
  rw [popped₂] at popped₄
  obtain ⟨value, found⟩ : ∃ value, (pops (events labels₄))[65536]? = some value :=
    ⟨_, List.getElem?_eq_getElem (by rw [popped₄]; decide)⟩
  have few : (claims (events labels₄)).length < 2 ^ 63 := by rw [claimed₄]; omega
  obtain ⟨made, rfl⟩ := popped_attempted two run₄ few origin found
  exact ⟨labels₄, s₄, _, run₄, few, origin, found,
    fun same => absurd ((attempted_eq_iff made 1).mp same) one_ne_zero⟩

end FullBuffer

end LogMonitor.PushRetry
