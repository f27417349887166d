import LogMonitor.RingBufferRun

/-!
The ring buffer as a multi-producer single-consumer queue: storage is used
safely, values come out in the order of their claims, every producer's values
in its own order, and a push is refused only when the buffer is full. The last
point needs the positions to stay half a word below the top, because a call
that sleeps over 2^63 positions sees a negative difference.
-/

namespace LogMonitor.RingBuffer
open Library.Transition

variable {ι α : Type} [DecidableEq ι] {capacity : Capacity} {s : State ι α}

/-- A slot is constructed only while it is empty, and moved out of only while it is not. -/
def StorageSafe (capacity : Capacity) (s : State ι α) : Prop :=
  (∀ i value pos, s.producer i = .construct value pos → (s.slot capacity pos).storage = none) ∧
  (s.consumer = .moveAndDestroy → (s.slot capacity s.tail).storage.isSome)

def Quiet (s : State ι α) : Prop := ∀ i pos, ¬(s.producer i).InFlight pos

/-- The value of the call the producer `i` is in, and the values of its calls that
returned true so far. -/
def observePush (i : ι) (seen : Option α × List α) : Event ι α → Option α × List α
  | .called j value => if j = i then (some value, seen.2) else seen
  | .pushReturned j accepted =>
    if j = i then (none, if accepted then seen.2 ++ seen.1.toList else seen.2) else seen
  | _ => seen

def pushLog (i : ι) (events : List (Event ι α)) : Option α × List α :=
  events.foldl (observePush i) (none, [])

def acceptedBy (i : ι) (events : List (Event ι α)) : List α := (pushLog i events).2

def claimsBy (i : ι) (claimed : List (ι × α)) : List α :=
  (claimed.filter (fun claim => claim.1 = i)).map Prod.snd

@[simp] theorem pushLog_concat (i : ι) (events : List (Event ι α)) (event : Event ι α) :
    pushLog i (events ++ [event]) = observePush i (pushLog i events) event := by
  simp [pushLog]

@[simp] theorem claimsBy_append (i : ι) (claimed more : List (ι × α)) :
    claimsBy i (claimed ++ more) = claimsBy i claimed ++ claimsBy i more := by
  simp [claimsBy]

/-- The program point of a producer against its log: a claimed value is accepted
already, or the producer is just storing it. -/
def PushOrder (log : Option α × List α) (own : List α) : Producer α → Prop
  | .idle => log.1 = none ∧ own = log.2
  | .loadHead value | .loadSequence value _ | .compareExchange value _ =>
    log.1 = some value ∧ own = log.2
  | .construct value _ => log.1 = some value ∧ own = log.2 ++ [value]
  | .publish _ => ∃ value, log.1 = some value ∧ own = log.2 ++ [value]

theorem produced_others {next : State ι α} {event : Event ι α} {i j : ι} (different : j ≠ i)
    (log : Option α × List α) (move : Produced capacity s i next event) :
    next.producer j = s.producer j ∧ observePush j log event = log ∧
      claimsBy j event.claim.toList = [] := by
  have other : i ≠ j := different.symm
  cases move <;>
    simp [observePush, Event.claim, claimsBy, other, State.setProducer, State.setSlot, different]

theorem PushOrder.produced {next : State ι α} {event : Event ι α} {i : ι}
    {log : Option α × List α} {own : List α} (order : PushOrder log own (s.producer i))
    (move : Produced capacity s i next event) :
    PushOrder (observePush i log event) (own ++ claimsBy i event.claim.toList)
      (next.producer i) := by
  cases move with
  | loaded point | matched point _ | overtaken point | failed point =>
    rw [point] at order
    rw [setProducer_self]
    simpa [PushOrder, observePush, Event.claim, claimsBy] using order
  | refused point _ =>
    rw [point] at order
    rw [setProducer_self]
    simpa [PushOrder, observePush, Event.claim, claimsBy] using order.2
  | exchanged point _ =>
    rw [point] at order
    rw [setProducer_self]
    simpa [PushOrder, observePush, Event.claim, claimsBy] using order
  | constructed point =>
    rw [point] at order
    rw [setProducer_self]
    simpa [PushOrder, observePush, Event.claim, claimsBy] using ⟨_, order⟩
  | published point =>
    rw [point] at order
    rw [setProducer_self]
    obtain ⟨value, pending, claimed⟩ := order
    simp [PushOrder, observePush, Event.claim, claimsBy, pending, claimed]

theorem PushOrder.moved {next : State ι α} {event : Event ι α} {i : ι}
    {log : Option α × List α} {own : List α} (order : PushOrder log own (s.producer i))
    (move : Moved capacity s next event) :
    PushOrder (observePush i log event) (own ++ claimsBy i event.claim.toList)
      (next.producer i) := by
  cases move with
  | @called j value point =>
    by_cases same : j = i
    · subst same
      rw [point] at order
      rw [setProducer_self]
      simpa [PushOrder, observePush, Event.claim, claimsBy] using order.2
    · rw [setProducer_ne _ (Ne.symm same)]
      simpa [observePush, Event.claim, claimsBy, same] using order
  | @produced j _ _ move =>
    by_cases same : i = j
    · subst same
      exact order.produced move
    · obtain ⟨point, kept, none⟩ := produced_others same log move
      rw [point, kept, none, List.append_nil]
      exact order
  | polled _ => simpa [observePush, Event.claim, claimsBy, State.setConsumer] using order
  | consumed move =>
    cases move <;>
      simpa [observePush, Event.claim, claimsBy, State.setConsumer, State.setSlot] using order

theorem run_order (i : ι) {events : List (Event ι α)}
    (run : Run (Step capacity) initial events s) :
    PushOrder (pushLog i events) (claimsBy i (claims events)) (s.producer i) := by
  refine Run.invariant (fun labels final =>
    PushOrder (pushLog i labels) (claimsBy i (claims labels)) (final.producer i)) ?_ ?_ run
  · exact ⟨rfl, rfl⟩
  · intro labels current label next _ ih move
    rw [pushLog_concat, claims_append, claims_single, claimsBy_append]
    exact ih.moved (step_cases move)

/-- A producer's accepted values are its claimed ones, less one it is just storing. -/
theorem PushOrder.accepted {log : Option α × List α} {own : List α} {point : Producer α}
    (order : PushOrder log own point) :
    log.2 <+: own ∧ ((∀ pos, ¬point.InFlight pos) → log.2 = own) := by
  cases point with
  | idle | loadHead _ | loadSequence _ _ | compareExchange _ _ =>
    exact ⟨order.2 ▸ List.prefix_rfl, fun _ => order.2.symm⟩
  | construct value pos =>
    exact ⟨order.2 ▸ List.prefix_append .., fun free => absurd rfl (free pos)⟩
  | publish pos =>
    obtain ⟨value, _, claimed⟩ := order
    exact ⟨claimed ▸ List.prefix_append .., fun free => absurd rfl (free pos)⟩

theorem run_positions (two : 2 ≤ capacity.value) {events : List (Event ι α)}
    (run : Run (Step capacity) initial events s) (few : (claims events).length < 2 ^ 63) :
    positions events = (List.range (claims events).length).map (BitVec.ofNat 64) := by
  refine Run.invariant (fun labels _ => (claims labels).length < 2 ^ 63 →
    positions labels = (List.range (claims labels).length).map (BitVec.ofNat 64))
    (fun _ => rfl) ?_ run few
  intro labels current label next run ih move few
  rw [claims_append, claims_single, List.length_append] at few
  have inv := run_invariant two run (by omega)
  have before := ih (by omega)
  rw [positions_append, positions_single, claims_append, claims_single, before]
  cases step_cases move with
  | produced move =>
    cases move with
    | exchanged _ here =>
      rw [inv.head] at here
      simp [Event.claim, Event.position, List.range_succ, ← here]
    | _ => simp [Event.claim, Event.position]
  | consumed move => cases move <;> simp [Event.claim, Event.position]
  | _ => simp [Event.claim, Event.position]

omit [DecidableEq ι] in
theorem Invariant.storageSafe {claimed : List (ι × α)} {recycled : Nat} {popped : List α}
    (inv : Invariant capacity s claimed recycled popped) : StorageSafe capacity s := by
  constructor
  · intro i value pos point
    have ok := inv.producers i
    rw [point] at ok
    obtain ⟨p, rfl, _, _, slot⟩ := ok
    exact congrArg Slot.storage slot
  · intro point
    have ok := inv.consumer
    rw [point] at ok
    obtain ⟨_, _, _, slot⟩ := ok
    rw [inv.tail]
    exact Option.isSome_iff_exists.mpr ⟨_, congrArg Slot.storage slot⟩

omit [DecidableEq ι] in
/-- A pop that finds nothing has caught up with the claims, unless a push is half done. -/
theorem Invariant.caughtUp {claimed : List (ι × α)} {recycled : Nat} {popped : List α}
    (inv : Invariant capacity s claimed recycled popped) (quiet : Quiet s)
    (point : s.consumer = .loadSequence)
    (other : signedDifference (s.slot capacity s.tail).sequence (s.tail + 1) ≠ 0) :
    popped = claimed.map Prod.snd := by
  have known := inv.recycled_eq
  have ordered := inv.ordered
  rw [point] at known
  simp only [Consumer.ahead, Nat.add_zero] at known
  have reached : claimed.length ≤ popped.length := by
    by_contra inside
    obtain ⟨⟨owner, value⟩, claim⟩ : ∃ entry, claimed[popped.length]? = some entry :=
      ⟨_, List.getElem?_eq_getElem (by omega)⟩
    apply other
    rw [signedDifference_eq_zero, inv.tail]
    cases inv.live _ owner value (by omega) claim with
    | inFlight _ owned => exact absurd owned (quiet owner _)
    | published slot =>
      rw [BitVec.ofNat_add] at slot
      exact congrArg Slot.sequence slot
    | moved _ _ consumer => simp [point] at consumer
  have fifo := inv.fifo
  rwa [List.take_of_length_le reached] at fifo

/-- For every interleaving: slots are used safely; `try_pop` returns the claimed values in
the order of the positions, each producer's values in its own order, all of them once no
push is half done; and, up to 2^63 less a capacity, only a full buffer refuses a push. -/
theorem mpsc_fifo (two : 2 ≤ capacity.value) {events : List (Event ι α)}
    (run : Run (Step capacity) initial events s) (few : (claims events).length < 2 ^ 63) :
    StorageSafe capacity s ∧
    positions events = (List.range (claims events).length).map (BitVec.ofNat 64) ∧
    pops events <+: (claims events).map Prod.snd ∧
    (∀ next, Quiet s → Step capacity s (.popReturned none) next →
      pops events = (claims events).map Prod.snd) ∧
    (∀ i, acceptedBy i events <+: claimsBy i (claims events)) ∧
    (Quiet s → ∀ i, acceptedBy i events = claimsBy i (claims events)) ∧
    ((claims events).length + capacity.value ≤ 2 ^ 63 →
      ∀ i next, Step capacity s (.pushReturned i false) next →
        (claims events).length = recycles events + capacity.value) := by
  have inv := run_invariant two run few
  refine ⟨inv.storageSafe, run_positions two run few, ?_, ?_, fun i => (run_order i run).accepted.1,
    fun quiet i => (run_order i run).accepted.2 (quiet i), ?_⟩
  · rw [inv.fifo]
    exact (List.take_prefix ..).map Prod.snd
  · intro next quiet move
    generalize shape : Event.popReturned none = event at move
    cases step_cases move with
    | produced move => cases move <;> simp at shape
    | consumed move =>
      cases move with
      | missed point other => exact inv.caughtUp quiet point other
      | _ => simp at shape
    | _ => simp at shape
  · intro near i next move
    generalize shape : Event.pushReturned i false = event at move
    cases step_cases move with
    | @produced j _ _ move =>
      cases move with
      | refused point behind =>
        have ok := inv.producers j
        rw [point] at ok
        obtain ⟨p, bound, rfl⟩ := ok
        exact inv.full near bound behind
      | _ => simp at shape
    | consumed move => cases move <;> simp at shape
    | _ => simp at shape

def twoSlots : Capacity where
  value := 2
  fits := by decide
  powerOfTwo := by decide

theorem mpsc_fifo_one_push :
    pops (pushEvents (0 : Fin 2) (7 : Nat) 0 ++ popEvents 7) <+:
      (claims (pushEvents (0 : Fin 2) (7 : Nat) 0 ++ popEvents 7)).map Prod.snd := by
  have pushed : Run (Step twoSlots) initial (pushEvents (0 : Fin 2) (7 : Nat) 0)
      (initial.pushed twoSlots 7) := push_run 7 rfl rfl
  have popped : Run (Step twoSlots) (initial.pushed twoSlots 7 : State (Fin 2) Nat) (popEvents 7)
      _ := pop_run rfl rfl
  exact (mpsc_fifo (by decide) (pushed.trans popped) (by decide)).2.2.1

section Overrun

/-- One producer sleeps at position 0 while the other and the consumer pass `n` values. -/
theorem sleeper_run (n : Nat) (small : n < 2 ^ 63) :
    ∃ (events : List (Event Bool Nat)) (s : State Bool Nat),
      Run (Step logCapacity) initial events s ∧ s.producer true = .loadSequence 0 0 ∧
      s.producer false = .idle ∧ s.consumer = .idle ∧ (claims events).length = n ∧
      recycles events = n ∧ (pops events).length = n := by
  induction n with
  | zero =>
    have asleep : execute logCapacity (initial : State Bool Nat)
        [.tryPush true 0, .produce true false] =
        some (initial.setProducer true (.loadSequence 0 0), [.called true 0, .silent]) := by
      simp [execute, step, produce, initial, State.setProducer]
    exact ⟨_, _, execute_run asleep, setProducer_self .., rfl, rfl, rfl, rfl, rfl⟩
  | succ n ih =>
    obtain ⟨events, s, run, sleeper, idle, waiting, claimed, recycled, popped⟩ := ih (by omega)
    have inv := run_invariant (by decide) run (by omega)
    have level : s.head = s.tail := by rw [inv.head, inv.tail, claimed, popped]
    have empty : s.slot logCapacity s.head = ⟨s.head, none⟩ := by
      have free := inv.unclaimed n claimed.le (by simp [recycled, logCapacity])
      rw [inv.head, claimed]
      exact free
    have pushed := run.trans (push_run 1 idle (by rw [empty]))
    have ready : (s.pushed logCapacity 1).slot logCapacity (s.pushed logCapacity 1).tail =
        ⟨(s.pushed logCapacity 1).tail + 1, some 1⟩ := by
      change Function.update s.slots _ _ (s.tail &&& kMask logCapacity) = ⟨s.tail + 1, some 1⟩
      rw [← level, Function.update_self]
    have done := pushed.trans (pop_run waiting ready)
    refine ⟨_, _, done, sleeper, idle, waiting, ?_, ?_, ?_⟩
    · simp only [claims_append, List.length_append, claimed]
      rfl
    · simp only [recycles_append, recycled]
      rfl
    · simp only [pops_append, List.length_append, popped]
      rfl

/-- After 2^63 - 65535 pushes, all popped again, the sleeping call finds the sequence
2^63 ahead of its position, takes the difference for negative and reports a full buffer. -/
theorem sleeper_refused :
    ∃ (events : List (Event Bool Nat)) (s next : State Bool Nat),
      Run (Step logCapacity) initial events s ∧ (claims events).length < 2 ^ 63 ∧
      Step logCapacity s (.pushReturned true false) next ∧
      (claims events).length = recycles events := by
  obtain ⟨events, s, run, sleeper, idle, waiting, claimed, recycled, popped⟩ :=
    sleeper_run (2 ^ 63 - 65535) (by decide)
  have inv := run_invariant (by decide) run (by omega)
  have stamp : s.slot logCapacity 0 = ⟨BitVec.ofNat 64 (2 ^ 63), none⟩ := by
    have free := inv.unclaimed (2 ^ 63) (by omega) (by rw [recycled]; decide)
    have shared : s.slotAt logCapacity (2 ^ 63) = s.slotAt logCapacity 0 := by
      simp only [State.slotAt, State.slot, index_eq, show 2 ^ 63 % logCapacity.value = 0 by decide,
        Nat.zero_mod]
    exact shared.symm.trans free
  have behind : signedDifference (BitVec.ofNat 64 (2 ^ 63)) 0 < 0 := by decide
  refine ⟨events, s, s.setProducer true .idle, run, by omega, ⟨.produce true false, ?_⟩, by omega⟩
  simp only [step, produce, sleeper, stamp, if_neg behind.ne, if_pos behind]

end Overrun

end LogMonitor.RingBuffer
