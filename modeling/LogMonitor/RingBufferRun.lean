import LogMonitor.RingBufferFifo

/-!
Whole calls as runs: what `try_push` and `try_pop` do when nobody else moves in
between. Scenarios are put together from these.
-/

namespace LogMonitor.RingBuffer
open Library.Transition

variable {ι α : Type} [DecidableEq ι] {capacity : Capacity} {s : State ι α}

def execute (capacity : Capacity) (s : State ι α) :
    List (Action ι α) → Option (State ι α × List (Event ι α))
  | [] => some (s, [])
  | action :: actions => do
    let (next, event) ← step capacity s action
    let (final, events) ← execute capacity next actions
    some (final, event :: events)

theorem execute_run {actions : List (Action ι α)} {final : State ι α} {events : List (Event ι α)}
    (done : execute capacity s actions = some (final, events)) :
    Run (Step capacity) s events final := by
  induction actions generalizing s events with
  | nil =>
    simp only [execute, Option.some.injEq, Prod.mk.injEq] at done
    obtain ⟨rfl, rfl⟩ := done
    exact Run.refl
  | cons action actions ih =>
    simp only [execute, Option.bind_eq_bind, Option.bind_eq_some_iff, Option.some.injEq] at done
    obtain ⟨⟨next, event⟩, first, ⟨last, rest⟩, second, same⟩ := done
    obtain ⟨rfl, rfl⟩ := Prod.mk.inj same
    exact (Run.single ⟨action, first⟩).trans (ih second)

def State.pushed (capacity : Capacity) (s : State ι α) (value : α) : State ι α :=
  { s.setSlot capacity s.head ⟨s.head + 1, some value⟩ with head := s.head + 1 }

def State.popped (capacity : Capacity) (s : State ι α) : State ι α :=
  { s.setSlot capacity s.tail ⟨s.tail + BitVec.ofNat 64 capacity.value, none⟩ with
    tail := s.tail + 1 }

/-- The labels of an accepted `try_push` at position `pos`. -/
def pushEvents (i : ι) (value : α) (pos : Word) : List (Event ι α) :=
  [.called i value, .silent, .silent, .claimed i pos value, .silent, .pushReturned i true]

def refusalEvents (i : ι) (value : α) : List (Event ι α) :=
  [.called i value, .silent, .pushReturned i false]

/-- The labels of a `try_pop` that returns `value`. -/
def popEvents (value : α) : List (Event ι α) :=
  [.silent, .silent, .silent, .recycled, .popReturned (some value)]

theorem push_run {i : ι} (value : α) (idle : s.producer i = .idle)
    (free : (s.slot capacity s.head).sequence = s.head) :
    Run (Step capacity) s (pushEvents i value s.head) (s.pushed capacity value) := by
  have same : signedDifference (s.slots (s.head &&& kMask capacity)).sequence s.head = 0 :=
    signedDifference_eq_zero.mpr free
  have done : execute capacity s [.tryPush i value, .produce i false, .produce i false,
      .produce i false, .produce i false, .produce i false] =
      some (s.pushed capacity value, pushEvents i value s.head) := by
    simp [execute, step, produce, idle, same, State.setProducer, State.setSlot, State.slot,
      State.pushed, pushEvents]
  exact execute_run done

theorem refusal_run {i : ι} (value : α) (idle : s.producer i = .idle)
    (behind : signedDifference (s.slot capacity s.head).sequence s.head < 0) :
    Run (Step capacity) s (refusalEvents i value) s := by
  have done : execute capacity s [.tryPush i value, .produce i false, .produce i false] =
      some (s, refusalEvents i value) := by
    obtain ⟨head, tail, slots, producer, consumer⟩ := s
    simp only [State.slot] at idle behind
    simp [execute, step, produce, idle, behind, behind.ne, State.setProducer, State.slot,
      refusalEvents]
  exact execute_run done

theorem pop_run {value : α} (idle : s.consumer = .idle)
    (ready : s.slot capacity s.tail = ⟨s.tail + 1, some value⟩) :
    Run (Step capacity) s (popEvents value) (s.popped capacity) := by
  have done : execute capacity s [.tryPop, .consume, .consume, .consume, .consume] =
      some (s.popped capacity, popEvents value) := by
    simp only [State.slot] at ready
    simp [execute, step, consume, idle, ready, State.setConsumer, State.setSlot, State.slot,
      State.popped, popEvents]
  exact execute_run done

structure State.Idle (s : State ι α) : Prop where
  producers : ∀ i, s.producer i = .idle
  consumer : s.consumer = .idle

section Idle

omit [DecidableEq ι]

theorem State.Idle.pushed (idle : s.Idle) (value : α) : (s.pushed capacity value).Idle :=
  ⟨idle.producers, idle.consumer⟩

theorem State.Idle.popped (idle : s.Idle) : (s.popped capacity).Idle :=
  ⟨idle.producers, idle.consumer⟩

variable {claimed : List (ι × α)} {recycled : Nat} {popped : List α}

theorem Invariant.idle_recycled (inv : Invariant capacity s claimed recycled popped)
    (idle : s.Idle) : recycled = popped.length := by
  have known := inv.recycled_eq
  rwa [idle.consumer] at known

/-- With nobody inside, everything claimed and not recycled is published. -/
theorem Invariant.idle_live (inv : Invariant capacity s claimed recycled popped) (idle : s.Idle)
    {q : Nat} (recent : recycled ≤ q) (claim : q < claimed.length) :
    ∃ value, s.slotAt capacity q = ⟨BitVec.ofNat 64 (q + 1), some value⟩ := by
  cases inv.live q claimed[q].1 claimed[q].2 recent (List.getElem?_eq_getElem claim) with
  | inFlight _ owned => simp [idle.producers, Producer.InFlight] at owned
  | published slot => exact ⟨_, slot⟩
  | moved _ _ consumer => simp [idle.consumer] at consumer

theorem Invariant.idle_free (inv : Invariant capacity s claimed recycled popped)
    (room : claimed.length < recycled + capacity.value) :
    s.slot capacity s.head = ⟨s.head, none⟩ := by
  rw [inv.head]
  exact inv.unclaimed _ le_rfl room

theorem Invariant.idle_ready (inv : Invariant capacity s claimed recycled popped) (idle : s.Idle)
    (behind : popped.length < claimed.length) :
    ∃ value, s.slot capacity s.tail = ⟨s.tail + 1, some value⟩ := by
  rw [inv.tail]
  obtain ⟨value, slot⟩ := inv.idle_live idle (inv.idle_recycled idle).le behind
  rw [BitVec.ofNat_add] at slot
  exact ⟨value, slot⟩

/-- The slot of the next position still holds the value of the lap before. -/
theorem Invariant.idle_full (inv : Invariant capacity s claimed recycled popped) (idle : s.Idle)
    (two : 2 ≤ capacity.value) (full : claimed.length = recycled + capacity.value) :
    signedDifference (s.slot capacity s.head).sequence s.head < 0 := by
  obtain ⟨value, slot⟩ := inv.idle_live idle le_rfl (by omega)
  have shared := slotAt_lap capacity s recycled
  rw [← full] at shared
  have half := capacity.half
  rw [inv.head]
  change signedDifference (s.slotAt capacity claimed.length).sequence _ < 0
  rw [shared, slot]
  exact signedDifference_neg (by omega) (by omega)

end Idle

end LogMonitor.RingBuffer
