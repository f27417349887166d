import LogMonitor.RingBufferInvariant

/-!
Runs of the ring buffer. The labels of a run give back what was claimed, popped
and recycled; the invariant ties them to the state reached, and the buffer is a
bounded queue whose pushes take effect at the exchange and whose pops take
effect at the recycling store.
-/

namespace LogMonitor.RingBuffer
open Library.Transition

variable {ι α : Type}

def Event.claim : Event ι α → Option (ι × α)
  | .claimed i _ value => some (i, value)
  | _ => none

def Event.position : Event ι α → Option Word
  | .claimed _ pos _ => some pos
  | _ => none

def Event.pop : Event ι α → Option α
  | .popReturned (some value) => some value
  | _ => none

def Event.recycles : Event ι α → Nat
  | .recycled => 1
  | _ => 0

/-- The producer and the value of every successful push, in the order of the claims. -/
def claims (events : List (Event ι α)) : List (ι × α) := events.filterMap Event.claim

def positions (events : List (Event ι α)) : List Word := events.filterMap Event.position

def pops (events : List (Event ι α)) : List α := events.filterMap Event.pop

def recycles (events : List (Event ι α)) : Nat := (events.map Event.recycles).sum

@[simp] theorem claims_append (events more : List (Event ι α)) :
    claims (events ++ more) = claims events ++ claims more :=
  List.filterMap_append

@[simp] theorem positions_append (events more : List (Event ι α)) :
    positions (events ++ more) = positions events ++ positions more :=
  List.filterMap_append

@[simp] theorem pops_append (events more : List (Event ι α)) :
    pops (events ++ more) = pops events ++ pops more :=
  List.filterMap_append

@[simp] theorem recycles_append (events more : List (Event ι α)) :
    recycles (events ++ more) = recycles events + recycles more := by
  simp [recycles]

@[simp] theorem claims_single (event : Event ι α) : claims [event] = event.claim.toList := by
  cases shape : event.claim <;> simp [claims, shape]

@[simp] theorem positions_single (event : Event ι α) :
    positions [event] = event.position.toList := by
  cases shape : event.position <;> simp [positions, shape]

@[simp] theorem pops_single (event : Event ι α) : pops [event] = event.pop.toList := by
  cases shape : event.pop <;> simp [pops, shape]

@[simp] theorem recycles_single (event : Event ι α) : recycles [event] = event.recycles := by
  simp [recycles]

inductive Produced [DecidableEq ι] (capacity : Capacity) (s : State ι α) (i : ι) :
    State ι α → Event ι α → Prop
  | loaded {value : α} (point : s.producer i = .loadHead value) :
      Produced capacity s i (s.setProducer i (.loadSequence value s.head)) .silent
  | matched {value : α} {pos : Word} (point : s.producer i = .loadSequence value pos)
      (same : signedDifference (s.slot capacity pos).sequence pos = 0) :
      Produced capacity s i (s.setProducer i (.compareExchange value pos)) .silent
  | refused {value : α} {pos : Word} (point : s.producer i = .loadSequence value pos)
      (behind : signedDifference (s.slot capacity pos).sequence pos < 0) :
      Produced capacity s i (s.setProducer i .idle) (.pushReturned i false)
  | overtaken {value : α} {pos : Word} (point : s.producer i = .loadSequence value pos) :
      Produced capacity s i (s.setProducer i (.loadHead value)) .silent
  | exchanged {value : α} {pos : Word} (point : s.producer i = .compareExchange value pos)
      (here : s.head = pos) :
      Produced capacity s i ({ s with head := s.head + 1 }.setProducer i (.construct value pos))
        (.claimed i pos value)
  | failed {value : α} {pos : Word} (point : s.producer i = .compareExchange value pos) :
      Produced capacity s i (s.setProducer i (.loadSequence value s.head)) .silent
  | constructed {value : α} {pos : Word} (point : s.producer i = .construct value pos) :
      Produced capacity s i ((s.setSlot capacity pos { s.slot capacity pos with
        storage := some value }).setProducer i (.publish pos)) .silent
  | published {pos : Word} (point : s.producer i = .publish pos) :
      Produced capacity s i ((s.setSlot capacity pos { s.slot capacity pos with
        sequence := pos + 1 }).setProducer i .idle) (.pushReturned i true)

theorem produce_cases [DecidableEq ι] {capacity : Capacity} {s next : State ι α}
    {event : Event ι α} {i : ι} {spurious : Bool}
    (move : produce capacity s i spurious = some (next, event)) :
    Produced capacity s i next event := by
  unfold produce at move
  cases point : s.producer i with
  | idle => simp [point] at move
  | loadHead value =>
    simp only [point, Option.some.injEq, Prod.mk.injEq] at move
    obtain ⟨rfl, rfl⟩ := move
    exact .loaded point
  | loadSequence value pos =>
    simp only [point] at move
    split at move
    next same =>
      simp only [Option.some.injEq, Prod.mk.injEq] at move
      obtain ⟨rfl, rfl⟩ := move
      exact .matched point same
    next =>
      split at move
      next behind =>
        simp only [Option.some.injEq, Prod.mk.injEq] at move
        obtain ⟨rfl, rfl⟩ := move
        exact .refused point behind
      next =>
        simp only [Option.some.injEq, Prod.mk.injEq] at move
        obtain ⟨rfl, rfl⟩ := move
        exact .overtaken point
  | compareExchange value pos =>
    simp only [point] at move
    split at move
    next taken =>
      simp only [Option.some.injEq, Prod.mk.injEq] at move
      obtain ⟨rfl, rfl⟩ := move
      rw [← taken.1]
      exact .exchanged (taken.1 ▸ point) rfl
    next =>
      simp only [Option.some.injEq, Prod.mk.injEq] at move
      obtain ⟨rfl, rfl⟩ := move
      exact .failed point
  | construct value pos =>
    simp only [point, Option.some.injEq, Prod.mk.injEq] at move
    obtain ⟨rfl, rfl⟩ := move
    exact .constructed point
  | publish pos =>
    simp only [point, Option.some.injEq, Prod.mk.injEq] at move
    obtain ⟨rfl, rfl⟩ := move
    exact .published point

inductive Consumed (capacity : Capacity) (s : State ι α) : State ι α → Event ι α → Prop
  | found (point : s.consumer = .loadSequence)
      (same : signedDifference (s.slot capacity s.tail).sequence (s.tail + 1) = 0) :
      Consumed capacity s (s.setConsumer .moveAndDestroy) .silent
  | missed (point : s.consumer = .loadSequence)
      (other : signedDifference (s.slot capacity s.tail).sequence (s.tail + 1) ≠ 0) :
      Consumed capacity s (s.setConsumer .idle) (.popReturned none)
  | taken {value : α} (point : s.consumer = .moveAndDestroy)
      (object : (s.slot capacity s.tail).storage = some value) :
      Consumed capacity s ((s.setSlot capacity s.tail { s.slot capacity s.tail with
        storage := none }).setConsumer (.recycle value)) .silent
  | recycled {value : α} (point : s.consumer = .recycle value) :
      Consumed capacity s ((s.setSlot capacity s.tail { s.slot capacity s.tail with
        sequence := s.tail + BitVec.ofNat 64 capacity.value }).setConsumer (.advance value)) .recycled
  | advanced {value : α} (point : s.consumer = .advance value) :
      Consumed capacity s ({ s with tail := s.tail + 1 }.setConsumer .idle)
        (.popReturned (some value))

theorem consume_cases {capacity : Capacity} {s next : State ι α} {event : Event ι α}
    (move : consume capacity s = some (next, event)) : Consumed capacity s next event := by
  unfold consume at move
  cases point : s.consumer with
  | idle => simp [point] at move
  | loadSequence =>
    simp only [point] at move
    split at move
    next same =>
      simp only [Option.some.injEq, Prod.mk.injEq] at move
      obtain ⟨rfl, rfl⟩ := move
      exact .found point same
    next other =>
      simp only [Option.some.injEq, Prod.mk.injEq] at move
      obtain ⟨rfl, rfl⟩ := move
      exact .missed point other
  | moveAndDestroy =>
    simp only [point] at move
    cases object : (s.slot capacity s.tail).storage with
    | none => simp [object] at move
    | some value =>
      simp only [object, Option.some.injEq, Prod.mk.injEq] at move
      obtain ⟨rfl, rfl⟩ := move
      exact .taken point object
  | recycle value =>
    simp only [point, Option.some.injEq, Prod.mk.injEq] at move
    obtain ⟨rfl, rfl⟩ := move
    exact .recycled point
  | advance value =>
    simp only [point, Option.some.injEq, Prod.mk.injEq] at move
    obtain ⟨rfl, rfl⟩ := move
    exact .advanced point

inductive Moved [DecidableEq ι] (capacity : Capacity) (s : State ι α) :
    State ι α → Event ι α → Prop
  | called {i : ι} (value : α) (point : s.producer i = .idle) :
      Moved capacity s (s.setProducer i (.loadHead value)) (.called i value)
  | produced {i : ι} {next : State ι α} {event : Event ι α}
      (move : Produced capacity s i next event) : Moved capacity s next event
  | polled (point : s.consumer = .idle) : Moved capacity s (s.setConsumer .loadSequence) .silent
  | consumed {next : State ι α} {event : Event ι α} (move : Consumed capacity s next event) :
      Moved capacity s next event

theorem step_cases [DecidableEq ι] {capacity : Capacity} {s next : State ι α} {event : Event ι α}
    (move : Step capacity s event next) : Moved capacity s next event := by
  obtain ⟨action, move⟩ := move
  cases action with
  | tryPush i value =>
    cases point : s.producer i <;> simp only [step, point, Option.some.injEq, Prod.mk.injEq,
      reduceCtorEq] at move
    obtain ⟨rfl, rfl⟩ := move
    exact .called value point
  | produce i spurious => exact .produced (produce_cases move)
  | tryPop =>
    cases point : s.consumer <;> simp only [step, point, Option.some.injEq, Prod.mk.injEq,
      reduceCtorEq] at move
    obtain ⟨rfl, rfl⟩ := move
    exact .polled point
  | consume => exact .consumed (consume_cases move)

section Steps

variable [DecidableEq ι] {capacity : Capacity} {s next : State ι α} {event : Event ι α}
  {claimed : List (ι × α)} {recycled : Nat} {popped : List α}

def Invariant.After (capacity : Capacity) (s : State ι α) (claimed : List (ι × α)) (recycled : Nat)
    (popped : List α) (event : Event ι α) : Prop :=
  Invariant capacity s (claimed ++ event.claim.toList) (recycled + event.recycles)
    (popped ++ event.pop.toList)

omit [DecidableEq ι] in
theorem Invariant.after_quiet (inv : Invariant capacity s claimed recycled popped)
    (claim : event.claim = none) (recycles : event.recycles = 0) (pop : event.pop = none) :
    Invariant.After capacity s claimed recycled popped event := by
  simpa [Invariant.After, claim, recycles, pop] using inv

theorem Invariant.produced (two : 2 ≤ capacity.value)
    (inv : Invariant capacity s claimed recycled popped) (few : claimed.length < 2 ^ 63) {i : ι}
    (move : Produced capacity s i next event) :
    Invariant.After capacity next claimed recycled popped event := by
  have ok := inv.producers i
  cases move with
  | loaded point =>
    refine (inv.moveProducer i _ (by simp [point, Producer.InFlight]) ?_).after_quiet rfl rfl rfl
    exact ⟨_, le_rfl, inv.head⟩
  | matched point same =>
    rw [point] at ok
    obtain ⟨p, bound, rfl⟩ := ok
    refine (inv.moveProducer i _ (by simp [point, Producer.InFlight]) ?_).after_quiet rfl rfl rfl
    exact ⟨p, bound, rfl, inv.room two few bound same⟩
  | refused point _ =>
    exact (inv.moveProducer i .idle (by simp [point, Producer.InFlight]) trivial).after_quiet
      rfl rfl rfl
  | overtaken point =>
    refine (inv.moveProducer i _ (by simp [point, Producer.InFlight]) ?_).after_quiet rfl rfl rfl
    trivial
  | @exchanged value pos point here =>
    rw [point] at ok
    obtain ⟨p, bound, rfl, room⟩ := ok
    obtain rfl : claimed.length = p :=
      ofNat_injective (by omega) (by omega) (inv.head.symm.trans here)
    simpa [Invariant.After, Event.claim, Event.recycles, Event.pop] using
      inv.claim i value room (by simp [point, Producer.InFlight])
  | failed point =>
    refine (inv.moveProducer i _ (by simp [point, Producer.InFlight]) ?_).after_quiet rfl rfl rfl
    exact ⟨_, le_rfl, inv.head⟩
  | constructed point => exact (inv.construct point few).after_quiet rfl rfl rfl
  | published point => exact (inv.publish point few).after_quiet rfl rfl rfl

omit [DecidableEq ι] in
theorem Invariant.consumed (inv : Invariant capacity s claimed recycled popped)
    (move : Consumed capacity s next event) :
    Invariant.After capacity next claimed recycled popped event := by
  cases move with
  | found point same =>
    have stamped : (s.slotAt capacity popped.length).sequence =
        BitVec.ofNat 64 (popped.length + 1) := by
      rw [BitVec.ofNat_add, State.slotAt, ← inv.tail]
      exact signedDifference_eq_zero.mp same
    exact (inv.moveConsumer .moveAndDestroy (by rw [point]; rfl) (by simp [point])
      (inv.ready point stamped)).after_quiet rfl rfl rfl
  | missed point _ =>
    exact (inv.moveConsumer .idle (by rw [point]; rfl) (by simp [point]) trivial).after_quiet
      rfl rfl rfl
  | taken point object => exact (inv.take point object).after_quiet rfl rfl rfl
  | recycled point => 
    simpa [Invariant.After, Event.claim, Event.recycles, Event.pop] using inv.recycle point
  | advanced point =>
    have advanced := inv.advance point
    unfold Invariant.After
    rwa [show claimed ++ (Event.popReturned (some _) : Event ι α).claim.toList = claimed from
      List.append_nil _]

theorem Invariant.moved (two : 2 ≤ capacity.value)
    (inv : Invariant capacity s claimed recycled popped) (few : claimed.length < 2 ^ 63)
    (move : Moved capacity s next event) :
    Invariant.After capacity next claimed recycled popped event := by
  cases move with
  | called value point =>
    exact (inv.moveProducer _ (.loadHead value) (by simp [point, Producer.InFlight])
      trivial).after_quiet rfl rfl rfl
  | produced move => exact inv.produced two few move
  | polled point =>
    exact (inv.moveConsumer .loadSequence (by rw [point]; rfl) (by simp [point])
      trivial).after_quiet rfl rfl rfl
  | consumed move => exact inv.consumed move

/-- The invariant holds in every state a run with fewer than 2^63 claims reaches. -/
theorem run_invariant (two : 2 ≤ capacity.value) {events : List (Event ι α)}
    (run : Run (Step capacity) initial events s) (few : (claims events).length < 2 ^ 63) :
    Invariant capacity s (claims events) (recycles events) (pops events) := by
  refine Run.invariant (fun labels final => (claims labels).length < 2 ^ 63 →
    Invariant capacity final (claims labels) (recycles labels) (pops labels))
    (fun _ => initial_invariant capacity) ?_ run few
  intro labels current label next _ ih move few
  rw [claims_append, claims_single, List.length_append] at few
  have inv := ih (by omega)
  rw [claims_append, claims_single, recycles_append, recycles_single, pops_append, pops_single]
  exact inv.moved two (by omega) (step_cases move)

end Steps

end LogMonitor.RingBuffer
