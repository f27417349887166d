import LogMonitor.RingBufferMpsc

/-!
The ring buffer in the hands of one thread: each call runs to its return before
the next. Such a buffer is a queue of bounded length, except that with a single
slot a push does not notice that the slot is taken.
-/

namespace LogMonitor.RingBuffer
open Library.Transition

/-- The difference that would wrap is not taken. -/
def State.sizeApprox {ι α : Type} (s : State ι α) : Word :=
  if s.tail ≤ s.head then s.head - s.tail else 0

namespace Queue

variable {α : Type}

inductive Call (α : Type) where
  | tryPush (value : α)
  | tryPop
  | sizeApprox

inductive Result (α : Type) where
  | pushed (accepted : Bool)
  | popped (value : Option α)
  | size (value : Word)
deriving DecidableEq

/-- The steps inside `try_push`; the weak exchange may fail without cause. -/
def Pushes (capacity : Capacity) (s : State Unit α) (event : Event Unit α) (next : State Unit α) :
    Prop :=
  ∃ spurious, produce capacity s () spurious = some (next, event)

def Pops (capacity : Capacity) (s : State Unit α) (event : Event Unit α) (next : State Unit α) :
    Prop :=
  consume capacity s = some (next, event)

def accepted : Event Unit α → Option Bool
  | .pushReturned _ accepted => some accepted
  | _ => none

def popped : Event Unit α → Option (Option α)
  | .popReturned value => some value
  | _ => none

inductive Returns (capacity : Capacity) (s : State Unit α) :
    Call α × Result α → State Unit α → Prop
  | tryPush {value : α} {middle next : State Unit α} {event : Event Unit α} {answer : Bool}
      (called : step capacity s (.tryPush () value) = some (middle, event))
      (run : RunUntil (Pushes capacity) accepted middle answer next) :
      Returns capacity s (.tryPush value, .pushed answer) next
  | tryPop {middle next : State Unit α} {event : Event Unit α} {answer : Option α}
      (called : step capacity s .tryPop = some (middle, event))
      (run : RunUntil (Pops capacity) popped middle answer next) :
      Returns capacity s (.tryPop, .popped answer) next
  | sizeApprox : Returns capacity s (.sizeApprox, .size s.sizeApprox) s

def serve (limit : Nat) (queue : List α) : Call α → List α × Result α
  | .tryPush value =>
    if queue.length < limit then (queue ++ [value], .pushed true) else (queue, .pushed false)
  | .tryPop =>
    match queue with
    | [] => ([], .popped none)
    | oldest :: rest => (rest, .popped (some oldest))
  | .sizeApprox => (queue, .size (BitVec.ofNat 64 queue.length))

def queued (limit : Nat) (calls : List (Call α)) : List α :=
  calls.foldl (fun queue call => (serve limit queue call).1) []

def AsQueue (limit : Nat) (labels : List (Call α × Result α)) : Prop :=
  ∀ earlier call result, earlier ++ [(call, result)] <+: labels →
    result = (serve limit (queued limit (earlier.map Prod.fst)) call).2

def PushesFit (limit : Nat) (calls : List (Call α)) : Prop :=
  ∀ earlier value, earlier ++ [.tryPush value] <+: calls → (queued limit earlier).length < limit

theorem queued_concat (limit : Nat) (calls : List (Call α)) (call : Call α) :
    queued limit (calls ++ [call]) = (serve limit (queued limit calls) call).1 :=
  List.foldl_concat ..

section Calls

variable {capacity : Capacity} {s next : State Unit α} {value : α}

theorem setProducer_idle (idle : s.producer () = .idle) (point : Producer α) :
    (s.setProducer () point).setProducer () .idle = s := by
  unfold State.setProducer
  simp only [Function.update_idem, ← idle, Function.update_eq_self]

/-- A push that finds its slot taken is refused, and changes nothing. -/
theorem push_refused (idle : s.producer () = .idle)
    (behind : signedDifference (s.slot capacity s.head).sequence s.head < 0) {answer : Bool}
    (returns : Returns capacity s (.tryPush value, .pushed answer) next) :
    answer = false ∧ next = s := by
  cases returns with
  | tryPush called run =>
    simp only [step, idle, Option.some.injEq, Prod.mk.injEq] at called
    obtain ⟨rfl, -⟩ := called
    refine run.rule (fun m => m = s.setProducer () (.loadHead value) ∨
      m = s.setProducer () (.loadSequence value s.head)) (fun answer t => answer = false ∧ t = s)
      ?_ (.inl rfl)
    rintro m event t held ⟨spurious, move⟩
    rcases held with rfl | rfl
    · cases produce_cases move with
      | loaded point =>
        obtain rfl := Producer.loadHead.inj ((setProducer_self ..).symm.trans point)
        refine RunUntil.keeps_going rfl (.inr ?_)
        simp only [State.setProducer, Function.update_idem]
      | _ point => simp at point
    · cases produce_cases move with
      | refused point =>
        exact RunUntil.keeps_done rfl ⟨rfl, setProducer_idle idle _⟩
      | matched point same =>
        obtain ⟨rfl, rfl⟩ := Producer.loadSequence.inj ((setProducer_self ..).symm.trans point)
        exact absurd same behind.ne
      | overtaken point =>
        obtain ⟨rfl, rfl⟩ := Producer.loadSequence.inj ((setProducer_self ..).symm.trans point)
        refine RunUntil.keeps_going rfl (.inl ?_)
        simp only [State.setProducer, Function.update_idem]
      | _ point => simp at point

inductive Pushing (capacity : Capacity) (s : State Unit α) (value : α) : State Unit α → Prop
  | loadHead : Pushing capacity s value (s.setProducer () (.loadHead value))
  | loadSequence : Pushing capacity s value (s.setProducer () (.loadSequence value s.head))
  | compareExchange : Pushing capacity s value (s.setProducer () (.compareExchange value s.head))
  | construct : Pushing capacity s value
      ({ s with head := s.head + 1 }.setProducer () (.construct value s.head))
  | publish : Pushing capacity s value (({ s with head := s.head + 1 }.setSlot capacity s.head
      { s.slot capacity s.head with storage := some value }).setProducer () (.publish s.head))

/-- A push that finds its slot free is accepted, whether or not the buffer is full. -/
theorem push_accepted (idle : s.producer () = .idle)
    (free : (s.slot capacity s.head).sequence = s.head) {answer : Bool}
    (returns : Returns capacity s (.tryPush value, .pushed answer) next) :
    answer = true ∧ next = s.pushed capacity value := by
  cases returns with
  | tryPush called run =>
    simp only [step, idle, Option.some.injEq, Prod.mk.injEq] at called
    obtain ⟨rfl, -⟩ := called
    refine run.rule (Pushing capacity s value)
      (fun answer t => answer = true ∧ t = s.pushed capacity value) ?_ .loadHead
    rintro m event t held ⟨spurious, move⟩
    cases held with
    | loadHead =>
      cases produce_cases move with
      | loaded point =>
        obtain rfl := Producer.loadHead.inj ((setProducer_self ..).symm.trans point)
        refine RunUntil.keeps_going rfl ?_
        simp only [State.setProducer, Function.update_idem]
        exact .loadSequence
      | _ point => simp at point
    | loadSequence =>
      cases produce_cases move with
      | matched point =>
        obtain ⟨rfl, rfl⟩ := Producer.loadSequence.inj ((setProducer_self ..).symm.trans point)
        refine RunUntil.keeps_going rfl ?_
        simp only [State.setProducer, Function.update_idem]
        exact .compareExchange
      | refused point behind =>
        obtain ⟨rfl, rfl⟩ := Producer.loadSequence.inj ((setProducer_self ..).symm.trans point)
        exact absurd (signedDifference_eq_zero.mpr free) behind.ne
      | overtaken point =>
        obtain ⟨rfl, rfl⟩ := Producer.loadSequence.inj ((setProducer_self ..).symm.trans point)
        refine RunUntil.keeps_going rfl ?_
        simp only [State.setProducer, Function.update_idem]
        exact .loadHead
      | _ point => simp at point
    | compareExchange =>
      cases produce_cases move with
      | exchanged point =>
        obtain ⟨rfl, rfl⟩ := Producer.compareExchange.inj ((setProducer_self ..).symm.trans point)
        refine RunUntil.keeps_going rfl ?_
        simp only [State.setProducer, Function.update_idem]
        exact .construct
      | failed point =>
        obtain ⟨rfl, rfl⟩ := Producer.compareExchange.inj ((setProducer_self ..).symm.trans point)
        refine RunUntil.keeps_going rfl ?_
        simp only [State.setProducer, Function.update_idem]
        exact .loadSequence
      | _ point => simp at point
    | construct =>
      cases produce_cases move with
      | constructed point =>
        obtain ⟨rfl, rfl⟩ := Producer.construct.inj ((setProducer_self ..).symm.trans point)
        refine RunUntil.keeps_going rfl ?_
        simp only [State.setProducer, State.setSlot, Function.update_idem]
        exact .publish
      | _ point => simp at point
    | publish =>
      cases produce_cases move with
      | published point =>
        obtain rfl := Producer.publish.inj ((setProducer_self ..).symm.trans point)
        refine RunUntil.keeps_done rfl ⟨rfl, ?_⟩
        simp [State.setProducer, State.setSlot, State.slot, State.pushed, ← idle]
      | _ point => simp at point

theorem push_returns (idle : s.producer () = .idle) (value : α)
    (decided : (s.slot capacity s.head).sequence = s.head ∨
      signedDifference (s.slot capacity s.head).sequence s.head < 0) :
    ∃ answer next, Returns capacity s (.tryPush value, .pushed answer) next := by
  have called : step capacity s (.tryPush () value) =
      some (s.setProducer () (.loadHead value), .called () value) := by
    simp only [step, idle]
  have loaded : Pushes capacity (s.setProducer () (.loadHead value)) .silent
      (s.setProducer () (.loadSequence value s.head)) :=
    ⟨false, by simp [produce, State.setProducer]⟩
  rcases decided with free | behind
  · have same := signedDifference_eq_zero.mpr free
    simp only [State.slot] at same
    have matched : Pushes capacity (s.setProducer () (.loadSequence value s.head)) .silent
        (s.setProducer () (.compareExchange value s.head)) :=
      ⟨false, by simp [produce, State.setProducer, State.slot, same]⟩
    have claimed : Pushes capacity (s.setProducer () (.compareExchange value s.head))
        (.claimed () s.head value)
        ({ s with head := s.head + 1 }.setProducer () (.construct value s.head)) :=
      ⟨false, by simp [produce, State.setProducer]⟩
    have constructed : Pushes capacity
        ({ s with head := s.head + 1 }.setProducer () (.construct value s.head)) .silent
        (({ s with head := s.head + 1 }.setSlot capacity s.head
          { s.slot capacity s.head with storage := some value }).setProducer () (.publish s.head)) :=
      ⟨false, by simp [produce, State.setProducer, State.setSlot, State.slot]⟩
    have published : Pushes capacity (({ s with head := s.head + 1 }.setSlot capacity s.head
          { s.slot capacity s.head with storage := some value }).setProducer () (.publish s.head))
        (.pushReturned () true) (s.pushed capacity value) := by
      refine ⟨false, ?_⟩
      simp [produce, State.setProducer, State.setSlot, State.slot, State.pushed, ← idle]
    exact ⟨true, _, .tryPush called (.more loaded rfl (.more matched rfl (.more claimed rfl
      (.more constructed rfl (.last published rfl)))))⟩
  · simp only [State.slot] at behind
    have refused : Pushes capacity (s.setProducer () (.loadSequence value s.head))
        (.pushReturned () false) (s.setProducer () .idle) :=
      ⟨false, by simp [produce, State.setProducer, State.slot, behind, behind.ne]⟩
    exact ⟨false, _, .tryPush called (.more loaded rfl (.last refused rfl))⟩

theorem setConsumer_idle (idle : s.consumer = .idle) : s.setConsumer .idle = s := by
  rw [← idle]
  rfl

/-- A pop that finds nothing published returns nothing, and changes nothing. -/
theorem pop_missed (idle : s.consumer = .idle)
    (other : (s.slot capacity s.tail).sequence ≠ s.tail + 1) {answer : Option α}
    (returns : Returns capacity s (.tryPop, .popped answer) next) :
    answer = none ∧ next = s := by
  cases returns with
  | tryPop called run =>
    simp only [step, idle, Option.some.injEq, Prod.mk.injEq] at called
    obtain ⟨rfl, -⟩ := called
    refine run.rule (fun m => m = s.setConsumer .loadSequence)
      (fun answer t => answer = none ∧ t = s) ?_ rfl
    rintro m event t rfl move
    cases consume_cases move with
    | missed =>
      exact RunUntil.keeps_done rfl ⟨rfl, setConsumer_idle idle⟩
    | found _ same => exact absurd (signedDifference_eq_zero.mp same) other
    | _ point => simp [State.setConsumer] at point

inductive Popping (capacity : Capacity) (s : State Unit α) (value : α) : State Unit α → Prop
  | loadSequence : Popping capacity s value (s.setConsumer .loadSequence)
  | moveAndDestroy : Popping capacity s value (s.setConsumer .moveAndDestroy)
  | recycle : Popping capacity s value
      ((s.setSlot capacity s.tail ⟨s.tail + 1, none⟩).setConsumer (.recycle value))
  | advance : Popping capacity s value ((s.setSlot capacity s.tail
      ⟨s.tail + BitVec.ofNat 64 capacity.value, none⟩).setConsumer (.advance value))

theorem pop_taken (idle : s.consumer = .idle)
    (ready : s.slot capacity s.tail = ⟨s.tail + 1, some value⟩) {answer : Option α}
    (returns : Returns capacity s (.tryPop, .popped answer) next) :
    answer = some value ∧ next = s.popped capacity := by
  cases returns with
  | tryPop called run =>
    simp only [step, idle, Option.some.injEq, Prod.mk.injEq] at called
    obtain ⟨rfl, -⟩ := called
    refine run.rule (Popping capacity s value)
      (fun answer t => answer = some value ∧ t = s.popped capacity) ?_ .loadSequence
    intro m event t held move
    cases held with
    | loadSequence =>
      cases consume_cases move with
      | found => exact RunUntil.keeps_going rfl .moveAndDestroy
      | missed _ other =>
        exact absurd (signedDifference_eq_zero.mpr (congrArg Slot.sequence ready)) other
      | _ point => simp [State.setConsumer] at point
    | moveAndDestroy =>
      cases consume_cases move with
      | taken _ object =>
        refine RunUntil.keeps_going rfl ?_
        change (s.slot capacity s.tail).storage = _ at object
        rw [ready] at object
        obtain rfl := Option.some.inj object
        have left : { s.slot capacity s.tail with storage := none } =
            (⟨s.tail + 1, none⟩ : Slot α) := by rw [ready]
        change Popping capacity s value ((s.setSlot capacity s.tail
          { s.slot capacity s.tail with storage := none }).setConsumer (.recycle value))
        rw [left]
        exact .recycle
      | _ point => simp [State.setConsumer] at point
    | recycle =>
      cases consume_cases move with
      | recycled point =>
        obtain rfl := Consumer.recycle.inj point
        refine RunUntil.keeps_going rfl ?_
        simp only [State.setConsumer, State.setSlot, State.slot, Function.update_idem,
          Function.update_self]
        exact .advance
      | _ point => simp [State.setConsumer] at point
    | advance =>
      cases consume_cases move with
      | advanced point =>
        obtain rfl := Consumer.advance.inj point
        refine RunUntil.keeps_done rfl ⟨rfl, ?_⟩
        simp [State.setConsumer, State.setSlot, State.popped, ← idle]
      | _ point => simp [State.setConsumer] at point

theorem pop_returns (idle : s.consumer = .idle)
    (decided : (∃ value, s.slot capacity s.tail = ⟨s.tail + 1, some value⟩) ∨
      (s.slot capacity s.tail).sequence ≠ s.tail + 1) :
    ∃ answer next, Returns capacity s (.tryPop, .popped answer) next := by
  have called : step capacity s .tryPop = some (s.setConsumer .loadSequence, .silent) := by
    simp only [step, idle]
  rcases decided with ⟨value, ready⟩ | other
  · simp only [State.slot] at ready
    have found : Pops capacity (s.setConsumer .loadSequence) .silent
        (s.setConsumer .moveAndDestroy) := by
      simp [Pops, consume, State.setConsumer, State.slot, ready]
    have taken : Pops capacity (s.setConsumer .moveAndDestroy) .silent
        ((s.setSlot capacity s.tail ⟨s.tail + 1, none⟩).setConsumer (.recycle value)) := by
      simp [Pops, consume, State.setConsumer, State.setSlot, State.slot, ready]
    have recycled : Pops capacity
        ((s.setSlot capacity s.tail ⟨s.tail + 1, none⟩).setConsumer (.recycle value)) .recycled
        ((s.setSlot capacity s.tail
          ⟨s.tail + BitVec.ofNat 64 capacity.value, none⟩).setConsumer (.advance value)) := by
      simp [Pops, consume, State.setConsumer, State.setSlot, State.slot]
    have advanced : Pops capacity ((s.setSlot capacity s.tail
          ⟨s.tail + BitVec.ofNat 64 capacity.value, none⟩).setConsumer (.advance value))
        (.popReturned (some value)) (s.popped capacity) := by
      simp [Pops, consume, State.setConsumer, State.setSlot, State.popped, ← idle]
    exact ⟨some value, _, .tryPop called (.more found rfl (.more taken rfl (.more recycled rfl
      (.last advanced rfl))))⟩
  · have apart := mt signedDifference_eq_zero.mp other
    simp only [State.slot] at apart
    have missed : Pops capacity (s.setConsumer .loadSequence) (.popReturned none)
        (s.setConsumer .idle) := by
      simp only [Pops, consume, State.setConsumer, State.slot]
      exact if_neg apart
    exact ⟨none, _, .tryPop called (.last missed rfl)⟩

end Calls

/-- The buffer between two calls, with this queue in it. The positions up to `base` are behind. -/
structure Holds (capacity : Capacity) (s : State Unit α) (base : Nat) (queue : List α) : Prop where
  producer : s.producer () = .idle
  consumer : s.consumer = .idle
  head : s.head = BitVec.ofNat 64 (base + queue.length)
  tail : s.tail = BitVec.ofNat 64 base
  filled : ∀ q value, queue[q]? = some value →
    s.slotAt capacity (base + q) = ⟨BitVec.ofNat 64 (base + q + 1), some value⟩
  free : ∀ q, base + queue.length ≤ q → q < base + capacity.value →
    s.slotAt capacity q = ⟨BitVec.ofNat 64 q, none⟩
  bound : queue.length ≤ capacity.value

section Holds

variable {capacity : Capacity} {s next : State Unit α} {base : Nat} {queue : List α}

theorem holds_initial : Holds capacity (initial : State Unit α) 0 [] where
  producer := rfl
  consumer := rfl
  head := rfl
  tail := rfl
  filled := by simp
  free := by
    intro q _ below
    have small : q % capacity.value = q := Nat.mod_eq_of_lt (by omega)
    simp only [State.slotAt, State.slot, initial, index_eq, small]
  bound := Nat.zero_le _

theorem Holds.head_free (holds : Holds capacity s base queue)
    (room : queue.length < capacity.value) :
    (s.slot capacity s.head).sequence = s.head := by
  rw [holds.head]
  exact congrArg Slot.sequence (holds.free _ le_rfl (by omega))

/-- The slot of a full buffer's head holds the oldest element. -/
theorem Holds.head_full (holds : Holds capacity s base queue)
    (full : queue.length = capacity.value) :
    (s.slot capacity s.head).sequence = BitVec.ofNat 64 (base + 1) := by
  have some : 0 < queue.length := full ▸ capacity.positive
  have oldest := holds.filled 0 queue[0] (List.getElem?_eq_getElem some)
  have shared := slotAt_lap capacity s base
  rw [← full] at shared
  rw [holds.head]
  exact congrArg Slot.sequence (shared.trans oldest)

theorem Holds.head_behind (holds : Holds capacity s base queue) (two : 2 ≤ capacity.value)
    (full : queue.length = capacity.value) :
    signedDifference (s.slot capacity s.head).sequence s.head < 0 := by
  have half := capacity.half
  rw [holds.head_full full, holds.head]
  exact signedDifference_neg (by omega) (by omega)

/-- With one slot the sequence number of the full buffer is that of the free one. -/
theorem Holds.head_single (holds : Holds capacity s base queue) (one : capacity.value = 1)
    (full : queue.length = capacity.value) : (s.slot capacity s.head).sequence = s.head := by
  rw [holds.head_full full, holds.head, full, one]

theorem Holds.tail_free (holds : Holds capacity s base ([] : List α)) :
    (s.slot capacity s.tail).sequence ≠ s.tail + 1 := by
  have positive := capacity.positive
  have slot := congrArg Slot.sequence (holds.free base le_rfl (by omega))
  rw [holds.tail]
  change (s.slotAt capacity base).sequence ≠ _
  rw [slot]
  change BitVec.ofNat 64 base ≠ BitVec.ofNat 64 base + 1
  bv_omega

theorem Holds.tail_ready {oldest : α} (holds : Holds capacity s base (oldest :: queue)) :
    s.slot capacity s.tail = ⟨s.tail + 1, some oldest⟩ := by
  have slot := holds.filled 0 oldest rfl
  rw [BitVec.ofNat_add (base + 0)] at slot
  rw [holds.tail]
  exact slot

theorem Holds.pushed (holds : Holds capacity s base queue) (room : queue.length < capacity.value)
    (value : α) : Holds capacity (s.pushed capacity value) base (queue ++ [value]) where
  producer := holds.producer
  consumer := holds.consumer
  head := by
    change s.head + 1 = _
    rw [holds.head, List.length_append, List.length_singleton, ← Nat.add_assoc,
      BitVec.ofNat_add (base + queue.length)]
    rfl
  tail := holds.tail
  filled := by
    intro q element here
    change (s.setSlot capacity s.head ⟨s.head + 1, some value⟩).slotAt capacity (base + q) = _
    rw [holds.head]
    rcases Nat.lt_trichotomy q queue.length with below | rfl | beyond
    · have next : base ≤ base + queue.length ∧ base + queue.length < base + capacity.value :=
        ⟨by omega, by omega⟩
      rw [slotAt_setSlot_ne capacity s _ _ (by omega) next ⟨by omega, by omega⟩]
      exact holds.filled q element (by rwa [List.getElem?_append_left below] at here)
    · rw [List.getElem?_concat_length] at here
      obtain rfl := Option.some.inj here
      rw [slotAt_setSlot_self, BitVec.ofNat_add (base + queue.length)]
      rfl
    · rw [List.getElem?_eq_none (by simp; omega)] at here
      cases here
  free := by
    intro q recent below
    rw [List.length_append, List.length_singleton] at recent
    change (s.setSlot capacity s.head ⟨s.head + 1, some value⟩).slotAt capacity q = _
    have next : base ≤ base + queue.length ∧ base + queue.length < base + capacity.value :=
      ⟨by omega, by omega⟩
    rw [holds.head, slotAt_setSlot_ne capacity s _ _ (by omega) next ⟨by omega, by omega⟩]
    exact holds.free q (by omega) below
  bound := by
    rw [List.length_append, List.length_singleton]
    omega

theorem Holds.popped {value : α} (holds : Holds capacity s base (value :: queue)) :
    Holds capacity (s.popped capacity) (base + 1) queue where
  producer := holds.producer
  consumer := holds.consumer
  head := by
    change s.head = _
    rw [holds.head, List.length_cons]
    congr 1
    omega
  tail := by
    change s.tail + 1 = _
    rw [holds.tail, BitVec.ofNat_add]
    rfl
  filled := by
    intro q element here
    have bound := holds.bound
    rw [List.length_cons] at bound
    have inside := (List.getElem?_eq_some_iff.mp here).1
    change (s.setSlot capacity s.tail _).slotAt capacity (base + 1 + q) = _
    have first : base ≤ base ∧ base < base + capacity.value := ⟨le_refl base, by omega⟩
    rw [holds.tail, slotAt_setSlot_ne capacity s _ _ (by omega) first ⟨by omega, by omega⟩]
    have later := holds.filled (q + 1) element (by rwa [List.getElem?_cons_succ])
    rwa [show base + (q + 1) = base + 1 + q by omega] at later
  free := by
    intro q recent below
    change (s.setSlot capacity s.tail _).slotAt capacity q = _
    rw [holds.tail]
    by_cases lap : q = base + capacity.value
    · rw [lap, slotAt_lap, slotAt_setSlot_self, BitVec.ofNat_add]
    · have first : base ≤ base ∧ base < base + capacity.value := ⟨le_refl base, by omega⟩
      rw [slotAt_setSlot_ne capacity s _ _ (by omega) first ⟨by omega, by omega⟩]
      exact holds.free q (by rw [List.length_cons]; omega) (by omega)
  bound := by
    have bound := holds.bound
    rw [List.length_cons] at bound
    omega

/-- A call on a buffer with a queue in it returns what the queue returns, and leaves the buffer
with the queue that it leaves. -/
theorem Holds.returns (holds : Holds capacity s base queue) {call : Call α} {result : Result α}
    (fits : 2 ≤ capacity.value ∨ ∀ value, call = .tryPush value → queue.length < capacity.value)
    (small : base + queue.length < 2 ^ 64) (returns : Returns capacity s (call, result) next) :
    result = (serve capacity.value queue call).2 ∧ ∃ after,
      Holds capacity next after (serve capacity.value queue call).1 ∧
        after + (serve capacity.value queue call).1.length ≤ base + queue.length + 1 := by
  cases call with
  | tryPush value =>
    obtain ⟨answer, rfl⟩ : ∃ answer, result = .pushed answer := by
      cases returns
      exact ⟨_, rfl⟩
    by_cases room : queue.length < capacity.value
    · have served : serve capacity.value queue (.tryPush value) =
          (queue ++ [value], .pushed true) := if_pos room
      obtain ⟨rfl, rfl⟩ := push_accepted holds.producer (holds.head_free room) returns
      rw [served]
      refine ⟨rfl, base, holds.pushed room value, ?_⟩
      rw [List.length_append, List.length_singleton]
      omega
    · have two : 2 ≤ capacity.value := fits.resolve_right fun all => room (all value rfl)
      have full : queue.length = capacity.value := le_antisymm holds.bound (not_lt.mp room)
      have served : serve capacity.value queue (.tryPush value) = (queue, .pushed false) :=
        if_neg room
      obtain ⟨rfl, rfl⟩ := push_refused holds.producer (holds.head_behind two full) returns
      rw [served]
      exact ⟨rfl, base, holds, Nat.le_succ _⟩
  | tryPop =>
    obtain ⟨answer, rfl⟩ : ∃ answer, result = .popped answer := by
      cases returns
      exact ⟨_, rfl⟩
    cases queue with
    | nil =>
      obtain ⟨rfl, rfl⟩ := pop_missed holds.consumer holds.tail_free returns
      exact ⟨rfl, base, holds, Nat.le_succ _⟩
    | cons oldest rest =>
      obtain ⟨rfl, rfl⟩ := pop_taken holds.consumer holds.tail_ready returns
      refine ⟨rfl, base + 1, holds.popped, ?_⟩
      simp only [serve, List.length_cons]
      omega
  | sizeApprox =>
    cases returns with
    | sizeApprox =>
      refine ⟨?_, base, holds, Nat.le_succ _⟩
      have size : s.sizeApprox = BitVec.ofNat 64 queue.length := by
        unfold State.sizeApprox
        rw [holds.head, holds.tail]
        have ordered : BitVec.ofNat 64 base ≤ BitVec.ofNat 64 (base + queue.length) := by
          rw [BitVec.le_def, BitVec.toNat_ofNat, BitVec.toNat_ofNat]
          omega
        rw [if_pos ordered]
        bv_omega
      rw [serve, size]

theorem Holds.returns_some (holds : Holds capacity s base queue) (call : Call α)
    (fits : 2 ≤ capacity.value ∨ ∀ value, call = .tryPush value → queue.length < capacity.value) :
    ∃ result next, Returns capacity s (call, result) next := by
  cases call with
  | tryPush value =>
    have decided : (s.slot capacity s.head).sequence = s.head ∨
        signedDifference (s.slot capacity s.head).sequence s.head < 0 := by
      by_cases room : queue.length < capacity.value
      · exact .inl (holds.head_free room)
      · have two : 2 ≤ capacity.value := fits.resolve_right fun all => room (all value rfl)
        exact .inr (holds.head_behind two (le_antisymm holds.bound (not_lt.mp room)))
    obtain ⟨answer, next, returns⟩ := push_returns holds.producer value decided
    exact ⟨_, _, returns⟩
  | tryPop =>
    have decided : (∃ value, s.slot capacity s.tail = ⟨s.tail + 1, some value⟩) ∨
        (s.slot capacity s.tail).sequence ≠ s.tail + 1 := by
      cases queue with
      | nil => exact .inr holds.tail_free
      | cons oldest rest => exact .inl ⟨oldest, holds.tail_ready⟩
    obtain ⟨answer, next, returns⟩ := pop_returns holds.consumer decided
    exact ⟨_, _, returns⟩
  | sizeApprox => exact ⟨_, _, .sizeApprox⟩

end Holds

def Behaves (capacity : Capacity) (calls : List (Call α)) : Prop :=
  (∃ labels s, Run (Returns capacity) initial labels s ∧ labels.map Prod.fst = calls) ∧
    ∀ labels s, Run (Returns capacity) initial labels s → labels.map Prod.fst = calls →
      AsQueue capacity.value labels

theorem AsQueue.concat {limit : Nat} {labels : List (Call α × Result α)}
    (asQueue : AsQueue limit labels) {call : Call α} {result : Result α}
    (last : result = (serve limit (queued limit (labels.map Prod.fst)) call).2) :
    AsQueue limit (labels ++ [(call, result)]) := by
  intro earlier other answer before
  rcases List.prefix_concat_iff.mp before with whole | before
  · obtain ⟨rfl, single⟩ := List.append_inj' whole rfl
    obtain ⟨rfl, rfl⟩ := Prod.mk.inj (List.singleton_inj.mp single)
    exact last
  · exact asQueue earlier other answer before

theorem AsQueue.init {limit : Nat} {labels : List (Call α × Result α)} {label : Call α × Result α}
    (asQueue : AsQueue limit (labels ++ [label])) : AsQueue limit labels :=
  fun earlier call result before =>
    asQueue earlier call result (before.trans (List.prefix_append ..))

theorem PushesFit.init {limit : Nat} {calls : List (Call α)} {call : Call α}
    (fit : PushesFit limit (calls ++ [call])) : PushesFit limit calls :=
  fun earlier value before => fit earlier value (before.trans (List.prefix_append ..))

def Suits (capacity : Capacity) (calls : List (Call α)) : Prop :=
  2 ≤ capacity.value ∨ PushesFit capacity.value calls

theorem Suits.init {capacity : Capacity} {calls : List (Call α)} {call : Call α}
    (suits : Suits capacity (calls ++ [call])) : Suits capacity calls :=
  suits.imp id PushesFit.init

theorem Suits.last {capacity : Capacity} {calls : List (Call α)} {call : Call α}
    (suits : Suits capacity (calls ++ [call])) : 2 ≤ capacity.value ∨
      ∀ value, call = .tryPush value → (queued capacity.value calls).length < capacity.value :=
  suits.imp id fun fit value same => fit calls value (same ▸ List.prefix_rfl)

section Runs

variable {capacity : Capacity} {s : State Unit α} {labels : List (Call α × Result α)}

theorem run_holds (run : Run (Returns capacity) initial labels s) (few : labels.length < 2 ^ 63)
    (suits : Suits capacity (labels.map Prod.fst)) : AsQueue capacity.value labels ∧
      ∃ base, Holds capacity s base (queued capacity.value (labels.map Prod.fst)) ∧
        base + (queued capacity.value (labels.map Prod.fst)).length ≤ labels.length := by
  induction run with
  | refl =>
    refine ⟨fun earlier call result before => ?_, 0, holds_initial, le_rfl⟩
    simp at before
  | @snoc labels current next label run step ih =>
    obtain ⟨call, result⟩ := label
    rw [List.map_append, List.map_singleton] at suits ⊢
    rw [List.length_append, List.length_singleton] at few ⊢
    obtain ⟨asQueue, base, holds, size⟩ := ih (by omega) suits.init
    obtain ⟨answer, after, holding, grown⟩ := holds.returns suits.last (by omega) step
    rw [queued_concat]
    exact ⟨asQueue.concat answer, after, holding, by omega⟩

/-- With one slot, calls that behave like those of a queue never push into a full one. -/
theorem run_suits (run : Run (Returns capacity) initial labels s) (few : labels.length < 2 ^ 63)
    (asQueue : AsQueue capacity.value labels) : Suits capacity (labels.map Prod.fst) := by
  by_cases two : 2 ≤ capacity.value
  · exact .inl two
  have positive := capacity.positive
  have one : capacity.value = 1 := by omega
  right
  induction run with
  | refl =>
    intro earlier value before
    simp at before
  | @snoc labels current next label run step ih =>
    obtain ⟨call, result⟩ := label
    rw [List.length_append, List.length_singleton] at few
    have fit := ih (by omega) asQueue.init
    obtain ⟨-, base, holds, -⟩ := run_holds run (by omega) (.inr fit)
    rw [List.map_append, List.map_singleton]
    intro earlier value before
    rcases List.prefix_concat_iff.mp before with whole | before
    · obtain ⟨rfl, single⟩ := List.append_inj' whole rfl
      obtain rfl := List.singleton_inj.mp single
      by_contra taken
      have full := le_antisymm holds.bound (not_lt.mp taken)
      have refused := asQueue labels _ result List.prefix_rfl
      rw [serve, if_neg taken] at refused
      obtain rfl := refused
      have accepted := push_accepted holds.producer (holds.head_single one full) step
      exact Bool.noConfusion accepted.1
    · exact fit earlier value before

theorem exists_run (calls : List (Call α)) (few : calls.length < 2 ^ 63)
    (suits : Suits capacity calls) :
    ∃ labels s, Run (Returns capacity) initial labels s ∧ labels.map Prod.fst = calls := by
  induction calls using List.reverseRecOn with
  | nil => exact ⟨[], initial, Run.refl, rfl⟩
  | append_singleton calls call ih =>
    rw [List.length_append, List.length_singleton] at few
    obtain ⟨labels, s, run, rfl⟩ := ih (by omega) suits.init
    rw [List.length_map] at few
    obtain ⟨-, base, holds, -⟩ := run_holds run (by omega) suits.init
    obtain ⟨result, next, step⟩ := holds.returns_some call suits.last
    exact ⟨_, next, run.snoc step, by simp⟩

end Runs

/-- The buffer is a queue of `Capacity` elements for its only thread if and only if it has two
slots, or nothing is pushed while its single slot is taken. -/
theorem behaves_iff (capacity : Capacity) (calls : List (Call α)) (few : calls.length < 2 ^ 63) :
    Behaves capacity calls ↔ 2 ≤ capacity.value ∨ PushesFit capacity.value calls := by
  constructor
  · rintro ⟨⟨labels, s, run, rfl⟩, all⟩
    rw [List.length_map] at few
    exact run_suits run few (all labels s run rfl)
  · intro suits
    refine ⟨exists_run calls few suits, ?_⟩
    rintro labels s run rfl
    rw [List.length_map] at few
    exact (run_holds run few suits).1

theorem behaves_iff_two : Behaves twoSlots [.tryPush 1, .tryPush 2, .tryPush 3, .tryPop] :=
  (behaves_iff twoSlots [.tryPush 1, .tryPush 2, .tryPush 3, .tryPop] (by decide)).mpr
    (.inl (by decide))

def oneSlot : Capacity where
  value := 1
  fits := by decide
  powerOfTwo := by decide

/-- The second push into a single slot is accepted. -/
theorem oneSlot_overwrites : ¬Behaves oneSlot [.tryPush 1, .tryPush 2] := by
  intro behaves
  obtain ⟨labels, s, run, calls⟩ := behaves.1
  have size := congrArg List.length calls
  rw [List.length_map] at size
  have suits := run_suits run (by rw [size]; decide) (behaves.2 labels s run calls)
  rw [calls] at suits
  rcases suits with two | fit
  · exact absurd two (by decide)
  · exact absurd (fit [.tryPush 1] 2 List.prefix_rfl) (by decide)

end Queue

end LogMonitor.RingBuffer
