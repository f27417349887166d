import LogMonitor.Library.Transition
import Mathlib.Data.BitVec
import Mathlib.Logic.Function.Basic

/-!
The lock-free MPSC ring buffer, one transition for each atomic step of
`try_push` and `try_pop`. Producers are indexed by an arbitrary type; each one
and the single consumer carry their program point and local variables, and a
run interleaves their steps in any order.
-/

namespace LogMonitor.RingBuffer
open Library.Transition

/-- `std::size_t` on the 64-bit targets. -/
abbrev Word := BitVec 64

/-- A capacity that the `static_assert` of the class template admits. -/
structure Capacity where
  value : Nat
  fits : value < 2 ^ 64
  powerOfTwo : value ≠ 0 ∧ value &&& (value - 1) = 0

def logCapacity : Capacity where
  value := 65536
  fits := by decide
  powerOfTwo := by decide

def kMask (capacity : Capacity) : Word := BitVec.ofNat 64 (capacity.value - 1)

structure Slot (α : Type) where
  sequence : Word
  /-- The object living in the slot's raw storage, if one does. -/
  storage : Option α

/-- Where a producer stands in `try_push`, with its locals `value` and `pos`. -/
inductive Producer (α : Type) where
  | idle
  | loadHead (value : α)
  | loadSequence (value : α) (pos : Word)
  | compareExchange (value : α) (pos : Word)
  | construct (value : α) (pos : Word)
  | publish (pos : Word)

inductive Consumer (α : Type) where
  | idle
  | loadSequence
  | moveAndDestroy
  | recycle (value : α)
  | advance (value : α)

structure State (ι α : Type) where
  head : Word
  tail : Word
  slots : Word → Slot α
  producer : ι → Producer α
  consumer : Consumer α

/-- What a step shows to the outside, and the two commitment points of the buffer. -/
inductive Event (ι α : Type) where
  | silent
  | called (producer : ι) (value : α)
  | claimed (producer : ι) (pos : Word) (value : α)
  | pushReturned (producer : ι) (accepted : Bool)
  | recycled
  | popReturned (result : Option α)

/-- The scheduler's choice: who moves, and whether a weak exchange fails without cause. -/
inductive Action (ι α : Type) where
  | tryPush (producer : ι) (value : α)
  | produce (producer : ι) (spurious : Bool)
  | tryPop
  | consume

variable {ι α : Type}

def initial : State ι α where
  head := 0
  tail := 0
  slots := fun i => ⟨i, none⟩
  producer := fun _ => .idle
  consumer := .idle

def State.slot (capacity : Capacity) (s : State ι α) (pos : Word) : Slot α :=
  s.slots (pos &&& kMask capacity)

def State.setSlot (capacity : Capacity) (s : State ι α) (pos : Word) (slot : Slot α) :
    State ι α :=
  { s with slots := Function.update s.slots (pos &&& kMask capacity) slot }

def State.setProducer [DecidableEq ι] (s : State ι α) (i : ι) (point : Producer α) :
    State ι α :=
  { s with producer := Function.update s.producer i point }

def State.setConsumer (s : State ι α) (point : Consumer α) : State ι α :=
  { s with consumer := point }

/-- `static_cast<intptr_t>(a) - static_cast<intptr_t>(b)` in two's complement. -/
def signedDifference (a b : Word) : Int := (a - b).toInt

def produce [DecidableEq ι] (capacity : Capacity) (s : State ι α) (i : ι) (spurious : Bool) :
    Option (State ι α × Event ι α) :=
  match s.producer i with
  | .idle => none
  | .loadHead value => some (s.setProducer i (.loadSequence value s.head), .silent)
  | .loadSequence value pos =>
    let seq := (s.slot capacity pos).sequence
    let diff := signedDifference seq pos
    if diff = 0 then some (s.setProducer i (.compareExchange value pos), .silent)
    else if diff < 0 then some (s.setProducer i .idle, .pushReturned i false)
    else some (s.setProducer i (.loadHead value), .silent)
  | .compareExchange value pos =>
    if s.head = pos ∧ spurious = false then
      some ({ s with head := pos + 1 }.setProducer i (.construct value pos), .claimed i pos value)
    -- a failed exchange leaves the current head in `pos`
    else some (s.setProducer i (.loadSequence value s.head), .silent)
  | .construct value pos =>
    some ((s.setSlot capacity pos { s.slot capacity pos with storage := some value }).setProducer i
      (.publish pos), .silent)
  | .publish pos =>
    some ((s.setSlot capacity pos { s.slot capacity pos with sequence := pos + 1 }).setProducer i
      .idle, .pushReturned i true)

def consume (capacity : Capacity) (s : State ι α) : Option (State ι α × Event ι α) :=
  match s.consumer with
  | .idle => none
  | .loadSequence =>
    let seq := (s.slot capacity s.tail).sequence
    let diff := signedDifference seq (s.tail + 1)
    if diff = 0 then some (s.setConsumer .moveAndDestroy, .silent)
    else some (s.setConsumer .idle, .popReturned none)
  | .moveAndDestroy =>
    -- moving out of a slot without a live object is undefined: no step
    match (s.slot capacity s.tail).storage with
    | none => none
    | some value =>
      some ((s.setSlot capacity s.tail { s.slot capacity s.tail with storage := none }).setConsumer
        (.recycle value), .silent)
  | .recycle value =>
    some ((s.setSlot capacity s.tail { s.slot capacity s.tail with
      sequence := s.tail + BitVec.ofNat 64 capacity.value }).setConsumer (.advance value), .recycled)
  | .advance value =>
    some ({ s with tail := s.tail + 1 }.setConsumer .idle, .popReturned (some value))

def step [DecidableEq ι] (capacity : Capacity) (s : State ι α) :
    Action ι α → Option (State ι α × Event ι α)
  | .tryPush i value =>
    match s.producer i with
    | .idle => some (s.setProducer i (.loadHead value), .called i value)
    | _ => none
  | .produce i spurious => produce capacity s i spurious
  | .tryPop =>
    match s.consumer with
    | .idle => some (s.setConsumer .loadSequence, .silent)
    | _ => none
  | .consume => consume capacity s

def Step [DecidableEq ι] (capacity : Capacity) (s : State ι α) (event : Event ι α)
    (next : State ι α) : Prop :=
  ∃ action, step capacity s action = some (next, event)

end LogMonitor.RingBuffer
