import LogMonitor.RingBuffer
import Mathlib.Data.Nat.ModEq
import Mathlib.Tactic.Positivity

/-!
The global invariant of the ring buffer. Positions are counted by natural
numbers: `claimed` holds what the pushes claimed in the order of their
positions, `recycled` counts the positions the consumer has given back, and the
positions from `recycled` up to `recycled + Capacity` each have a slot of their
own.
-/

namespace LogMonitor.RingBuffer
open Library.Transition

theorem Capacity.exists_pow (capacity : Capacity) : ∃ k < 64, capacity.value = 2 ^ k := by
  obtain ⟨k, shape⟩ := Nat.ne_zero_and_sub_one_eq_zero_iff_isPowerOfTwo.mp capacity.powerOfTwo
  have small : 2 ^ k < 2 ^ 64 := by rw [← shape]; exact capacity.fits
  exact ⟨k, (Nat.pow_lt_pow_iff_right (by decide)).mp small, shape⟩

theorem Capacity.positive (capacity : Capacity) : 0 < capacity.value :=
  Nat.pos_of_ne_zero capacity.powerOfTwo.1

theorem Capacity.half (capacity : Capacity) : capacity.value ≤ 2 ^ 63 := by
  obtain ⟨k, small, shape⟩ := capacity.exists_pow
  rw [shape]
  exact Nat.pow_le_pow_right (by decide) (by omega)

theorem index_eq (capacity : Capacity) (p : Nat) :
    BitVec.ofNat 64 p &&& kMask capacity = BitVec.ofNat 64 (p % capacity.value) := by
  obtain ⟨k, small, shape⟩ := capacity.exists_pow
  have divides : 2 ^ k ∣ 2 ^ 64 := Nat.pow_dvd_pow 2 (by omega)
  have fits := capacity.fits
  apply BitVec.eq_of_toNat_eq
  rw [shape] at fits
  simp only [kMask, shape, BitVec.toNat_and, BitVec.toNat_ofNat]
  rw [Nat.mod_eq_of_lt (by omega : 2 ^ k - 1 < 2 ^ 64), Nat.and_two_pow_sub_one_eq_mod,
    Nat.mod_mod_of_dvd _ divides]
  exact (Nat.mod_eq_of_lt (lt_of_lt_of_le (Nat.mod_lt _ (by positivity))
    (Nat.le_of_dvd (by positivity) divides))).symm

/-- Two positions of one window of `Capacity` consecutive ones have different slots. -/
theorem index_injective (capacity : Capacity) {base p q : Nat}
    (hp : base ≤ p ∧ p < base + capacity.value) (hq : base ≤ q ∧ q < base + capacity.value)
    (same : BitVec.ofNat 64 p &&& kMask capacity = BitVec.ofNat 64 q &&& kMask capacity) :
    p = q := by
  have positive := capacity.positive
  have fits := capacity.fits
  have pb := Nat.mod_lt p positive
  have qb := Nat.mod_lt q positive
  rw [index_eq, index_eq] at same
  have values := congrArg BitVec.toNat same
  rw [BitVec.toNat_ofNat, BitVec.toNat_ofNat,
    Nat.mod_eq_of_lt (show p % capacity.value < 2 ^ 64 by omega),
    Nat.mod_eq_of_lt (show q % capacity.value < 2 ^ 64 by omega)] at values
  rcases Nat.le_total p q with ordered | ordered
  · have gap := (Nat.modEq_iff_dvd' ordered).mp values
    have := Nat.eq_zero_of_dvd_of_lt gap (by omega)
    omega
  · have gap := (Nat.modEq_iff_dvd' ordered).mp values.symm
    have := Nat.eq_zero_of_dvd_of_lt gap (by omega)
    omega

theorem signedDifference_eq_zero {a b : Word} : signedDifference a b = 0 ↔ a = b := by
  rw [signedDifference, ← BitVec.toInt_zero (w := 64), BitVec.toInt_inj]
  bv_omega

@[simp] theorem signedDifference_self (word : Word) : signedDifference word word = 0 :=
  signedDifference_eq_zero.mpr rfl

theorem ofNat_injective {p q : Nat} (hp : p < 2 ^ 64) (hq : q < 2 ^ 64)
    (same : BitVec.ofNat 64 p = BitVec.ofNat 64 q) : p = q := by
  bv_omega

theorem signedDifference_nonneg {seq pos : Nat} (ordered : pos ≤ seq) (near : seq < pos + 2 ^ 63) :
    0 ≤ signedDifference (BitVec.ofNat 64 seq) (BitVec.ofNat 64 pos) := by
  rw [signedDifference, BitVec.toInt_eq_toNat_cond, BitVec.toNat_sub, BitVec.toNat_ofNat, BitVec.toNat_ofNat]
  split <;> omega

theorem signedDifference_neg {seq pos : Nat} (ordered : seq < pos) (near : pos ≤ seq + 2 ^ 63) :
    signedDifference (BitVec.ofNat 64 seq) (BitVec.ofNat 64 pos) < 0 := by
  rw [signedDifference, BitVec.toInt_eq_toNat_cond, BitVec.toNat_sub, BitVec.toNat_ofNat, BitVec.toNat_ofNat]
  split <;> omega
variable {ι α : Type}

/-- The slot that serves the position `q`. -/
def State.slotAt (capacity : Capacity) (s : State ι α) (q : Nat) : Slot α :=
  s.slot capacity (BitVec.ofNat 64 q)

/-- A producer between its claim of `pos` and the publication of the slot. -/
def Producer.InFlight (pos : Word) : Producer α → Prop
  | .construct _ own => own = pos
  | .publish own => own = pos
  | _ => False

/-- One while the consumer has recycled a slot and not yet advanced `tail_`. -/
def Consumer.ahead : Consumer α → Nat
  | .advance _ => 1
  | _ => 0

/-- What a claimed position that is not recycled yet can look like. -/
inductive Live (capacity : Capacity) (s : State ι α) (popped q : Nat) (owner : ι) (value : α) : Prop
  | inFlight (sequence : (s.slotAt capacity q).sequence = BitVec.ofNat 64 q)
      (owned : (s.producer owner).InFlight (BitVec.ofNat 64 q))
  | published (slot : s.slotAt capacity q = ⟨BitVec.ofNat 64 (q + 1), some value⟩)
  | moved (slot : s.slotAt capacity q = ⟨BitVec.ofNat 64 (q + 1), none⟩) (last : q = popped)
      (consumer : s.consumer = .recycle value)

def ProducerOk (capacity : Capacity) (s : State ι α) (claimed : List (ι × α)) (recycled : Nat)
    (i : ι) : Producer α → Prop
  | .idle | .loadHead _ => True
  | .loadSequence _ pos => ∃ p ≤ claimed.length, pos = BitVec.ofNat 64 p
  | .compareExchange _ pos =>
    ∃ p ≤ claimed.length, pos = BitVec.ofNat 64 p ∧ p < recycled + capacity.value
  | .construct value pos => ∃ p, pos = BitVec.ofNat 64 p ∧ recycled ≤ p ∧
    claimed[p]? = some (i, value) ∧ s.slotAt capacity p = ⟨BitVec.ofNat 64 p, none⟩
  | .publish pos => ∃ p value, pos = BitVec.ofNat 64 p ∧ recycled ≤ p ∧
    claimed[p]? = some (i, value) ∧ s.slotAt capacity p = ⟨BitVec.ofNat 64 p, some value⟩

/-- What the program point of the consumer tells about the slot of the position `popped`. -/
def ConsumerOk (capacity : Capacity) (s : State ι α) (claimed : List (ι × α)) (popped : Nat) :
    Consumer α → Prop
  | .idle | .loadSequence => True
  | .moveAndDestroy => ∃ owner value, claimed[popped]? = some (owner, value) ∧
    s.slotAt capacity popped = ⟨BitVec.ofNat 64 (popped + 1), some value⟩
  | .recycle value => ∃ owner, claimed[popped]? = some (owner, value) ∧
    s.slotAt capacity popped = ⟨BitVec.ofNat 64 (popped + 1), none⟩
  | .advance value => ∃ owner, claimed[popped]? = some (owner, value)

structure Invariant (capacity : Capacity) (s : State ι α) (claimed : List (ι × α))
    (recycled : Nat) (popped : List α) : Prop where
  head : s.head = BitVec.ofNat 64 claimed.length
  tail : s.tail = BitVec.ofNat 64 popped.length
  recycled_eq : recycled = popped.length + s.consumer.ahead
  ordered : recycled ≤ claimed.length
  window : claimed.length ≤ recycled + capacity.value
  fifo : popped = (claimed.take popped.length).map Prod.snd
  unclaimed : ∀ q, claimed.length ≤ q → q < recycled + capacity.value →
    s.slotAt capacity q = ⟨BitVec.ofNat 64 q, none⟩
  live : ∀ q owner value, recycled ≤ q → claimed[q]? = some (owner, value) →
    Live capacity s popped.length q owner value
  producers : ∀ i, ProducerOk capacity s claimed recycled i (s.producer i)
  consumer : ConsumerOk capacity s claimed popped.length s.consumer

theorem initial_invariant (capacity : Capacity) :
    Invariant capacity (initial : State ι α) [] 0 [] where
  head := rfl
  tail := rfl
  recycled_eq := rfl
  ordered := le_rfl
  window := Nat.zero_le _
  fifo := rfl
  unclaimed := by
    intro q _ below
    have small : q % capacity.value = q := Nat.mod_eq_of_lt (by omega)
    simp only [State.slotAt, State.slot, initial, index_eq, small]
  live := by simp
  producers := fun _ => trivial
  consumer := trivial

theorem ofNat_ne_succ (p : Nat) : BitVec.ofNat 64 p ≠ BitVec.ofNat 64 (p + 1) := by
  bv_omega

section Updates

variable (capacity : Capacity) (s : State ι α) (q : Nat)

@[simp] theorem slotAt_setConsumer (point : Consumer α) :
    (s.setConsumer point).slotAt capacity q = s.slotAt capacity q := rfl

@[simp] theorem slotAt_setProducer [DecidableEq ι] (i : ι) (point : Producer α) :
    (s.setProducer i point).slotAt capacity q = s.slotAt capacity q := rfl

@[simp] theorem setProducer_self [DecidableEq ι] (i : ι) (point : Producer α) :
    (s.setProducer i point).producer i = point :=
  Function.update_self ..

@[simp] theorem setProducer_ne [DecidableEq ι] {i j : ι} (different : j ≠ i) (point : Producer α) :
    (s.setProducer i point).producer j = s.producer j :=
  Function.update_of_ne different ..

@[simp] theorem slotAt_setSlot_self (slot : Slot α) :
    (s.setSlot capacity (BitVec.ofNat 64 q) slot).slotAt capacity q = slot :=
  Function.update_self ..

theorem slotAt_lap : s.slotAt capacity (q + capacity.value) = s.slotAt capacity q := by
  simp only [State.slotAt, State.slot, index_eq, Nat.add_mod_right]

theorem slotAt_setSlot_ne {base p : Nat} (slot : Slot α) (different : q ≠ p)
    (hp : base ≤ p ∧ p < base + capacity.value) (hq : base ≤ q ∧ q < base + capacity.value) :
    (s.setSlot capacity (BitVec.ofNat 64 p) slot).slotAt capacity q = s.slotAt capacity q :=
  Function.update_of_ne (fun same => different (index_injective capacity hq hp same)) ..

end Updates

section Preservation

variable [DecidableEq ι] {capacity : Capacity} {s : State ι α} {claimed : List (ι × α)}
  {recycled : Nat} {popped : List α}

/-- A producer without a claimed slot may move to any point that is right for the
buffer, as long as it touches nothing else. -/
theorem Invariant.moveProducer (inv : Invariant capacity s claimed recycled popped) (i : ι)
    (point : Producer α) (free : ∀ pos, ¬(s.producer i).InFlight pos)
    (ok : ProducerOk capacity s claimed recycled i point) :
    Invariant capacity (s.setProducer i point) claimed recycled popped where
  head := inv.head
  tail := inv.tail
  recycled_eq := inv.recycled_eq
  ordered := inv.ordered
  window := inv.window
  fifo := inv.fifo
  unclaimed := inv.unclaimed
  live := by
    intro q owner value recent claim
    cases inv.live q owner value recent claim with
    | inFlight sequence owned =>
      have different : owner ≠ i := fun same => free _ (same ▸ owned)
      exact .inFlight sequence (by rwa [setProducer_ne s different])
    | published slot => exact .published slot
    | moved slot last consumer => exact .moved slot last consumer
  producers := by
    intro j
    by_cases same : j = i
    · subst same
      rw [setProducer_self]
      cases point <;> exact ok
    · rw [setProducer_ne s same]
      have own := inv.producers j
      cases point : s.producer j <;> rw [point] at own <;> exact own
  consumer := inv.consumer

omit [DecidableEq ι] in
theorem ProducerOk.frame {s' : State ι α} {recycled' : Nat} {j : ι} {point : Producer α}
    (more : List (ι × α)) (later : recycled ≤ recycled')
    (same : ∀ p value, recycled ≤ p → claimed[p]? = some (j, value) →
      (s.slotAt capacity p).sequence = BitVec.ofNat 64 p →
      recycled' ≤ p ∧ s'.slotAt capacity p = s.slotAt capacity p)
    (ok : ProducerOk capacity s claimed recycled j point) :
    ProducerOk capacity s' (claimed ++ more) recycled' j point := by
  have kept : ∀ {p : Nat} {entry : ι × α}, claimed[p]? = some entry →
      (claimed ++ more)[p]? = some entry := by
    intro p entry claim
    rw [List.getElem?_append_left (List.getElem?_eq_some_iff.mp claim).1]
    exact claim
  cases point with
  | idle => trivial
  | loadHead value => trivial
  | loadSequence value pos =>
    obtain ⟨p, bound, rfl⟩ := ok
    exact ⟨p, by simp only [List.length_append]; omega, rfl⟩
  | compareExchange value pos =>
    obtain ⟨p, bound, rfl, room⟩ := ok
    exact ⟨p, by simp only [List.length_append]; omega, rfl, by omega⟩
  | construct value pos =>
    obtain ⟨p, rfl, recent, claim, slot⟩ := ok
    obtain ⟨recent', frame⟩ := same p value recent claim (by rw [slot])
    exact ⟨p, rfl, recent', kept claim, frame.trans slot⟩
  | publish pos =>
    obtain ⟨p, value, rfl, recent, claim, slot⟩ := ok
    obtain ⟨recent', frame⟩ := same p value recent claim (by rw [slot])
    exact ⟨p, value, rfl, recent', kept claim, frame.trans slot⟩

/-- The successful exchange: the position `claimed.length` gets an owner. -/
theorem Invariant.claim (inv : Invariant capacity s claimed recycled popped) (i : ι) (value : α)
    (room : claimed.length < recycled + capacity.value)
    (free : ∀ pos, ¬(s.producer i).InFlight pos) :
    Invariant capacity ({ s with head := s.head + 1 }.setProducer i
      (.construct value (BitVec.ofNat 64 claimed.length))) (claimed ++ [(i, value)]) recycled
      popped where
  head := by
    rw [List.length_append, List.length_singleton, BitVec.ofNat_add, ← inv.head]
    rfl
  tail := inv.tail
  recycled_eq := inv.recycled_eq
  ordered := by
    have := inv.ordered
    simp only [List.length_append]
    omega
  window := by
    simp only [List.length_append, List.length_singleton]
    omega
  fifo := by
    have known := inv.recycled_eq
    have ordered := inv.ordered
    rw [List.take_append_of_le_length (by omega)]
    exact inv.fifo
  unclaimed := by
    intro q above below
    simp only [List.length_append, List.length_singleton] at above
    exact inv.unclaimed q (by omega) below
  live := by
    intro q owner entry recent found
    rcases Nat.lt_or_ge q claimed.length with old | new
    · rw [List.getElem?_append_left old] at found
      cases inv.live q owner entry recent found with
      | inFlight sequence owned =>
        have different : owner ≠ i := fun same => free _ (same ▸ owned)
        exact .inFlight sequence (by rwa [setProducer_ne _ different])
      | published slot => exact .published slot
      | moved slot last consumer => exact .moved slot last consumer
    · have bound := (List.getElem?_eq_some_iff.mp found).1
      simp only [List.length_append, List.length_singleton] at bound
      obtain rfl : q = claimed.length := by omega
      rw [List.getElem?_concat_length, Option.some.injEq, Prod.mk.injEq] at found
      obtain ⟨rfl, rfl⟩ := found
      have empty := inv.unclaimed claimed.length le_rfl room
      refine .inFlight (congrArg Slot.sequence empty) ?_
      rw [setProducer_self]
      exact rfl
  producers := by
    intro j
    by_cases same : j = i
    · subst same
      rw [setProducer_self]
      exact ⟨claimed.length, rfl, inv.ordered, List.getElem?_concat_length,
        inv.unclaimed claimed.length le_rfl room⟩
    · rw [setProducer_ne _ same]
      exact ProducerOk.frame _ le_rfl (fun _ _ recent _ _ => ⟨recent, rfl⟩) (inv.producers j)
  consumer := by
    have kept : ∀ {entry : ι × α}, claimed[popped.length]? = some entry →
        (claimed ++ [(i, value)])[popped.length]? = some entry := by
      intro entry claim
      rw [List.getElem?_append_left (List.getElem?_eq_some_iff.mp claim).1]
      exact claim
    have ok := inv.consumer
    change ConsumerOk capacity _ _ _ s.consumer
    cases point : s.consumer with
    | idle => trivial
    | loadSequence => trivial
    | moveAndDestroy =>
      rw [point] at ok
      obtain ⟨owner, entry, claim, slot⟩ := ok
      exact ⟨owner, entry, kept claim, slot⟩
    | recycle entry =>
      rw [point] at ok
      obtain ⟨owner, claim, slot⟩ := ok
      exact ⟨owner, kept claim, slot⟩
    | advance entry =>
      rw [point] at ok
      obtain ⟨owner, claim⟩ := ok
      exact ⟨owner, kept claim⟩

/-- The owner of the position `p` rewrites its slot, before the consumer can look at it. -/
theorem Invariant.ownerStep (inv : Invariant capacity s claimed recycled popped) {i : ι} {p : Nat}
    {value : α} (claim : claimed[p]? = some (i, value)) (recent : recycled ≤ p)
    (sequence : (s.slotAt capacity p).sequence = BitVec.ofNat 64 p)
    (only : ∀ pos, (s.producer i).InFlight pos → pos = BitVec.ofNat 64 p)
    (few : claimed.length < 2 ^ 63) (slot : Slot α) (point : Producer α)
    (ok : ProducerOk capacity ((s.setSlot capacity (BitVec.ofNat 64 p) slot).setProducer i point)
      claimed recycled i point)
    (alive : Live capacity ((s.setSlot capacity (BitVec.ofNat 64 p) slot).setProducer i point)
      popped.length p i value) :
    Invariant capacity ((s.setSlot capacity (BitVec.ofNat 64 p) slot).setProducer i point)
      claimed recycled popped := by
  have window := inv.window
  have bound := (List.getElem?_eq_some_iff.mp claim).1
  have frame : ∀ q, q ≠ p → recycled ≤ q → q < recycled + capacity.value →
      ((s.setSlot capacity (BitVec.ofNat 64 p) slot).setProducer i point).slotAt capacity q =
        s.slotAt capacity q := fun q different above below =>
    slotAt_setSlot_ne capacity s q slot different ⟨recent, by omega⟩ ⟨above, below⟩
  refine ⟨inv.head, inv.tail, inv.recycled_eq, inv.ordered, window, inv.fifo, ?_, ?_, ?_, ?_⟩
  · intro q above below
    rw [frame q (by omega) (by have := inv.ordered; omega) below]
    exact inv.unclaimed q above below
  · intro q owner entry later found
    by_cases same : q = p
    · subst same
      rw [claim, Option.some.injEq, Prod.mk.injEq] at found
      obtain ⟨rfl, rfl⟩ := found
      exact alive
    · have inside := (List.getElem?_eq_some_iff.mp found).1
      have kept := frame q same later (by omega)
      cases inv.live q owner entry later found with
      | inFlight before owned =>
        have different : owner ≠ i := by
          rintro rfl
          exact same (ofNat_injective (by omega) (by omega) (only _ owned))
        exact .inFlight (by rw [kept, before]) (by rwa [setProducer_ne _ different])
      | published before => exact .published (kept.trans before)
      | moved before last consumer => exact .moved (kept.trans before) last consumer
  · intro j
    by_cases same : j = i
    · subst same
      rw [setProducer_self]
      exact ok
    · rw [setProducer_ne _ same]
      have kept := ProducerOk.frame [] le_rfl (fun q entry later found _ => by
        have inside := (List.getElem?_eq_some_iff.mp found).1
        refine ⟨later, frame q ?_ later (by omega)⟩
        rintro rfl
        rw [claim, Option.some.injEq, Prod.mk.injEq] at found
        exact same found.1.symm) (inv.producers j)
      rwa [List.append_nil] at kept
  · have known := inv.recycled_eq
    have front : ∀ own : Slot α, s.slotAt capacity popped.length = own →
        own.sequence = BitVec.ofNat 64 (popped.length + 1) → s.consumer.ahead = 0 →
        ((s.setSlot capacity (BitVec.ofNat 64 p) slot).setProducer i point).slotAt capacity
          popped.length = own := by
      intro own before stamped behind
      rw [frame popped.length ?_ (by omega) (by omega), before]
      rintro rfl
      rw [before, stamped] at sequence
      exact ofNat_ne_succ _ sequence.symm
    have ok := inv.consumer
    change ConsumerOk capacity _ _ _ s.consumer
    cases stage : s.consumer with
    | idle => trivial
    | loadSequence => trivial
    | moveAndDestroy =>
      rw [stage] at ok
      obtain ⟨owner, entry, found, before⟩ := ok
      exact ⟨owner, entry, found, front _ before rfl (by rw [stage]; rfl)⟩
    | recycle entry =>
      rw [stage] at ok
      obtain ⟨owner, found, before⟩ := ok
      exact ⟨owner, found, front _ before rfl (by rw [stage]; rfl)⟩
    | advance entry =>
      rw [stage] at ok
      exact ok

theorem Invariant.construct (inv : Invariant capacity s claimed recycled popped) {i : ι}
    {value : α} {pos : Word} (point : s.producer i = .construct value pos)
    (few : claimed.length < 2 ^ 63) :
    Invariant capacity ((s.setSlot capacity pos { s.slot capacity pos with
      storage := some value }).setProducer i (.publish pos)) claimed recycled popped := by
  have ok := inv.producers i
  rw [point] at ok
  obtain ⟨p, rfl, recent, claim, slot⟩ := ok
  have slot' : s.slot capacity (BitVec.ofNat 64 p) = ⟨BitVec.ofNat 64 p, none⟩ := slot
  refine inv.ownerStep claim recent (by rw [slot]) ?_ few _ _ ?_ ?_
  · intro pos owned
    rw [point] at owned
    exact owned.symm
  · exact ⟨p, value, rfl, recent, claim, by simp [slot']⟩
  · exact .inFlight (by simp [slot']) (by rw [setProducer_self]; exact rfl)

theorem Invariant.publish (inv : Invariant capacity s claimed recycled popped) {i : ι}
    {pos : Word} (point : s.producer i = .publish pos) (few : claimed.length < 2 ^ 63) :
    Invariant capacity ((s.setSlot capacity pos { s.slot capacity pos with
      sequence := pos + 1 }).setProducer i .idle) claimed recycled popped := by
  have ok := inv.producers i
  rw [point] at ok
  obtain ⟨p, value, rfl, recent, claim, slot⟩ := ok
  have slot' : s.slot capacity (BitVec.ofNat 64 p) = ⟨BitVec.ofNat 64 p, some value⟩ := slot
  refine inv.ownerStep claim recent (by rw [slot]) ?_ few _ _ trivial ?_
  · intro pos owned
    rw [point] at owned
    exact owned.symm
  · exact .published (by simp [slot', BitVec.ofNat_add])

omit [DecidableEq ι] in
/-- The consumer starts a call, or finds its slot in the state the call expects. -/
theorem Invariant.moveConsumer (inv : Invariant capacity s claimed recycled popped)
    (point : Consumer α) (still : s.consumer.ahead = point.ahead)
    (reading : ∀ value, s.consumer ≠ .recycle value)
    (ok : ConsumerOk capacity s claimed popped.length point) :
    Invariant capacity (s.setConsumer point) claimed recycled popped where
  head := inv.head
  tail := inv.tail
  recycled_eq := inv.recycled_eq.trans (by rw [still]; rfl)
  ordered := inv.ordered
  window := inv.window
  fifo := inv.fifo
  unclaimed := inv.unclaimed
  live := by
    intro q owner value recent claim
    cases inv.live q owner value recent claim with
    | inFlight sequence owned => exact .inFlight sequence owned
    | published slot => exact .published slot
    | moved slot last consumer => exact absurd consumer (reading value)
  producers := by
    intro j
    have kept := ProducerOk.frame [] le_rfl (fun _ _ recent _ _ => ⟨recent, rfl⟩) (inv.producers j)
    rwa [List.append_nil] at kept
  consumer := by
    change ConsumerOk capacity _ _ _ point
    cases point <;> exact ok

omit [DecidableEq ι] in
/-- The consumer finds its slot published exactly when the position is. -/
theorem Invariant.ready (inv : Invariant capacity s claimed recycled popped)
    (point : s.consumer = .loadSequence)
    (stamped : (s.slotAt capacity popped.length).sequence = BitVec.ofNat 64 (popped.length + 1)) :
    ∃ owner value, claimed[popped.length]? = some (owner, value) ∧
      s.slotAt capacity popped.length = ⟨BitVec.ofNat 64 (popped.length + 1), some value⟩ := by
  have known := inv.recycled_eq
  have ordered := inv.ordered
  rw [point] at known
  simp only [Consumer.ahead] at known
  have positive := capacity.positive
  rcases Nat.lt_or_ge popped.length claimed.length with inside | outside
  · obtain ⟨⟨owner, value⟩, claim⟩ : ∃ entry, claimed[popped.length]? = some entry :=
      ⟨_, List.getElem?_eq_getElem inside⟩
    refine ⟨owner, value, claim, ?_⟩
    cases inv.live _ owner value (by omega) claim with
    | inFlight sequence _ => exact absurd (sequence.symm.trans stamped) (ofNat_ne_succ _)
    | published slot => exact slot
    | moved _ _ consumer => simp [point] at consumer
  · have empty := inv.unclaimed popped.length outside (by omega)
    rw [empty] at stamped
    exact absurd stamped (ofNat_ne_succ _)

omit [DecidableEq ι] in
/-- The consumer rewrites the slot of its position `popped.length`. -/
theorem Invariant.consumerFrame (inv : Invariant capacity s claimed recycled popped)
    (behind : recycled = popped.length)
    (stamped : (s.slotAt capacity popped.length).sequence = BitVec.ofNat 64 (popped.length + 1))
    (slot : Slot α) (point : Consumer α) :
    (∀ q, q ≠ popped.length → recycled ≤ q → q < recycled + capacity.value →
      ((s.setSlot capacity s.tail slot).setConsumer point).slotAt capacity q =
        s.slotAt capacity q) ∧
    (∀ j p value, recycled ≤ p → claimed[p]? = some (j, value) →
      (s.slotAt capacity p).sequence = BitVec.ofNat 64 p → recycled + 1 ≤ p ∧
      ((s.setSlot capacity s.tail slot).setConsumer point).slotAt capacity p =
        s.slotAt capacity p) := by
  have positive := capacity.positive
  have others : ∀ q, q ≠ popped.length → recycled ≤ q → q < recycled + capacity.value →
      ((s.setSlot capacity s.tail slot).setConsumer point).slotAt capacity q =
        s.slotAt capacity q := by
    intro q different above below
    rw [slotAt_setConsumer, inv.tail]
    exact slotAt_setSlot_ne capacity s q slot different ⟨behind.le, by omega⟩ ⟨above, below⟩
  refine ⟨others, ?_⟩
  intro j p value recent claim sequence
  have different : p ≠ popped.length := by
    rintro rfl
    rw [stamped] at sequence
    exact ofNat_ne_succ _ sequence.symm
  have inside := (List.getElem?_eq_some_iff.mp claim).1
  have window := inv.window
  exact ⟨by omega, others p different recent (by omega)⟩

omit [DecidableEq ι] in
theorem Invariant.take (inv : Invariant capacity s claimed recycled popped) {value : α}
    (point : s.consumer = .moveAndDestroy)
    (object : (s.slot capacity s.tail).storage = some value) :
    Invariant capacity ((s.setSlot capacity s.tail { s.slot capacity s.tail with
      storage := none }).setConsumer (.recycle value)) claimed recycled popped := by
  have known := inv.recycled_eq
  have ok := inv.consumer
  rw [point] at known ok
  simp only [Consumer.ahead, Nat.add_zero] at known
  obtain ⟨owner, entry, claim, slot⟩ := ok
  have slot' : s.slot capacity s.tail = ⟨BitVec.ofNat 64 (popped.length + 1), some entry⟩ := by
    rw [inv.tail]
    exact slot
  obtain rfl : entry = value := by
    rw [slot', Option.some.injEq] at object
    exact object
  obtain ⟨others, owned⟩ := inv.consumerFrame known (by rw [slot])
    { s.slot capacity s.tail with storage := none } (.recycle entry)
  have own : ((s.setSlot capacity s.tail { s.slot capacity s.tail with
      storage := none }).setConsumer (.recycle entry)).slotAt capacity popped.length =
      ⟨BitVec.ofNat 64 (popped.length + 1), none⟩ := by
    rw [slotAt_setConsumer, slot', inv.tail, slotAt_setSlot_self]
  refine ⟨inv.head, inv.tail, known, inv.ordered, inv.window, inv.fifo, ?_, ?_, ?_, ?_⟩
  · intro q above below
    have inside := (List.getElem?_eq_some_iff.mp claim).1
    rw [others q (by omega) (by omega) below]
    exact inv.unclaimed q above below
  · intro q other found recent lookup
    by_cases same : q = popped.length
    · subst same
      rw [claim, Option.some.injEq, Prod.mk.injEq] at lookup
      obtain ⟨rfl, rfl⟩ := lookup
      exact .moved own rfl rfl
    · have inside := (List.getElem?_eq_some_iff.mp lookup).1
      have kept := others q same recent (by have := inv.window; omega)
      cases inv.live q other found recent lookup with
      | inFlight sequence holder => exact .inFlight (by rw [kept, sequence]) holder
      | published before => exact .published (kept.trans before)
      | moved _ last _ => exact absurd last same
  · intro j
    have kept := ProducerOk.frame [] le_rfl (fun p entry recent found sequence =>
      ⟨recent, (owned j p entry recent found sequence).2⟩) (inv.producers j)
    rwa [List.append_nil] at kept
  · exact ⟨owner, claim, own⟩

omit [DecidableEq ι] in
theorem Invariant.recycle (inv : Invariant capacity s claimed recycled popped) {value : α}
    (point : s.consumer = .recycle value) :
    Invariant capacity ((s.setSlot capacity s.tail { s.slot capacity s.tail with
      sequence := s.tail + BitVec.ofNat 64 capacity.value }).setConsumer (.advance value)) claimed
      (recycled + 1) popped := by
  have known := inv.recycled_eq
  have ok := inv.consumer
  rw [point] at known ok
  simp only [Consumer.ahead, Nat.add_zero] at known
  obtain ⟨owner, claim, slot⟩ := ok
  have inside := (List.getElem?_eq_some_iff.mp claim).1
  have slot' : s.slot capacity s.tail = ⟨BitVec.ofNat 64 (popped.length + 1), none⟩ := by
    rw [inv.tail]
    exact slot
  obtain ⟨others, owned⟩ := inv.consumerFrame known (by rw [slot])
    { s.slot capacity s.tail with sequence := s.tail + BitVec.ofNat 64 capacity.value }
    (.advance value)
  refine ⟨inv.head, inv.tail, by simp [known, State.setConsumer, Consumer.ahead], by omega,
    by have := inv.window; omega, inv.fifo, ?_, ?_, ?_, ⟨owner, claim⟩⟩
  · intro q above below
    have window := inv.window
    by_cases lap : q = popped.length + capacity.value
    · subst lap
      rw [slotAt_lap, slotAt_setConsumer, slot', inv.tail, slotAt_setSlot_self]
      simp only [BitVec.ofNat_add]
    · rw [others q (by omega) (by omega) (by omega)]
      exact inv.unclaimed q above (by omega)
  · intro q other found recent lookup
    have bound := (List.getElem?_eq_some_iff.mp lookup).1
    have kept := others q (by omega) (by omega) (by have := inv.window; omega)
    cases inv.live q other found (by omega) lookup with
    | inFlight sequence holder => exact .inFlight (by rw [kept, sequence]) holder
    | published before => exact .published (kept.trans before)
    | moved _ last _ => omega
  · intro j
    have kept := ProducerOk.frame [] (Nat.le_succ _) (owned j) (inv.producers j)
    rwa [List.append_nil] at kept

omit [DecidableEq ι] in
theorem Invariant.advance (inv : Invariant capacity s claimed recycled popped) {value : α}
    (point : s.consumer = .advance value) :
    Invariant capacity ({ s with tail := s.tail + 1 }.setConsumer .idle) claimed recycled
      (popped ++ [value]) := by
  have known := inv.recycled_eq
  have ok := inv.consumer
  rw [point] at known ok
  simp only [Consumer.ahead] at known
  obtain ⟨owner, claim⟩ := ok
  refine ⟨inv.head, ?_, ?_, inv.ordered, inv.window, ?_, inv.unclaimed, ?_, ?_, trivial⟩
  · rw [List.length_append, List.length_singleton, BitVec.ofNat_add, ← inv.tail]
    rfl
  · simpa [State.setConsumer, Consumer.ahead] using known
  · rw [List.length_append, List.length_singleton, List.take_add_one, claim, List.map_append,
      ← inv.fifo]
    rfl
  · intro q other found recent lookup
    cases inv.live q other found recent lookup with
    | inFlight sequence holder => exact .inFlight sequence holder
    | published before => exact .published before
    | moved _ last _ => omega
  · intro j
    have kept := ProducerOk.frame [] le_rfl (fun _ _ recent _ _ => ⟨recent, rfl⟩) (inv.producers j)
    rwa [List.append_nil] at kept

omit [DecidableEq ι] in
/-- What a producer can read at the slot of a position up to the head: the stamp of the
position `q` of the current window that shares the slot. -/
theorem Invariant.stamp (inv : Invariant capacity s claimed recycled popped) (p : Nat) :
    ∃ q stamp, (s.slotAt capacity p).sequence = BitVec.ofNat 64 stamp ∧ recycled ≤ q ∧
      q < recycled + capacity.value ∧ q % capacity.value = p % capacity.value ∧
      (stamp = q ∨ stamp = q + 1 ∧ q < claimed.length) := by
  have positive := capacity.positive
  have reach : recycled ≤ p + capacity.value * recycled :=
    (Nat.le_mul_of_pos_left recycled positive).trans (Nat.le_add_left ..)
  obtain ⟨q, shape⟩ : ∃ q, q = recycled + (p + capacity.value * recycled - recycled) %
    capacity.value := ⟨_, rfl⟩
  have low : recycled ≤ q := by omega
  have high : q < recycled + capacity.value := by
    have := Nat.mod_lt (p + capacity.value * recycled - recycled) positive
    omega
  have lap : q % capacity.value = p % capacity.value := by
    rw [shape, Nat.add_mod_mod, Nat.add_sub_cancel' reach, Nat.add_mul_mod_self_left]
  have shared : s.slotAt capacity p = s.slotAt capacity q := by
    simp only [State.slotAt, State.slot, index_eq, lap]
  rw [shared]
  rcases Nat.lt_or_ge q claimed.length with inside | outside
  · obtain ⟨⟨owner, value⟩, claim⟩ : ∃ entry, claimed[q]? = some entry :=
      ⟨_, List.getElem?_eq_getElem inside⟩
    cases inv.live q owner value low claim with
    | inFlight sequence _ => exact ⟨q, q, sequence, low, high, lap, .inl rfl⟩
    | published slot => exact ⟨q, q + 1, by rw [slot], low, high, lap, .inr ⟨rfl, inside⟩⟩
    | moved slot _ _ => exact ⟨q, q + 1, by rw [slot], low, high, lap, .inr ⟨rfl, inside⟩⟩
  · exact ⟨q, q, by rw [inv.unclaimed q outside high], low, high, lap, .inl rfl⟩

theorem lap_cases {capacity : Capacity} {base p q : Nat} (bound : p ≤ base + capacity.value)
    (hq : base ≤ q ∧ q < base + capacity.value) (lap : q % capacity.value = p % capacity.value) :
    p < q ∨ p = q ∨ (p = base + capacity.value ∧ q = base) := by
  rcases Nat.lt_trichotomy p q with less | same | more
  · exact .inl less
  · exact .inr (.inl same)
  · have gap := (Nat.modEq_iff_dvd' more.le).mp lap
    have := Nat.le_of_dvd (by omega) gap
    exact .inr (.inr ⟨by omega, by omega⟩)

omit [DecidableEq ι] in
/-- A producer goes for the exchange only at a position whose slot is free. -/
theorem Invariant.room (inv : Invariant capacity s claimed recycled popped)
    (two : 2 ≤ capacity.value) (few : claimed.length < 2 ^ 63) {p : Nat}
    (bound : p ≤ claimed.length)
    (matching : signedDifference (s.slotAt capacity p).sequence (BitVec.ofNat 64 p) = 0) :
    p < recycled + capacity.value := by
  obtain ⟨q, stamp, sequence, low, high, lap, shape⟩ := inv.stamp p
  have half := capacity.half
  have window := inv.window
  have ordered := inv.ordered
  rw [sequence, signedDifference_eq_zero] at matching
  have same := ofNat_injective (by omega) (by omega) matching
  have := lap_cases (by omega) ⟨low, high⟩ lap
  omega

omit [DecidableEq ι] in
/-- A producer is refused only when the window is full, unless the sequence it read
is half the word size ahead of its position. -/
theorem Invariant.full (inv : Invariant capacity s claimed recycled popped) {p : Nat}
    (near : claimed.length + capacity.value ≤ 2 ^ 63) (bound : p ≤ claimed.length)
    (behind : signedDifference (s.slotAt capacity p).sequence (BitVec.ofNat 64 p) < 0) :
    claimed.length = recycled + capacity.value := by
  obtain ⟨q, stamp, sequence, low, high, lap, shape⟩ := inv.stamp p
  have window := inv.window
  have ordered := inv.ordered
  have positive := capacity.positive
  rw [sequence] at behind
  have cases := lap_cases (by omega) ⟨low, high⟩ lap
  by_cases ahead : p ≤ stamp
  · have := signedDifference_nonneg ahead (by omega)
    omega
  · omega

end Preservation

end LogMonitor.RingBuffer
