import LogMonitor.Library.Transition
import LogMonitor.Library.Table
import LogMonitor.TcpFraming

/-!
The table `connections_` of the TCP server, while the stop flag is unset: the
acceptor inserts a client under its descriptor's number, the client's handler
erases that key and closes the descriptor, and the system gives out again what
was closed. Everything else in the process opens and closes descriptors of its
own.
-/

namespace LogMonitor.ConnectionTracking
open Library Library.Transition Library.ByteString TcpFraming

inductive Phase where
  | accepted
  | inserted
  | queued
  /-- The pool was shut down and has thrown the task away; nobody closes the descriptor. -/
  | dropped
  | running
  | erased
  | closed
deriving DecidableEq

structure Client where
  fd : Nat
  phase : Phase
  info : ConnectionInfo

def Client.connId (client : Client) : Bytes := LogMonitor.connId client.fd

inductive Acceptor where
  | accepting
  | inserting (client : Nat)
  | enqueuing (client : Nat)
  /-- `accept` has thrown. -/
  | ended

/-- Clients are known by their number in the order of arrival, which stands for the pointer to
their `ConnectionInfo`. -/
structure State where
  /-- The descriptors that are open. -/
  opened : Nat → Bool
  /-- Those of them that something else has opened and will close. -/
  elsewhere : Nat → Bool
  clients : List Client
  connections : Table Bytes Nat
  acceptor : Acceptor

def initial (opened : Nat → Bool) : State where
  opened := opened
  elsewhere := opened
  clients := []
  connections := ∅
  acceptor := .accepting

def State.set (s : State) (i : Nat) (client : Client) : State :=
  { s with clients := s.clients.set i client }

inductive Label where
  | accepted (fd : Nat)
  | failed
  | inserted (client : Nat)
  | enqueued (client : Nat) (taken : Bool)
  | started (client : Nat)
  | heard (client : Nat) (entry : LogEntry)
  | erased (client : Nat)
  | closed (client : Nat)
  | openedElsewhere (fd : Nat)
  | closedElsewhere (fd : Nat)
deriving DecidableEq

inductive Step (s : State) : Label → State → Prop
  | accepted {fd : Nat} (waiting : s.acceptor = .accepting) (unused : s.opened fd = false) :
      Step s (.accepted fd) { s with
        opened := Function.update s.opened fd true
        clients := s.clients ++ [⟨fd, .accepted, .accepted (LogMonitor.connId fd)⟩]
        acceptor := .inserting s.clients.length }
  | failed (waiting : s.acceptor = .accepting) : Step s .failed { s with acceptor := .ended }
  | inserted {i : Nat} {client : Client} (position : s.acceptor = .inserting i)
      (known : s.clients[i]? = some client) :
      Step s (.inserted i) { s.set i { client with phase := .inserted } with
        connections := s.connections.insert client.connId i
        acceptor := .enqueuing i }
  | enqueued {i : Nat} {client : Client} {taken : Bool} (position : s.acceptor = .enqueuing i)
      (known : s.clients[i]? = some client) :
      Step s (.enqueued i taken)
        { s.set i { client with phase := if taken then .queued else .dropped } with
          acceptor := .accepting }
  | started {i : Nat} {client : Client} (known : s.clients[i]? = some client)
      (phase : client.phase = .queued) :
      Step s (.started i) (s.set i { client with phase := .running })
  | heard {i : Nat} {client : Client} {entry : LogEntry} (known : s.clients[i]? = some client)
      (phase : client.phase = .running) :
      Step s (.heard i entry) (s.set i { client with info := client.info.record entry })
  | erased {i : Nat} {client : Client} (known : s.clients[i]? = some client)
      (phase : client.phase = .running) :
      Step s (.erased i) { s.set i { client with phase := .erased } with
        connections := s.connections.erase client.connId }
  | closed {i : Nat} {client : Client} (known : s.clients[i]? = some client)
      (phase : client.phase = .erased) :
      Step s (.closed i) { s.set i { client with phase := .closed } with
        opened := Function.update s.opened client.fd false }
  | openedElsewhere {fd : Nat} (unused : s.opened fd = false) :
      Step s (.openedElsewhere fd) { s with
        opened := Function.update s.opened fd true
        elsewhere := Function.update s.elsewhere fd true }
  | closedElsewhere {fd : Nat} (used : s.elsewhere fd = true) :
      Step s (.closedElsewhere fd) { s with
        opened := Function.update s.opened fd false
        elsewhere := Function.update s.elsewhere fd false }

def State.activeConnections (s : State) : Nat := s.connections.keys.length

def report (info : ConnectionInfo) : Bytes × UInt64 :=
  (if info.serviceName = [] then info.remoteAddr else info.serviceName, info.linesReceived)

def State.getConnections (s : State) : List (Bytes × UInt64) :=
  s.connections.entries.filterMap fun entry =>
    s.clients[entry.2]?.map fun client => report client.info

def Phase.tracked : Phase → Bool
  | .inserted | .queued | .dropped | .running => true
  | .accepted | .erased | .closed => false

def Positions (acceptor : Acceptor) (clients : List Client) : Prop :=
  ∀ i, (acceptor = .inserting i →
      ∃ client, clients[i]? = some client ∧ client.phase = .accepted) ∧
    (acceptor = .enqueuing i → ∃ client, clients[i]? = some client ∧ client.phase = .inserted)

/-- A client has its descriptor to itself until it has closed it. -/
structure Descriptors (opened elsewhere : Nat → Bool) (clients : List Client) : Prop where
  others {fd : Nat} : elsewhere fd = true → opened fd = true
  mine {i : Nat} {client : Client} : clients[i]? = some client → client.phase ≠ .closed →
    opened client.fd = true ∧ elsewhere client.fd = false
  distinct {i j : Nat} {client other : Client} : clients[i]? = some client →
    clients[j]? = some other → client.phase ≠ .closed → other.phase ≠ .closed →
    client.fd = other.fd → i = j

def Exact (connections : Table Bytes Nat) (clients : List Client) : Prop :=
  ∀ key i, connections.lookup key = some i ↔
    ∃ client, clients[i]? = some client ∧ client.phase.tracked = true ∧ client.connId = key

theorem connId_inj {client other : Client} :
    client.connId = other.connId ↔ client.fd = other.fd := by
  constructor
  · intro same
    exact toDecimal_inj.mp (List.append_cancel_left same)
  · intro same
    rw [Client.connId, same, Client.connId]

theorem tracked_living {phase : Phase} (tracked : phase.tracked = true) :
    phase ≠ .closed := by
  rintro rfl
  exact nomatch tracked

section Set

variable {clients : List Client} {i : Nat} {client next : Client}

theorem getElem?_set (known : clients[i]? = some client) (j : Nat) :
    (clients.set i next)[j]? = if j = i then some next else clients[j]? := by
  have inside : i < clients.length := (List.getElem?_eq_some_iff.mp known).1
  by_cases same : j = i
  · rw [if_pos same, same, List.getElem?_set_self inside]
  · rw [if_neg same, List.getElem?_set_ne (Ne.symm same)]

theorem set_cases (known : clients[i]? = some client) {j : Nat} {other : Client}
    (there : (clients.set i next)[j]? = some other) :
    (j = i ∧ other = next) ∨ (j ≠ i ∧ clients[j]? = some other) := by
  rw [getElem?_set known] at there
  by_cases same : j = i
  · rw [if_pos same] at there
    exact .inl ⟨same, (Option.some.inj there).symm⟩
  · rw [if_neg same] at there
    exact .inr ⟨same, there⟩

theorem Positions.set {acceptor : Acceptor} (inv : Positions acceptor clients)
    (known : clients[i]? = some client) (handled : client.phase ≠ .accepted)
    (released : client.phase ≠ .inserted) : Positions acceptor (clients.set i next) := by
  have other {j : Nat} {phase : Phase} (different : client.phase ≠ phase)
      (there : ∃ held, clients[j]? = some held ∧ held.phase = phase) :
      ∃ held, (clients.set i next)[j]? = some held ∧ held.phase = phase := by
    obtain ⟨held, at_j, here⟩ := there
    refine ⟨held, ?_, here⟩
    rw [getElem?_set known, if_neg, at_j]
    rintro rfl
    rw [known] at at_j
    exact different (Option.some.inj at_j ▸ here)
  exact fun j => ⟨fun position => other handled ((inv j).1 position),
    fun position => other released ((inv j).2 position)⟩

theorem Descriptors.set {opened elsewhere : Nat → Bool} (inv : Descriptors opened elsewhere clients)
    (known : clients[i]? = some client) (same : next.fd = client.fd)
    (living : client.phase ≠ .closed) : Descriptors opened elsewhere (clients.set i next) where
  others := inv.others
  mine there used := by
    rcases set_cases known there with ⟨rfl, rfl⟩ | ⟨-, before⟩
    · rw [same]
      exact inv.mine known living
    · exact inv.mine before used
  distinct first second used usedToo fds := by
    rcases set_cases known first with ⟨rfl, rfl⟩ | ⟨-, before⟩ <;>
      rcases set_cases known second with ⟨rfl, rfl⟩ | ⟨-, beforeToo⟩
    · rfl
    · exact inv.distinct known beforeToo living usedToo (same.symm.trans fds)
    · exact inv.distinct before known used living (fds.trans same)
    · exact inv.distinct before beforeToo used usedToo fds

theorem Exact.set {connections : Table Bytes Nat} (inv : Exact connections clients)
    (known : clients[i]? = some client) (same : next.fd = client.fd)
    (phase : next.phase.tracked = client.phase.tracked) :
    Exact connections (clients.set i next) := by
  intro key j
  rw [inv key j, getElem?_set known]
  by_cases here : j = i
  · subst here
    simp only [known, if_true, Option.some.injEq, exists_eq_left', phase, connId_inj.mpr same]
  · rw [if_neg here]

theorem Exact.other {connections : Table Bytes Nat} (inv : Exact connections clients)
    (known : clients[i]? = some client) {key : Bytes} (apart : key ≠ client.connId)
    (same : next.fd = client.fd) (j : Nat) :
    connections.lookup key = some j ↔ ∃ other, (clients.set i next)[j]? = some other ∧
      other.phase.tracked = true ∧ other.connId = key := by
  rw [inv key j, getElem?_set known]
  by_cases here : j = i
  · subst here
    simp only [known, if_true, Option.some.injEq, exists_eq_left', connId_inj.mpr same,
      Ne.symm apart, and_false]
  · rw [if_neg here]

end Set

theorem positions_step {s next : State} {label : Label} (inv : Positions s.acceptor s.clients)
    (step : Step s label next) : Positions next.acceptor next.clients := by
  have idle {acceptor : Acceptor} {clients : List Client} (hands : ∀ i,
      acceptor ≠ .inserting i ∧ acceptor ≠ .enqueuing i) : Positions acceptor clients :=
    fun i => ⟨fun position => absurd position (hands i).1,
      fun position => absurd position (hands i).2⟩
  cases step with
  | @accepted fd waiting unused =>
    intro i
    refine ⟨fun position => ?_, nofun⟩
    obtain rfl := Acceptor.inserting.inj position
    exact ⟨_, List.getElem?_concat_length, rfl⟩
  | failed => exact idle fun _ => ⟨nofun, nofun⟩
  | @inserted i client position known =>
    intro j
    refine ⟨nofun, fun position => ?_⟩
    obtain rfl := Acceptor.enqueuing.inj position
    exact ⟨_, (getElem?_set known _).trans (if_pos rfl), rfl⟩
  | enqueued => exact idle fun _ => ⟨nofun, nofun⟩
  | started known phase => exact inv.set known (by rw [phase]; nofun) (by rw [phase]; nofun)
  | heard known phase => exact inv.set known (by rw [phase]; nofun) (by rw [phase]; nofun)
  | erased known phase => exact inv.set known (by rw [phase]; nofun) (by rw [phase]; nofun)
  | closed known phase => exact inv.set known (by rw [phase]; nofun) (by rw [phase]; nofun)
  | openedElsewhere => exact inv
  | closedElsewhere => exact inv

theorem concat_cases {clients : List Client} {client other : Client} {j : Nat}
    (there : (clients ++ [client])[j]? = some other) :
    (j = clients.length ∧ other = client) ∨ clients[j]? = some other := by
  rcases Nat.lt_trichotomy j clients.length with before | here | behind
  · rw [List.getElem?_append_left before] at there
    exact .inr there
  · subst here
    rw [List.getElem?_concat_length] at there
    exact .inl ⟨rfl, (Option.some.inj there).symm⟩
  · rw [List.getElem?_eq_none (by simp; omega)] at there
    cases there

theorem Descriptors.accept {opened elsewhere : Nat → Bool} {clients : List Client}
    (inv : Descriptors opened elsewhere clients) (client : Client)
    (unused : opened client.fd = false) :
    Descriptors (Function.update opened client.fd true) elsewhere (clients ++ [client]) := by
  have apart {fd : Nat} (used : opened fd = true) : fd ≠ client.fd := by
    rintro rfl
    rw [used] at unused
    exact nomatch unused
  refine ⟨fun used => ?_, fun there living => ?_, fun first second living livingToo same => ?_⟩
  · rw [Function.update_of_ne (apart (inv.others used))]
    exact inv.others used
  · rcases concat_cases there with ⟨-, rfl⟩ | before
    · refine ⟨Function.update_self .., ?_⟩
      by_contra used
      exact apart (inv.others (Bool.not_eq_false _ ▸ used)) rfl
    · obtain ⟨used, own⟩ := inv.mine before living
      rw [Function.update_of_ne (apart used)]
      exact ⟨used, own⟩
  · rcases concat_cases first with ⟨rfl, rfl⟩ | before <;>
      rcases concat_cases second with ⟨rfl, rfl⟩ | beforeToo
    · rfl
    · exact absurd same.symm (apart (inv.mine beforeToo livingToo).1)
    · exact absurd same (apart (inv.mine before living).1)
    · exact inv.distinct before beforeToo living livingToo same

theorem Descriptors.close {opened elsewhere : Nat → Bool} {clients : List Client}
    (inv : Descriptors opened elsewhere clients) {i : Nat} {client : Client}
    (known : clients[i]? = some client) (living : client.phase ≠ .closed) :
    Descriptors (Function.update opened client.fd false) elsewhere
      (clients.set i { client with phase := .closed }) := by
  refine ⟨fun {fd} used => ?_, fun there used => ?_, fun first second used usedToo same => ?_⟩
  · have apart : fd ≠ client.fd := by
      rintro rfl
      rw [(inv.mine known living).2] at used
      exact nomatch used
    rw [Function.update_of_ne apart]
    exact inv.others used
  · rcases set_cases known there with ⟨rfl, rfl⟩ | ⟨other, before⟩
    · exact absurd rfl used
    · have apart := fun same => other (inv.distinct before known used living same)
      rw [Function.update_of_ne apart]
      exact inv.mine before used
  · rcases set_cases known first with ⟨rfl, rfl⟩ | ⟨-, before⟩
    · exact absurd rfl used
    rcases set_cases known second with ⟨rfl, rfl⟩ | ⟨-, beforeToo⟩
    · exact absurd rfl usedToo
    exact inv.distinct before beforeToo used usedToo same

/-- Something else opens or closes a descriptor that no client has. -/
theorem Descriptors.elsewhere {opened elsewhere : Nat → Bool} {clients : List Client}
    (inv : Descriptors opened elsewhere clients) {fd : Nat} {value : Bool}
    (free : ∀ {i : Nat} {client : Client}, clients[i]? = some client → client.phase ≠ .closed →
      client.fd ≠ fd) :
    Descriptors (Function.update opened fd value) (Function.update elsewhere fd value) clients := by
  refine ⟨fun {other} used => ?_, fun there living => ?_, inv.distinct⟩
  · by_cases same : other = fd
    · subst same
      rw [Function.update_self] at used ⊢
      exact used
    · rw [Function.update_of_ne same] at used ⊢
      exact inv.others used
  · rw [Function.update_of_ne (free there living), Function.update_of_ne (free there living)]
    exact inv.mine there living

theorem descriptors_step {s next : State} {label : Label}
    (positions : Positions s.acceptor s.clients)
    (inv : Descriptors s.opened s.elsewhere s.clients) (step : Step s label next) :
    Descriptors next.opened next.elsewhere next.clients := by
  cases step with
  | @accepted fd waiting unused =>
    exact inv.accept ⟨fd, .accepted, .accepted (LogMonitor.connId fd)⟩ unused
  | failed => exact inv
  | @inserted i client position known =>
    obtain ⟨held, there, phase⟩ := (positions i).1 position
    obtain rfl := Option.some.inj (known.symm.trans there)
    exact inv.set known rfl (by rw [phase]; nofun)
  | @enqueued i client taken position known =>
    obtain ⟨held, there, phase⟩ := (positions i).2 position
    obtain rfl := Option.some.inj (known.symm.trans there)
    exact inv.set known rfl (by rw [phase]; nofun)
  | started known phase => exact inv.set known rfl (by rw [phase]; nofun)
  | heard known phase => exact inv.set known rfl (by rw [phase]; nofun)
  | erased known phase => exact inv.set known rfl (by rw [phase]; nofun)
  | closed known phase => exact inv.close known (by rw [phase]; nofun)
  | openedElsewhere unused =>
    refine inv.elsewhere fun there living same => ?_
    rw [← same, (inv.mine there living).1] at unused
    exact nomatch unused
  | closedElsewhere used =>
    refine inv.elsewhere fun there living same => ?_
    rw [← same, (inv.mine there living).2] at used
    exact nomatch used

/-- No two clients that still have a descriptor have the same key. -/
theorem Descriptors.keys {opened elsewhere : Nat → Bool} {clients : List Client}
    (inv : Descriptors opened elsewhere clients) {i j : Nat} {client other : Client}
    (known : clients[i]? = some client) (there : clients[j]? = some other)
    (living : client.phase ≠ .closed) (tracked : other.phase.tracked = true)
    (same : other.connId = client.connId) : j = i :=
  inv.distinct there known (tracked_living tracked) living (connId_inj.mp same)

section Table

variable {connections : Table Bytes Nat} {clients : List Client} {i : Nat} {client next : Client}

/-- A client that was not tracked enters under a key that no other tracked client has. -/
theorem Exact.insert (inv : Exact connections clients) (known : clients[i]? = some client)
    (same : next.fd = client.fd) (tracked : next.phase.tracked = true)
    (unique : ∀ j other, clients[j]? = some other → other.phase.tracked = true →
      other.connId = client.connId → j = i) :
    Exact (connections.insert client.connId i) (clients.set i next) := by
  intro key j
  by_cases own : key = client.connId
  · subst own
    rw [AList.lookup_insert, Option.some.injEq]
    constructor
    · rintro rfl
      exact ⟨next, (getElem?_set known _).trans (if_pos rfl), tracked, connId_inj.mpr same⟩
    · rintro ⟨other, there, held, key⟩
      rcases set_cases known there with ⟨rfl, -⟩ | ⟨-, before⟩
      · rfl
      · exact (unique j other before held key).symm
  · rw [AList.lookup_insert_ne own]
    exact inv.other known own same j

theorem Exact.erase (inv : Exact connections clients) (known : clients[i]? = some client)
    (same : next.fd = client.fd) (untracked : next.phase.tracked = false)
    (unique : ∀ j other, clients[j]? = some other → other.phase.tracked = true →
      other.connId = client.connId → j = i) :
    Exact (connections.erase client.connId) (clients.set i next) := by
  intro key j
  by_cases own : key = client.connId
  · subst own
    rw [AList.lookup_erase]
    refine ⟨nofun, ?_⟩
    rintro ⟨other, there, tracked, key⟩
    rcases set_cases known there with ⟨-, rfl⟩ | ⟨apart, before⟩
    · rw [untracked] at tracked
      exact nomatch tracked
    · exact absurd (unique j other before tracked key) apart
  · rw [AList.lookup_erase_ne own]
    exact inv.other known own same j

theorem Exact.concat (inv : Exact connections clients) (untracked : next.phase.tracked = false) :
    Exact connections (clients ++ [next]) := by
  intro key j
  rw [inv key j]
  constructor
  · rintro ⟨client, there, tracked⟩
    refine ⟨client, ?_, tracked⟩
    rw [List.getElem?_append_left (List.getElem?_eq_some_iff.mp there).1, there]
  · rintro ⟨client, there, tracked, same⟩
    rcases concat_cases there with ⟨-, rfl⟩ | before
    · rw [untracked] at tracked
      exact nomatch tracked
    · exact ⟨client, before, tracked, same⟩

end Table

theorem exact_step {s next : State} {label : Label} (positions : Positions s.acceptor s.clients)
    (descriptors : Descriptors s.opened s.elsewhere s.clients)
    (inv : Exact s.connections s.clients) (step : Step s label next) :
    Exact next.connections next.clients := by
  have unique {i : Nat} {client : Client} (known : s.clients[i]? = some client)
      (living : client.phase ≠ .closed) (j : Nat) (other : Client) :
      s.clients[j]? = some other → other.phase.tracked = true →
        other.connId = client.connId → j = i :=
    fun there tracked same => descriptors.keys known there living tracked same
  cases step with
  | accepted => exact inv.concat rfl
  | failed => exact inv
  | @inserted i client position known =>
    obtain ⟨held, there, phase⟩ := (positions i).1 position
    obtain rfl := Option.some.inj (known.symm.trans there)
    exact inv.insert known rfl rfl (unique known (by rw [phase]; nofun))
  | @enqueued i client taken position known =>
    obtain ⟨held, there, phase⟩ := (positions i).2 position
    obtain rfl := Option.some.inj (known.symm.trans there)
    exact inv.set known rfl (by cases taken <;> rw [phase] <;> rfl)
  | started known phase => exact inv.set known rfl (by rw [phase]; rfl)
  | heard known phase => exact inv.set known rfl rfl
  | @erased i client known phase =>
    exact inv.erase known rfl rfl (unique known (by rw [phase]; nofun))
  | closed known phase => exact inv.set known rfl (by rw [phase]; rfl)
  | openedElsewhere => exact inv
  | closedElsewhere => exact inv

structure Tracking (s : State) : Prop where
  positions : Positions s.acceptor s.clients
  descriptors : Descriptors s.opened s.elsewhere s.clients
  exact : Exact s.connections s.clients

theorem tracking_run {opened : Nat → Bool} {labels : List Label} {s : State}
    (run : Run Step (initial opened) labels s) : Tracking s := by
  refine Run.invariant (fun _ s => Tracking s) ⟨?_, ?_, ?_⟩ ?_ run
  · exact fun _ => ⟨nofun, nofun⟩
  · exact ⟨id, fun there => absurd there (by simp [initial]),
      fun there => absurd there (by simp [initial])⟩
  · exact fun key i => ⟨nofun, fun ⟨_, there, _⟩ => absurd there (by simp [initial])⟩
  · exact fun _ _ _ _ _ inv step => ⟨positions_step inv.positions step,
      descriptors_step inv.positions inv.descriptors step,
      exact_step inv.positions inv.descriptors inv.exact step⟩

def Marked (labels : List Label) (i : Nat) (place : Option Client) : Prop :=
  (.inserted i ∈ labels ↔ ∃ client, place = some client ∧ client.phase ≠ .accepted) ∧
  (.erased i ∈ labels ↔
    ∃ client, place = some client ∧ (client.phase = .erased ∨ client.phase = .closed))

theorem Marked.move {labels : List Label} {clients : List Client} {i j : Nat}
    {client next : Client} {label : Label} (inv : Marked labels i clients[i]?)
    (known : clients[j]? = some client)
    (elsewhere : i ≠ j → label ≠ .inserted i ∧ label ≠ .erased i)
    (inserted : next.phase ≠ .accepted ↔ client.phase ≠ .accepted ∨ label = .inserted j)
    (erased : next.phase = .erased ∨ next.phase = .closed ↔
      (client.phase = .erased ∨ client.phase = .closed) ∨ label = .erased j) :
    Marked (labels ++ [label]) i (clients.set j next)[i]? := by
  rw [getElem?_set known]
  by_cases same : i = j
  · subst same
    rw [known] at inv
    constructor
    · simp only [List.mem_append, inv.1, List.mem_singleton, if_true, Option.some.injEq,
        exists_eq_left', inserted, @eq_comm _ (Label.inserted i)]
    · simp only [List.mem_append, inv.2, List.mem_singleton, if_true, Option.some.injEq,
        exists_eq_left', erased, @eq_comm _ (Label.erased i)]
  · obtain ⟨notInserted, notErased⟩ := elsewhere same
    rw [if_neg same]
    constructor
    · simp only [List.mem_append, inv.1, List.mem_singleton, Ne.symm notInserted, or_false]
    · simp only [List.mem_append, inv.2, List.mem_singleton, Ne.symm notErased, or_false]

theorem marked_run {opened : Nat → Bool} {labels : List Label} {s : State}
    (run : Run Step (initial opened) labels s) (i : Nat) : Marked labels i s.clients[i]? := by
  refine Run.invariant (fun labels s => Marked labels i s.clients[i]?) ?_ ?_ run
  · simp [Marked, initial]
  intro labels current label next run inv step
  have positions := (tracking_run run).positions
  cases step with
  | @accepted fd waiting unused =>
    change Marked _ i (current.clients ++ [_])[i]?
    by_cases old : i < current.clients.length
    · rw [List.getElem?_append_left old]
      simpa [Marked] using inv
    · rw [List.getElem?_eq_none (Nat.le_of_not_lt old)] at inv
      have unknown : .inserted i ∉ labels ∧ .erased i ∉ labels := by simpa [Marked] using inv
      have arrived {client : Client} (there : (current.clients ++
          [⟨fd, .accepted, .accepted (LogMonitor.connId fd)⟩])[i]? = some client) :
          client.phase = .accepted := by
        rcases concat_cases there with ⟨-, rfl⟩ | before
        · rfl
        · exact absurd (List.getElem?_eq_some_iff.mp before).1 old
      refine ⟨⟨fun listed => by simp [unknown.1] at listed, ?_⟩,
        ⟨fun listed => by simp [unknown.2] at listed, ?_⟩⟩
      · rintro ⟨client, there, moved⟩
        exact absurd (arrived there) moved
      · rintro ⟨client, there, moved⟩
        rw [arrived there] at moved
        simp at moved
  | failed => simpa [Marked] using inv
  | @inserted j client position known =>
    obtain ⟨held, there, phase⟩ := (positions j).1 position
    obtain rfl := Option.some.inj (known.symm.trans there)
    exact inv.move known (fun other => by simp [Ne.symm other]) (by simp) (by simp [phase])
  | @enqueued j client taken position known =>
    obtain ⟨held, there, phase⟩ := (positions j).2 position
    obtain rfl := Option.some.inj (known.symm.trans there)
    cases taken <;> exact inv.move known (by simp) (by simp [phase]) (by simp [phase])
  | started known phase =>
    exact inv.move known (by simp) (by simp [phase]) (by simp [phase])
  | heard known phase =>
    exact inv.move known (by simp) (by simp) (by simp)
  | erased known phase =>
    exact inv.move known (fun other => by simp [Ne.symm other]) (by simp [phase]) (by simp)
  | closed known phase =>
    exact inv.move known (by simp) (by simp [phase]) (by simp [phase])
  | openedElsewhere => simpa [Marked] using inv
  | closedElsewhere => simpa [Marked] using inv

/-- A tracked client is one that was inserted and not yet erased. -/
theorem tracked_run {opened : Nat → Bool} {labels : List Label} {s : State}
    (run : Run Step (initial opened) labels s) (i : Nat) :
    (∃ client, s.clients[i]? = some client ∧ client.phase.tracked = true) ↔
      .inserted i ∈ labels ∧ .erased i ∉ labels := by
  obtain ⟨inserted, erased⟩ := marked_run run i
  rw [inserted, erased]
  cases s.clients[i]? with
  | none => simp
  | some client => cases phase : client.phase <;> simp [phase, Phase.tracked]

def State.tracked (s : State) : List Nat :=
  (List.range s.clients.length).filter fun i => s.clients[i]?.any (·.phase.tracked)

theorem entries_perm {s : State} (inv : Exact s.connections s.clients) :
    (s.connections.entries.map Sigma.snd).Perm s.tracked := by
  have entry (key : Bytes) (i : Nat) : ⟨key, i⟩ ∈ s.connections.entries ↔
      ∃ client, s.clients[i]? = some client ∧ client.phase.tracked = true ∧ client.connId = key :=
    AList.mem_lookup_iff.symm.trans (inv key i)
  refine (List.perm_ext_iff_of_nodup ?_ ?_).mpr fun i => ?_
  · refine (List.NodupKeys.nodup s.connections.nodupKeys).map_on ?_
    rintro ⟨key, i⟩ first ⟨other, j⟩ second (rfl : i = j)
    obtain ⟨client, there, -, rfl⟩ := (entry key i).mp first
    obtain ⟨same, again, -, rfl⟩ := (entry other i).mp second
    rw [Option.some.inj (there.symm.trans again)]
  · exact List.nodup_range.filter _
  · rw [State.tracked, List.mem_filter, List.mem_range, Option.any_eq_true, List.mem_map]
    constructor
    · rintro ⟨⟨key, _⟩, listed, rfl⟩
      obtain ⟨client, there, tracked, -⟩ := (entry key _).mp listed
      exact ⟨(List.getElem?_eq_some_iff.mp there).1, client, there, tracked⟩
    · rintro ⟨-, client, there, tracked⟩
      exact ⟨⟨client.connId, i⟩, (entry _ i).mpr ⟨client, there, tracked, rfl⟩, rfl⟩

theorem activeConnections_run {opened : Nat → Bool} {labels : List Label} {s : State}
    (run : Run Step (initial opened) labels s) : s.activeConnections = s.tracked.length := by
  have entries := (entries_perm (tracking_run run).exact).length_eq
  rw [List.length_map] at entries
  exact (List.length_map _).trans entries

theorem getConnections_run {opened : Nat → Bool} {labels : List Label} {s : State}
    (run : Run Step (initial opened) labels s) :
    s.getConnections.Perm
      (s.tracked.filterMap fun i => s.clients[i]?.map fun client => report client.info) := by
  have entries := (entries_perm (tracking_run run).exact).filterMap fun i =>
    s.clients[i]?.map fun client => report client.info
  rwa [List.filterMap_map] at entries

/-- At every moment the table has exactly the clients that were inserted and whose handler has not
yet erased its key, each under its own key; an insertion replaces nothing, and a handler erases
nothing but its own entry. -/
theorem connections_exact {opened : Nat → Bool} {labels : List Label} {s : State}
    (run : Run Step (initial opened) labels s) :
    (∀ key i, s.connections.lookup key = some i ↔
      (.inserted i ∈ labels ∧ .erased i ∉ labels) ∧
        ∃ client, s.clients[i]? = some client ∧ client.connId = key) ∧
    (∀ i next, Step s (.inserted i) next → ∀ key j, s.connections.lookup key = some j →
      next.connections.lookup key = some j) ∧
    (∀ i next, Step s (.erased i) next → ∀ key j, j ≠ i → s.connections.lookup key = some j →
      next.connections.lookup key = some j) := by
  obtain ⟨positions, descriptors, exact⟩ := tracking_run run
  refine ⟨fun key i => ?_, fun i next step key j listed => ?_,
    fun i next step key j other listed => ?_⟩
  · rw [exact key i, ← tracked_run run i]
    constructor
    · rintro ⟨client, there, tracked, own⟩
      exact ⟨⟨client, there, tracked⟩, client, there, own⟩
    · rintro ⟨⟨client, there, tracked⟩, same, again, own⟩
      obtain rfl := Option.some.inj (there.symm.trans again)
      exact ⟨client, there, tracked, own⟩
  · cases step with
    | @inserted i client position known =>
      obtain ⟨held, there, phase⟩ := (positions i).1 position
      obtain rfl := Option.some.inj (known.symm.trans there)
      obtain ⟨other, before, tracked, own⟩ := (exact key j).mp listed
      have apart : key ≠ client.connId := by
        rintro rfl
        obtain rfl := descriptors.keys known before (by rw [phase]; nofun) tracked own
        rw [← Option.some.inj (known.symm.trans before), phase] at tracked
        exact nomatch tracked
      exact (AList.lookup_insert_ne apart).trans listed
  · cases step with
    | @erased i client known phase =>
      obtain ⟨held, there, tracked, own⟩ := (exact key j).mp listed
      have apart : key ≠ client.connId := by
        rintro rfl
        exact other (descriptors.keys known there (by rw [phase]; nofun) tracked own)
      exact (AList.lookup_erase_ne apart).trans listed

/-- A client leaves, and the next one is given its descriptor. -/
theorem connections_exact_reused : ∃ labels s, Run Step (initial fun _ => false) labels s ∧
    s.connections.lookup (LogMonitor.connId 4) = some 1 := by
  have arrived := (Run.single (@Step.accepted (initial fun _ => false) 4 rfl rfl)).snoc
    (Step.inserted rfl rfl)
  have running := (arrived.snoc (@Step.enqueued _ _ _ true rfl rfl)).snoc
    (@Step.started _ 0 _ rfl rfl)
  have left := (running.snoc (@Step.erased _ 0 _ rfl rfl)).snoc (@Step.closed _ 0 _ rfl rfl)
  have again := (left.snoc (@Step.accepted _ 4 rfl rfl)).snoc (Step.inserted rfl rfl)
  exact ⟨_, _, again, ((connections_exact again).1 _ 1).mpr ⟨by decide, _, rfl, rfl⟩⟩

end LogMonitor.ConnectionTracking
