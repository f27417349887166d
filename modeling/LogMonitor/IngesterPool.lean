import LogMonitor.NetworkIngester
import LogMonitor.TcpFraming
import LogMonitor.ThreadPoolJobs

/-!
The workers that the TCP and the HTTP clients of the network ingester share. A
handler waits for its client's bytes without a time limit. The pipeline makes room
in the ring buffer, and responses fit into the buffers of the sockets.
-/

namespace LogMonitor.IngesterPool
open Library.ByteString Library.Transition ThreadPool NetworkIngester TcpFraming HttpParser

inductive Protocol where
  | tcp
  | http

inductive Handler where
  /-- `handle_tcp_client`, before it looks at the stop flag. -/
  | check
  /-- In `recv_line`, which has taken these bytes. -/
  | line (taken : Bytes)
  /-- `handle_http_client`, with so many rounds of its loop left. -/
  | request (rounds : Nat) (rawRequest : Bytes)
  | finished
  /-- With an exception. -/
  | threw
deriving DecidableEq

structure Session where
  handler : Handler
  /-- What has arrived and was not received. -/
  incoming : Bytes
  /-- The client has closed its side. -/
  closed : Bool

def Protocol.fresh : Protocol → Session
  | .tcp => ⟨.check, [], false⟩
  | .http => ⟨.request 100 [], [], false⟩

/-- What follows a line: an empty one is taken for the end. -/
def lineRead (line : Bytes) : Handler := if trimCr line = [] then .finished else .check

def chunkRead (rounds : Nat) (rawRequest : Bytes) : Handler :=
  match requestComplete rawRequest with
  | .ok true => .finished
  | .ok false => .request rounds rawRequest
  | .error _ => .threw

/-- What a handler does by itself; without bytes it waits in `recv`. -/
def Session.advance (stopFlag : Bool) (session : Session) : Option Session :=
  match session.handler with
  | .check => some { session with handler := if stopFlag then .finished else .line [] }
  | .line taken =>
    match session.incoming with
    | [] => if session.closed then some { session with handler := lineRead taken } else none
    | ch :: rest => some { session with
        handler := if ch = 10 then lineRead taken
          else if taken.length + 1 = maxLen then lineRead (taken ++ [ch])
          else .line (taken ++ [ch])
        incoming := rest }
  | .request 0 _ => some { session with handler := .finished }
  | .request (rounds + 1) rawRequest =>
    match session.incoming with
    | [] => if session.closed then some { session with handler := .finished } else none
    | ch :: rest => some { session with
        handler := chunkRead rounds (rawRequest ++ (ch :: rest).take 4096)
        incoming := (ch :: rest).drop 4096 }
  | .finished => none
  | .threw => none

def Handler.weight : Handler → Nat
  | .check => 2
  | .line taken => if taken = [] then 1 else 3
  | .request _ _ => 1
  | .finished => 0
  | .threw => 0

theorem lineRead_weight (line : Bytes) : (lineRead line).weight ≤ 2 := by
  unfold lineRead
  split
  · exact Nat.zero_le 2
  · exact Nat.le_refl 2

theorem chunkRead_weight (rounds : Nat) (rawRequest : Bytes) :
    (chunkRead rounds rawRequest).weight ≤ 1 := by
  unfold chunkRead
  split
  · exact Nat.zero_le 1
  · exact Nat.le_refl 1
  · exact Nat.zero_le 1

/-- A step takes bytes, or brings the handler nearer to where it waits. -/
theorem advance_less {stopFlag : Bool} {session next : Session}
    (step : session.advance stopFlag = some next) :
    4 * next.incoming.length + next.handler.weight <
      4 * session.incoming.length + session.handler.weight := by
  obtain ⟨handler, incoming, closed⟩ := session
  cases handler with
  | check =>
    obtain rfl := Option.some.inj step
    cases stopFlag <;> simp [Handler.weight]
  | line taken =>
    cases incoming with
    | nil =>
      cases closed with
      | false => cases step
      | true =>
        obtain rfl := Option.some.inj step
        by_cases none : taken = []
        · subst none
          simp [lineRead, trimCr, Handler.weight]
        · have weight := lineRead_weight taken
          have here : (Handler.line taken).weight = 3 := if_neg none
          rw [here]
          simp only [List.length_nil]
          omega
    | cons ch rest =>
      obtain rfl := Option.some.inj step
      have plain := lineRead_weight taken
      have full := lineRead_weight (taken ++ [ch])
      have more : (Handler.line (taken ++ [ch])).weight = 3 := by simp [Handler.weight]
      simp only [List.length_cons]
      split_ifs <;> omega
  | request rounds rawRequest =>
    cases rounds with
    | zero =>
      obtain rfl := Option.some.inj step
      exact Nat.lt_succ_self _
    | succ rounds =>
      cases incoming with
      | nil =>
        cases closed with
        | false => cases step
        | true =>
          obtain rfl := Option.some.inj step
          exact Nat.lt_succ_self _
      | cons ch rest =>
        obtain rfl := Option.some.inj step
        have weight := chunkRead_weight rounds (rawRequest ++ (ch :: rest).take 4096)
        have here : (Handler.request (rounds + 1) rawRequest).weight = 1 := rfl
        rw [here]
        simp only [List.length_drop, List.length_cons]
        omega
  | finished => cases step
  | threw => cases step

def jobs (stopFlag : Bool) : Jobs Session where
  advance := Session.advance stopFlag
  done session := session.handler = .finished
  fatal session := session.handler = .threw
  left session := 4 * session.incoming.length + session.handler.weight
  less := advance_less
  ended {session} done := by
    have finished : session.handler = .finished := of_decide_eq_true done
    unfold Session.advance
    rw [finished]

/-- `pool_(std::min(max_connections, std::size_t(8)))`. -/
def poolSize (hardware maxConnections : Nat) : Nat := threadCount hardware (min maxConnections 8)

theorem poolSize_pos (hardware maxConnections : Nat) : 0 < poolSize hardware maxConnections :=
  threadCount_pos hardware (min maxConnections 8)

variable {n : Nat}

structure State (n : Nat) where
  /-- The pool, with the sessions of the clients by their tickets. -/
  work : Work Session Protocol n
  stopFlag : Bool

def initial (n : Nat) : State n where
  work := ⟨ThreadPool.initial Protocol n, fun _ => Protocol.tcp.fresh, true⟩
  stopFlag := false

def State.accept (s : State n) (protocol : Protocol) : State n :=
  { s with work :=
    { s.work with
      pool := (s.work.pool.offer .enqueue protocol).2
      sessions := Function.update s.work.sessions s.work.pool.tickets protocol.fresh } }

def State.touch (s : State n) (ticket : Nat) (session : Session) : State n :=
  { s with work := { s.work with sessions := Function.update s.work.sessions ticket session } }

inductive Label (n : Nat) where
  | own (label : OwnLabel Protocol n)
  | accept (protocol : Protocol)
  | arrive (ticket : Nat) (bytes : Bytes)
  | hangUp (ticket : Nat)
  /-- The stop flag is raised. -/
  | raise
  /-- `stop` begins with `shutdown`, and joins the acceptors when that returns. -/
  | shutdown
  | wake (worker : Fin n)

inductive Step : State n → Label n → State n → Prop
  | own {s : State n} {label : OwnLabel Protocol n} {next : Work Session Protocol n}
      (step : Own (jobs s.stopFlag) s.work label next) :
      Step s (.own label) { s with work := next }
  | accept (s : State n) (protocol : Protocol) : Step s (.accept protocol) (s.accept protocol)
  | arrive {s : State n} {ticket : Nat} {bytes : Bytes}
      (listening : (s.work.sessions ticket).closed = false) :
      Step s (.arrive ticket bytes) (s.touch ticket { s.work.sessions ticket with
        incoming := (s.work.sessions ticket).incoming ++ bytes })
  | hangUp {s : State n} {ticket : Nat} :
      Step s (.hangUp ticket) (s.touch ticket { s.work.sessions ticket with closed := true })
  | raise {s : State n} : Step s .raise { s with stopFlag := true }
  | shutdown {s : State n} {next : ThreadPool.State Protocol n}
      (step : ThreadPool.Step s.work.pool .shutdown next) :
      Step s .shutdown { s with work := { s.work with pool := next } }
  | wake {s : State n} {worker : Fin n} {next : ThreadPool.State Protocol n}
      (step : ThreadPool.Step s.work.pool (.wake worker) next) :
      Step s (.wake worker) { s with work := { s.work with pool := next } }

theorem own_pool {stopFlag : Bool} {w next : Work Session Protocol n} {label : OwnLabel Protocol n}
    (step : Own (jobs stopFlag) w label next) :
    next.pool = w.pool ∨ ∃ moved, ThreadPool.Step w.pool moved next.pool := by
  cases step with
  | pool alive due step => exact .inr ⟨_, step⟩
  | finish alive here done => exact .inr ⟨_, .finish here⟩
  | advance alive here step => exact .inl rfl

theorem pool_run {labels : List (Label n)} {s : State n} (run : Run Step (initial n) labels s) :
    ∃ moves, Run ThreadPool.Step (ThreadPool.initial Protocol n) moves s.work.pool := by
  refine run.invariant (fun _ s => ∃ moves,
    Run ThreadPool.Step (ThreadPool.initial Protocol n) moves s.work.pool) ⟨[], .refl⟩ ?_
  intro labels s label next _ ih step
  obtain ⟨moves, before⟩ := ih
  cases step with
  | own step =>
    rcases own_pool step with same | ⟨moved, step⟩
    · exact ⟨moves, by rw [same]; exact before⟩
    · exact ⟨_, before.snoc step⟩
  | accept protocol => exact ⟨_, before.snoc (.offer _ .enqueue protocol)⟩
  | arrive => exact ⟨moves, before⟩
  | hangUp => exact ⟨moves, before⟩
  | raise => exact ⟨moves, before⟩
  | shutdown step => exact ⟨_, before.snoc step⟩
  | wake step => exact ⟨_, before.snoc step⟩

structure Session.Silent (session : Session) : Prop where
  incoming : session.incoming = []
  listening : session.closed = false
  waits : (∃ taken, session.handler = .line taken) ∨
    ∃ rounds rawRequest, session.handler = .request (rounds + 1) rawRequest

theorem Session.Silent.blocked {session : Session} (silent : session.Silent) (stopFlag : Bool) :
    session.advance stopFlag = none ∧ session.handler ≠ .finished := by
  obtain ⟨handler, incoming, closed⟩ := session
  obtain ⟨incoming, listening, waits⟩ := silent
  simp only at incoming listening waits
  subst incoming listening
  rcases waits with ⟨taken, rfl⟩ | ⟨rounds, rawRequest, rfl⟩
  · exact ⟨rfl, nofun⟩
  · exact ⟨rfl, nofun⟩

theorem Session.Silent.stuck {session : Session} (silent : session.Silent) (stopFlag : Bool) :
    ¬(jobs stopFlag).Ends session :=
  Jobs.not_ends (silent.blocked stopFlag).1 (decide_eq_false (silent.blocked stopFlag).2)

def Occupied (s : State n) : Prop :=
  ∀ worker, ∃ client, s.work.pool.workers worker = .running client ∧
    (s.work.sessions client.ticket).Silent

def Stirs (s : State n) (label : Label n) : Prop :=
  ∃ worker client, s.work.pool.workers worker = .running client ∧
    ((∃ bytes, label = .arrive client.ticket bytes) ∨ label = .hangUp client.ticket)

theorem Occupied.silent {s : State n} (occupied : Occupied s) {worker : Fin n}
    {client : Queued Protocol} (here : s.work.pool.workers worker = .running client) :
    (s.work.sessions client.ticket).Silent := by
  obtain ⟨other, there, silent⟩ := occupied worker
  obtain rfl := Worker.running.inj (here.symm.trans there)
  exact silent

theorem not_stirs {s : State n} {label : Label n}
    (quiet : ∀ ticket bytes, label ≠ .arrive ticket bytes)
    (stays : ∀ ticket, label ≠ .hangUp ticket) : ¬Stirs s label := by
  rintro ⟨worker, client, -, ⟨bytes, sent⟩ | left⟩
  · exact quiet _ _ sent
  · exact stays _ left

structure Frozen (s final : State n) : Prop where
  occupied : Occupied final
  workers : final.work.pool.workers = s.work.pool.workers
  queue : s.work.pool.tasks <+: final.work.pool.tasks

theorem Frozen.keep {s current next : State n} (inv : Frozen s current)
    (workers : next.work.pool.workers = current.work.pool.workers)
    (queue : current.work.pool.tasks <+: next.work.pool.tasks)
    (sessions : ∀ worker client, s.work.pool.workers worker = .running client →
      next.work.sessions client.ticket = current.work.sessions client.ticket) : Frozen s next := by
  refine ⟨fun worker => ?_, workers.trans inv.workers, inv.queue.trans queue⟩
  obtain ⟨client, here, silent⟩ := inv.occupied worker
  refine ⟨client, by rw [workers, here], ?_⟩
  rw [inv.workers] at here
  rw [sessions worker client here]
  exact silent

theorem ticket_lt {labels : List (Label n)} {s : State n} (run : Run Step (initial n) labels s)
    {worker : Fin n} {client : Queued Protocol}
    (here : s.work.pool.workers worker = .running client) :
    client.ticket < s.work.pool.tickets := by
  obtain ⟨moves, reached⟩ := pool_run run
  have served := served_run reached
  have listed := List.mem_map_of_mem (f := Queued.ticket)
    (served.taken_accepted (served.running here))
  rw [served.tickets] at listed
  exact List.mem_range.mp listed

theorem Frozen.step {s current next : State n} {labels : List (Label n)} {label : Label n}
    (run : Run Step (initial n) labels current) (inv : Frozen s current)
    (step : Step current label next) (still : ¬Stirs s label) : Frozen s next := by
  have running (worker : Fin n) :
      ∃ client, current.work.pool.workers worker = .running client := by
    obtain ⟨client, here, -⟩ := inv.occupied worker
    exact ⟨client, here⟩
  cases step with
  | own step =>
    cases step with
    | @finish worker client alive here done =>
      exact absurd (of_decide_eq_true done) ((inv.occupied.silent here).blocked current.stopFlag).2
    | @advance worker client session alive here step =>
      cases step.symm.trans ((inv.occupied.silent here).blocked current.stopFlag).1
    | pool alive due step =>
      cases step with
      | @notifyOne worker pending here =>
        obtain ⟨client, there⟩ := running worker
        rw [here] at there
        cases there
      | notifyNone => exact inv.keep rfl (List.prefix_refl _) fun _ _ _ => rfl
      | @enter worker here =>
        obtain ⟨client, there⟩ := running worker
        rw [here] at there
        cases there
      | notifyAll =>
        refine inv.keep (funext fun worker => ?_) (List.prefix_refl _) fun _ _ _ => rfl
        obtain ⟨client, there⟩ := running worker
        simp only [there, Worker.wake]
      | @join worker here exited =>
        obtain ⟨client, there⟩ := running worker
        rw [exited] at there
        cases there
      | offer => cases due
      | finish => cases due
      | wake => cases due
      | shutdown => cases due
  | accept protocol =>
    have offered : (current.work.pool.offer .enqueue protocol).2.workers =
        current.work.pool.workers ∧
        current.work.pool.tasks <+: (current.work.pool.offer .enqueue protocol).2.tasks := by
      unfold State.offer
      split
      · exact ⟨rfl, List.prefix_refl _⟩
      · exact ⟨rfl, List.prefix_append ..⟩
    refine inv.keep offered.1 offered.2 fun worker client here => ?_
    rw [← inv.workers] at here
    exact Function.update_of_ne (Nat.ne_of_lt (ticket_lt run here)) ..
  | @arrive ticket bytes listening =>
    refine inv.keep rfl (List.prefix_refl _) fun worker client here => ?_
    apply Function.update_of_ne
    rintro rfl
    exact still ⟨worker, client, here, .inl ⟨bytes, rfl⟩⟩
  | @hangUp ticket =>
    refine inv.keep rfl (List.prefix_refl _) fun worker client here => ?_
    apply Function.update_of_ne
    rintro rfl
    exact still ⟨worker, client, here, .inr rfl⟩
  | raise => exact inv.keep rfl (List.prefix_refl _) fun _ _ _ => rfl
  | shutdown step =>
    cases step with
    | shutdown => exact inv.keep rfl (List.prefix_refl _) fun _ _ _ => rfl
  | @wake worker next step =>
    cases step with
    | wake here =>
      obtain ⟨client, there⟩ := running worker
      rw [here] at there
      cases there

/-- An occupied pool with nobody to notify does nothing by itself. -/
theorem Occupied.rests {s : State n} (occupied : Occupied s)
    (quiet : s.work.pool.notifying = 0) (closing : s.work.pool.closing ≠ .flagged) :
    s.work.Rests (jobs s.stopFlag) := by
  intro label next step
  cases step with
  | finish alive here done =>
    exact ((occupied.silent here).blocked s.stopFlag).2 (of_decide_eq_true done)
  | advance alive here step => cases step.symm.trans ((occupied.silent here).blocked s.stopFlag).1
  | pool alive due step =>
    cases step with
    | notifyOne pending | notifyNone pending => omega
    | @enter worker here | @join worker closed here =>
      obtain ⟨client, there, -⟩ := occupied worker
      rw [here] at there
      cases there
    | notifyAll here => exact closing here
    | offer | finish | wake | shutdown => cases due

theorem only_worker (worker : Fin (poolSize 4 1)) : worker = ⟨0, by decide⟩ := by
  have below : (worker : Nat) < 1 := worker.isLt
  apply Fin.ext
  change (worker : Nat) = 0
  omega

/-- With one connection allowed, a TCP client connects and sends nothing, and an HTTP client comes
after it. -/
theorem silent_run : ∃ labels s, Run Step (initial (poolSize 4 1)) labels s ∧ Occupied s ∧
    s.work.pool.tasks = [⟨1, .http⟩] ∧ s.work.pool.stop = false ∧ s.work.pool.notifying = 0 ∧
      s.work.pool.closing = .notCalled ∧ s.work.alive = true := by
  let worker : Fin (poolSize 4 1) := ⟨0, by decide⟩
  have accepted := Run.single (Step.accept (initial (poolSize 4 1)) .tcp)
  have taken := accepted.snoc (.own (.pool rfl rfl (@ThreadPool.Step.enter _ _ _ worker rfl)))
  have here : (ThreadPool.State.workerSection (initial (poolSize 4 1) |>.accept .tcp).work.pool
      worker).2.workers worker = .running ⟨0, .tcp⟩ := rfl
  have listening := taken.snoc (.own (.advance rfl here rfl))
  have queued := listening.snoc (.accept _ .http)
  have once := queued.snoc (.own (.pool rfl rfl (.notifyNone (by decide) fun other asleep => by
    rw [only_worker other] at asleep
    cases asleep)))
  have twice := once.snoc (.own (.pool rfl rfl (.notifyNone (by decide) fun other asleep => by
    rw [only_worker other] at asleep
    cases asleep)))
  refine ⟨_, _, twice, fun other => ?_, rfl, rfl, rfl, rfl, rfl⟩
  rw [only_worker other]
  exact ⟨⟨0, .tcp⟩, rfl, rfl, rfl, .inl ⟨[], rfl⟩⟩

section Service

variable {hardware maxConnections : Nat} {labels : List (Label (poolSize hardware maxConnections))}
  {s : State (poolSize hardware maxConnections)}

/-- Whoever is queued is served by the program alone, in so many steps at most, if and only if fewer
clients than workers, of those that are served or queued before it, keep a handler waiting for
good. -/
theorem served_iff (run : Run Step (initial (poolSize hardware maxConnections)) labels s)
    (going : s.work.pool.stop = false) {ahead behind : List (Queued Protocol)}
    {client : Queued Protocol} (queue : s.work.pool.tasks = ahead ++ client :: behind)
    {more : List (OwnLabel Protocol (poolSize hardware maxConnections))}
    {final : Work Session Protocol (poolSize hardware maxConnections)}
    (alone : Run (Own (jobs s.stopFlag)) s.work more final) :
    more.length ≤ s.work.budget (jobs s.stopFlag) ∧
    (final.Rests (jobs s.stopFlag) → final.alive = true →
      (client ∉ final.pool.tasks ↔
        s.work.stuck (jobs s.stopFlag) (s.work.pool.held ++ ahead) <
          poolSize hardware maxConnections)) := by
  obtain ⟨moves, reached⟩ := pool_run run
  have budget := own_run alone
  refine ⟨by omega, fun rests alive => ?_⟩
  exact taken_iff reached going queue alone rests alive

theorem served_iff_silent : ∃ labels s, Run Step (initial (poolSize 4 1)) labels s ∧
    s.work.pool.tasks = [⟨1, .http⟩] ∧
      ¬s.work.stuck (jobs s.stopFlag) (s.work.pool.held ++ []) < poolSize 4 1 := by
  obtain ⟨labels, s, run, occupied, queue, going, quiet, closing, alive⟩ := silent_run
  have rests := occupied.rests quiet (by rw [closing]; nofun)
  have served := (@served_iff _ _ _ _ run going [] [] _ queue _ _ .refl).2 rests alive
  refine ⟨labels, s, run, queue, fun room => served.mpr room ?_⟩
  rw [queue]
  exact List.mem_singleton_self _

/-- `shutdown`, with which `stop` begins, returns, in so many steps at most, if and only if no
client that is served or queued keeps a handler waiting for good. -/
theorem shutdown_returns_iff
    (run : Run Step (initial (poolSize hardware maxConnections)) labels s)
    (stopped : s.work.pool.stop = true)
    {more : List (OwnLabel Protocol (poolSize hardware maxConnections))}
    {final : Work Session Protocol (poolSize hardware maxConnections)}
    (alone : Run (Own (jobs s.stopFlag)) s.work more final) :
    more.length ≤ s.work.budget (jobs s.stopFlag) ∧
    (final.Rests (jobs s.stopFlag) → final.alive = true →
      (final.pool.Returned ↔
        s.work.stuck (jobs s.stopFlag) (s.work.pool.held ++ s.work.pool.tasks) = 0)) := by
  obtain ⟨moves, reached⟩ := pool_run run
  have budget := own_run alone
  refine ⟨by omega, fun rests alive => ?_⟩
  exact returned_iff (poolSize_pos ..) reached stopped alone rests alive

theorem shutdown_returns_iff_silent : ∃ labels s, Run Step (initial (poolSize 4 1)) labels s ∧
    s.work.pool.stop = true ∧
      s.work.stuck (jobs s.stopFlag) (s.work.pool.held ++ s.work.pool.tasks) ≠ 0 := by
  obtain ⟨labels, s, run, occupied, queue, going, quiet, closing, alive⟩ := silent_run
  have frozen : Frozen s s := ⟨occupied, rfl, List.prefix_refl _⟩
  have raised := frozen.step run .raise (not_stirs nofun nofun)
  have run := run.snoc .raise
  have flagged := raised.step run (.shutdown (.shutdown closing))
    (not_stirs nofun nofun)
  have run := run.snoc (.shutdown (.shutdown closing))
  have notified := flagged.step run (.own (.pool alive rfl (.notifyAll rfl)))
    (not_stirs nofun nofun)
  have run := run.snoc (.own (.pool alive rfl (.notifyAll rfl)))
  have rests := notified.occupied.rests quiet nofun
  have returned := (shutdown_returns_iff run rfl .refl).2 rests alive
  refine ⟨_, _, run, rfl, fun none => ?_⟩
  cases returned.mpr none

/-- Once every worker waits for a client that sends nothing, then whatever else happens, as long as
none of these clients sends anything or leaves, no other client is served and `shutdown`, and so
`stop`, does not return. -/
theorem occupied_starves
    (run : Run Step (initial (poolSize hardware maxConnections)) labels s) (occupied : Occupied s)
    {more : List (Label (poolSize hardware maxConnections))}
    {final : State (poolSize hardware maxConnections)} (rest : Run Step s more final)
    (still : ∀ label ∈ more, ¬Stirs s label) :
    final.work.pool.workers = s.work.pool.workers ∧
      s.work.pool.tasks <+: final.work.pool.tasks ∧ ¬final.work.pool.Returned := by
  have frozen : Frozen s final := by
    refine rest.invariant (fun more final => (∀ label ∈ more, ¬Stirs s label) → Frozen s final)
      (fun _ => ⟨occupied, rfl, List.prefix_refl _⟩) ?_ still
    intro more current label next before ih step still
    have first : ∀ other ∈ more, ¬Stirs s other :=
      fun other listed => still other (List.mem_append_left _ listed)
    exact (ih first).step (run.trans before) step (still label (by simp))
  refine ⟨frozen.workers, frozen.queue, fun returned => ?_⟩
  obtain ⟨moves, reached⟩ := pool_run (run.trans rest)
  have exited := ((closed_run reached).returned (poolSize_pos ..) returned).2 ⟨0, poolSize_pos ..⟩
  obtain ⟨client, here, -⟩ := frozen.occupied ⟨0, poolSize_pos ..⟩
  rw [exited] at here
  cases here

theorem occupied_starves_silent : ∃ labels s final, Run Step (initial (poolSize 4 1)) labels s ∧
    Run Step s [.accept .http] final ∧ s.work.pool.tasks <+: final.work.pool.tasks ∧
      ¬final.work.pool.Returned := by
  obtain ⟨labels, s, run, occupied, -⟩ := silent_run
  have rest := Run.single (Step.accept s .http)
  have starves := occupied_starves run occupied rest (by
    intro label listed
    rw [List.mem_singleton.mp listed]
    exact not_stirs nofun nofun)
  exact ⟨labels, s, _, run, rest, starves.2⟩

end Service

end LogMonitor.IngesterPool
