import LogMonitor.ConnectionTracking
import LogMonitor.Library.JsonText
import LogMonitor.Server

/-!
The stats thread, while the stop flag is unset: every few seconds it gathers what
the other components count and writes it over the last snapshot. Neither `run` nor
the thread around it catches anything, so what `dump` throws ends the process. The
throughput is in exact arithmetic.
-/

namespace LogMonitor.StatsAggregator
open Library Library.ByteString Library.Transition
open ConnectionTracking (Client)

/-- A rule of the engine. Its texts come out of a JSON file. -/
structure RuleFigures where
  name : Bytes
  severity : Severity
  patternStr : Bytes
  triggerCount : UInt64
  legible : Utf8 name ∧ Utf8 patternStr

/-- What the accessors of the pipeline, of the alert manager and of the engine answer. -/
structure Figures where
  /-- As `put_time` writes it. -/
  timestamp : Bytes
  totalMatched : UInt64
  avgLatencyUs : Rat
  severityCount : Severity → UInt64
  totalAlerts : UInt64
  rules : List RuleFigures
  legible : Utf8 timestamp

/-- What the accessors of the ingester answer. -/
structure NetworkFigures where
  totalNetworkLines : UInt64
  activeConnections : Nat
  connections : List (Bytes × UInt64)

def ruleJson (rule : RuleFigures) : Json := .object [
  (text "name", .string rule.name),
  (text "severity", .string rule.severity.toText),
  (text "pattern", .string rule.patternStr),
  (text "trigger_count", .integer rule.triggerCount.toNat)]

def connectionJson (connection : Bytes × UInt64) : Json := .object [
  (text "service", .string connection.1),
  (text "lines_received", .integer connection.2.toNat)]

def networkJson (network : NetworkFigures) : Json := .object [
  (text "total_lines_received", .integer network.totalNetworkLines.toNat),
  (text "active_connections", .integer network.activeConnections),
  (text "connections", .array (network.connections.map connectionJson))]

def alertsJson (figures : Figures) : Json := .object [
  (text "info", .integer (figures.severityCount .info).toNat),
  (text "warn", .integer (figures.severityCount .warn).toNat),
  (text "error", .integer (figures.severityCount .error).toNat),
  (text "critical", .integer (figures.severityCount .critical).toNat),
  (text "total", .integer figures.totalAlerts.toNat)]

/-- `lines_per_sec`, from the lines since the last snapshot and the milliseconds. -/
def linesPerSec (lines : UInt64) (elapsed : Int) : Rat :=
  if 0 < elapsed then (lines.toNat : Rat) / ((elapsed : Rat) / 1000) else 0

structure Reading where
  now : Int
  currentLines : UInt64
  elapsed : Int
  linesPerSec : Rat
  figures : Figures

/-- `static_cast<int64_t>(lines_per_sec)`. -/
def Reading.wholeLines (reading : Reading) : Int :=
  reading.linesPerSec.num.tdiv reading.linesPerSec.den

/-- `stats`; there is no ingester if `main` has not made one. -/
def Reading.stats (reading : Reading) (network : Option NetworkFigures) : Json := .object ([
  (text "timestamp", .string reading.figures.timestamp),
  (text "total_lines_processed", .integer reading.currentLines.toNat),
  (text "lines_per_second", .integer reading.wholeLines),
  (text "total_matched", .integer reading.figures.totalMatched.toNat),
  (text "avg_processing_latency_us", .real reading.figures.avgLatencyUs),
  (text "alerts", alertsJson reading.figures),
  (text "rules", .array (reading.figures.rules.map ruleJson))] ++
  network.toList.map fun network => (text "network", networkJson network))

structure Config where
  hasNetwork : Bool
  intervalSeconds : Int32
  /-- `dump(2)`, which may throw. -/
  dump : Json → Option Bytes

inductive Phase where
  /-- So many naps of 100 ms are left. -/
  | sleeping (left : Nat)
  | timed (now : Int)
  | counted (now : Int) (currentLines : UInt64)
  | figured (reading : Reading)
  | received (reading : Reading) (totalNetworkLines : UInt64)
  | active (reading : Reading) (totalNetworkLines : UInt64) (activeConnections : Nat)
  | gathered (reading : Reading) (stats : Json)
  /-- The file is open, and empty. -/
  | opened (reading : Reading) (stats : Json)
  | written (reading : Reading)
  /-- An exception has left the thread, and the process is gone. -/
  | terminated

structure State where
  clock : Int
  /-- The counter of the pipeline. -/
  totalLines : UInt64
  connections : ConnectionTracking.State
  totalNetworkLines : UInt64
  phase : Phase
  prevLines : UInt64
  prevTime : Int
  linesPerSecond : Int
  /-- What is in `stats.json`. -/
  file : Bytes

variable (cfg : Config)

/-- How often the thread naps between two snapshots. The product is an `int`, whose overflow wraps
here. -/
def Config.naps : Nat := (cfg.intervalSeconds * 10).toInt.toNat

def initial (opened : Nat → Bool) (clock : Int) (file : Bytes) : State where
  clock := clock
  totalLines := 0
  connections := ConnectionTracking.initial opened
  totalNetworkLines := 0
  phase := .sleeping cfg.naps
  prevLines := 0
  prevTime := clock
  linesPerSecond := 0
  file := file

def State.reading (s : State) (now : Int) (currentLines : UInt64) (figures : Figures) : Reading :=
  let elapsed := (now - s.prevTime).tdiv 1000000
  { now := now
    currentLines := currentLines
    elapsed := elapsed
    linesPerSec := linesPerSec (currentLines - s.prevLines) elapsed
    figures := figures }

inductive Label where
  /-- What the acceptor and the handlers do, except for the lines they hear. -/
  | network (label : ConnectionTracking.Label)
  | heard (client : Nat) (line : Bytes)
  /-- A line that came over HTTP. -/
  | httpLine
  /-- The pipeline counts a line. -/
  | line
  | nap
  | time
  | count
  | figure
  | receive
  | active
  | gather
  | tornGather
  | openFile (opens : Bool)
  | dump
  | save (elapsed linesPerSecond : Int)

def isHeard : ConnectionTracking.Label → Bool
  | .heard _ _ => true
  | _ => false

inductive Step : State → Label → State → Prop
  | network {s : State} {label : ConnectionTracking.Label} {next : ConnectionTracking.State}
      (alive : s.phase ≠ .terminated) (silent : isHeard label = false)
      (step : ConnectionTracking.Step s.connections label next) :
      Step s (.network label) { s with connections := next }
  | heard {s : State} {i : Nat} {client : Client} {line : Bytes} {now : Int} {entry : LogEntry}
      (alive : s.phase ≠ .terminated) (known : s.connections.clients[i]? = some client)
      (running : client.phase = .running)
      (made : tcpClientEntry client.connId line now client.info.linesReceived = some entry) :
      Step s (.heard i line) { s with
        connections := s.connections.set i { client with info := client.info.record entry }
        totalNetworkLines := s.totalNetworkLines + 1 }
  | httpLine {s : State} (alive : s.phase ≠ .terminated) :
      Step s .httpLine { s with totalNetworkLines := s.totalNetworkLines + 1 }
  | line {s : State} (alive : s.phase ≠ .terminated) :
      Step s .line { s with totalLines := s.totalLines + 1 }
  | nap {s : State} {left : Nat} {now : Int} (here : s.phase = .sleeping (left + 1))
      (slept : s.clock + 100000000 ≤ now) :
      Step s .nap { s with
        clock := now
        phase := .sleeping left }
  | time {s : State} {now : Int} (here : s.phase = .sleeping 0) (later : s.clock ≤ now) :
      Step s .time { s with
        clock := now
        phase := .timed now }
  | count {s : State} {now : Int} (here : s.phase = .timed now) :
      Step s .count { s with phase := .counted now s.totalLines }
  | figure {s : State} {now : Int} {currentLines : UInt64} (figures : Figures)
      (here : s.phase = .counted now currentLines) :
      Step s .figure { s with phase := .figured (s.reading now currentLines figures) }
  | receive {s : State} {reading : Reading} (here : s.phase = .figured reading)
      (enabled : cfg.hasNetwork = true) :
      Step s .receive { s with phase := .received reading s.totalNetworkLines }
  | active {s : State} {reading : Reading} {totalNetworkLines : UInt64}
      (here : s.phase = .received reading totalNetworkLines) :
      Step s .active { s with
        phase := .active reading totalNetworkLines s.connections.activeConnections }
  | gather {s : State} {reading : Reading} {totalNetworkLines : UInt64} {activeConnections : Nat}
      (here : s.phase = .active reading totalNetworkLines activeConnections) :
      Step s .gather { s with
        phase := .gathered reading (reading.stats
          (some ⟨totalNetworkLines, activeConnections, s.connections.getConnections⟩)) }
  /-- A handler assigns a service name, without a lock, while it is copied: the copies can be
  anything. -/
  | tornGather {s : State} {reading : Reading} {totalNetworkLines : UInt64}
      {activeConnections : Nat} (connections : List (Bytes × UInt64))
      (here : s.phase = .active reading totalNetworkLines activeConnections)
      (rows : connections.map Prod.snd = s.connections.getConnections.map Prod.snd) :
      Step s .tornGather { s with
        phase := .gathered reading (reading.stats
          (some ⟨totalNetworkLines, activeConnections, connections⟩)) }
  | gatherAlone {s : State} {reading : Reading} (here : s.phase = .figured reading)
      (disabled : cfg.hasNetwork = false) :
      Step s .gather { s with phase := .gathered reading (reading.stats none) }
  | notOpened {s : State} {reading : Reading} {stats : Json}
      (here : s.phase = .gathered reading stats) :
      Step s (.openFile false) { s with phase := .written reading }
  | openFile {s : State} {reading : Reading} {stats : Json}
      (here : s.phase = .gathered reading stats) :
      Step s (.openFile true) { s with
        file := []
        phase := .opened reading stats }
  | dump {s : State} {reading : Reading} {stats : Json} {bytes written : Bytes}
      (here : s.phase = .opened reading stats) (dumped : cfg.dump stats = some bytes)
      (upTo : written <+: bytes ++ [10]) :
      Step s .dump { s with
        file := written
        phase := .written reading }
  | terminate {s : State} {reading : Reading} {stats : Json}
      (here : s.phase = .opened reading stats) (thrown : cfg.dump stats = none) :
      Step s .dump { s with phase := .terminated }
  | save {s : State} {reading : Reading} (here : s.phase = .written reading) :
      Step s (.save reading.elapsed reading.wholeLines) { s with
        linesPerSecond := reading.wholeLines
        prevLines := reading.currentLines
        prevTime := reading.now
        phase := .sleeping cfg.naps }

def heardLines (i : Nat) (labels : List Label) : List Bytes :=
  labels.filterMap fun
    | .heard j line => if j = i then some line else none
    | _ => none

def lastName (i : Nat) (labels : List Label) : Option Bytes :=
  (((heardLines i labels).map fun line => (splitTcpLine line).1).filter (· ≠ [])).getLast?

/-- A client that is tracked has named a service that is no UTF-8. -/
def ShowsIllegible (labels : List Label) : Prop :=
  cfg.hasNetwork = true ∧ ∃ i name, .network (.inserted i) ∈ labels ∧
    .network (.erased i) ∉ labels ∧ lastName i labels = some name ∧ ¬Utf8 name

/-- The last snapshot was gathered after the labels `earlier`, before the labels `later`. -/
structure LastGathered (labels earlier later : List Label) : Prop where
  shape : labels = earlier ++ .gather :: later
  last : .gather ∉ later

variable {cfg}

section Writable

theorem utf8_keys : ∀ key ∈ ["timestamp", "total_lines_processed", "lines_per_second",
    "total_matched", "avg_processing_latency_us", "alerts", "info", "warn", "error", "critical",
    "total", "rules", "name", "severity", "pattern", "trigger_count", "network",
    "total_lines_received", "active_connections", "connections", "service", "lines_received"],
    Utf8 (text key) := by
  decide +kernel

theorem utf8_severity (severity : Severity) : Utf8 severity.toText := by
  cases severity <;> decide +kernel

theorem ruleJson_writable (rule : RuleFigures) : (ruleJson rule).Writable := by
  have keys := utf8_keys
  simp only [List.forall_mem_cons] at keys
  simp [ruleJson, keys, rule.legible, utf8_severity]

theorem connectionJson_writable (connection : Bytes × UInt64) :
    (connectionJson connection).Writable ↔ Utf8 connection.1 := by
  have keys := utf8_keys
  simp only [List.forall_mem_cons] at keys
  simp [connectionJson, keys]

theorem networkJson_writable (network : NetworkFigures) :
    (networkJson network).Writable ↔ ∀ connection ∈ network.connections, Utf8 connection.1 := by
  have keys := utf8_keys
  simp only [List.forall_mem_cons] at keys
  simp only [networkJson, Json.writable_object, List.forall_mem_cons, Json.writable_integer,
    Json.writable_array, List.forall_mem_map, connectionJson_writable, keys]
  simp

theorem stats_writable (reading : Reading) (network : Option NetworkFigures) :
    (reading.stats network).Writable ↔ ∀ figures, network = some figures →
      ∀ connection ∈ figures.connections, Utf8 connection.1 := by
  have keys := utf8_keys
  simp only [List.forall_mem_cons] at keys
  have alerts : (alertsJson reading.figures).Writable := by simp [alertsJson, keys]
  cases network with
  | none => simp [Reading.stats, keys, reading.figures.legible, ruleJson_writable, alerts]
  | some figures =>
    have network := networkJson_writable figures
    simp [Reading.stats, keys, reading.figures.legible, ruleJson_writable, alerts, network]

end Writable

section Names

theorem heardLines_append (i : Nat) (first second : List Label) :
    heardLines i (first ++ second) = heardLines i first ++ heardLines i second :=
  List.filterMap_append

theorem lastName_heard (i : Nat) (labels : List Label) (line : Bytes) :
    lastName i (labels ++ [.heard i line]) =
      if (splitTcpLine line).1 = [] then lastName i labels else some (splitTcpLine line).1 := by
  have lines : heardLines i [.heard i line] = [line] := by simp [heardLines]
  unfold lastName
  rw [heardLines_append, lines, List.map_append, List.filter_append, List.map_singleton]
  by_cases unnamed : (splitTcpLine line).1 = []
  · simp [unnamed]
  · simp [unnamed]

theorem lastName_ne_nil {i : Nat} {labels : List Label} {name : Bytes}
    (named : lastName i labels = some name) : name ≠ [] := by
  have listed := List.mem_of_getLast? named
  simpa using (List.mem_filter.mp listed).2

def Recorded (labels : List Label) (i : Nat) : Option Client → Prop
  | none => heardLines i labels = []
  | some client => client.info.remoteAddr = client.connId ∧
      client.info.serviceName = (lastName i labels).getD []

theorem silent_place {s next : ConnectionTracking.State} {label : ConnectionTracking.Label}
    (silent : isHeard label = false) (step : ConnectionTracking.Step s label next) (i : Nat) :
    (s.clients[i]? = none ∧
      ∃ fd, next.clients[i]? = some ⟨fd, .accepted, .accepted (LogMonitor.connId fd)⟩) ∨
      next.clients[i]?.map (fun client => (client.fd, client.info)) =
        s.clients[i]?.map fun client => (client.fd, client.info) := by
  have moved {j : Nat} {client other : Client} (known : s.clients[j]? = some client)
      (fd : other.fd = client.fd) (info : other.info = client.info) :
      (s.clients.set j other)[i]?.map (fun client => (client.fd, client.info)) =
        s.clients[i]?.map fun client => (client.fd, client.info) := by
    rw [ConnectionTracking.getElem?_set known]
    by_cases same : i = j
    · rw [if_pos same, same, known, Option.map_some, Option.map_some, fd, info]
    · rw [if_neg same]
  cases step with
  | @accepted fd waiting unused =>
    change (_ ∧ ∃ fd, (s.clients ++ [_])[i]? = _) ∨ (s.clients ++ [_])[i]?.map _ = _
    rcases Nat.lt_trichotomy i s.clients.length with before | here | behind
    · rw [List.getElem?_append_left before]
      exact .inr rfl
    · subst here
      exact .inl ⟨List.getElem?_eq_none (Nat.le_refl _), fd, List.getElem?_concat_length⟩
    · have beyond : 1 ≤ i - s.clients.length := by omega
      rw [List.getElem?_append_right (Nat.le_of_lt behind),
        List.getElem?_eq_none (Nat.le_of_lt behind), List.getElem?_eq_none beyond]
      exact .inr rfl
  | inserted position known => exact .inr (moved known rfl rfl)
  | enqueued position known => exact .inr (moved known rfl rfl)
  | started known phase => exact .inr (moved known rfl rfl)
  | heard known phase => cases silent
  | erased known phase => exact .inr (moved known rfl rfl)
  | closed known phase => exact .inr (moved known rfl rfl)
  | failed => exact .inr rfl
  | openedElsewhere => exact .inr rfl
  | closedElsewhere => exact .inr rfl

theorem Recorded.silent {labels : List Label} {label : ConnectionTracking.Label} {i : Nat}
    {s next : ConnectionTracking.State} (inv : Recorded labels i s.clients[i]?)
    (silent : isHeard label = false) (step : ConnectionTracking.Step s label next) :
    Recorded (labels ++ [.network label]) i next.clients[i]? := by
  have lines : heardLines i (labels ++ [.network label]) = heardLines i labels := by
    rw [heardLines_append]
    exact List.append_nil _
  have name : lastName i (labels ++ [.network label]) = lastName i labels := by
    rw [lastName, lines, lastName]
  rcases silent_place silent step i with ⟨absent, fd, arrived⟩ | same
  · rw [absent] at inv
    have silence : heardLines i labels = [] := inv
    have none : lastName i labels = none := by simp [lastName, silence]
    rw [arrived]
    exact ⟨rfl, by rw [name, none]; rfl⟩
  · cases before : s.clients[i]? with
    | none =>
      rw [before] at inv same
      rw [Option.map_eq_none_iff.mp same]
      exact lines.trans inv
    | some client =>
      rw [before] at inv same
      obtain ⟨other, after, records⟩ := Option.map_eq_some_iff.mp same
      obtain ⟨fd, info⟩ := Prod.mk.inj records
      rw [after]
      refine ⟨?_, ?_⟩
      · rw [info, Client.connId, fd]
        exact inv.1
      · rw [info, name]
        exact inv.2

theorem Recorded.heard {labels : List Label} {i j : Nat} {clients : List Client} {client : Client}
    {line : Bytes} {now : Int} {entry : LogEntry} (inv : Recorded labels i clients[i]?)
    (known : clients[j]? = some client)
    (made : tcpClientEntry client.connId line now client.info.linesReceived = some entry) :
    Recorded (labels ++ [.heard j line]) i
      (clients.set j { client with info := client.info.record entry })[i]? := by
  rw [ConnectionTracking.getElem?_set known]
  by_cases same : i = j
  · subst same
    rw [known] at inv
    rw [if_pos rfl]
    have service : entry.serviceName = (splitTcpLine line).1 := by
      unfold tcpClientEntry at made
      split at made
      · cases made
      · rw [← Option.some.inj made]
    refine ⟨inv.1, ?_⟩
    rw [lastName_heard]
    by_cases unnamed : (splitTcpLine line).1 = []
    · simp only [TcpFraming.ConnectionInfo.record, service, unnamed, if_true]
      exact inv.2
    · simp only [TcpFraming.ConnectionInfo.record, service, unnamed, if_false, Option.getD_some]
  · have lines : heardLines i (labels ++ [.heard j line]) = heardLines i labels := by
      rw [heardLines_append]
      simp [heardLines, Ne.symm same]
    rw [if_neg same]
    cases place : clients[i]? with
    | none =>
      rw [place] at inv
      exact lines.trans inv
    | some client =>
      rw [place] at inv
      refine ⟨inv.1, ?_⟩
      rw [lastName, lines]
      exact inv.2

end Names

section Gathered

structure Consistent (opened : Nat → Bool) (labels : List Label) (s : State) : Prop where
  run : ∃ moves, Run ConnectionTracking.Step (ConnectionTracking.initial opened) moves
    s.connections ∧ ∀ i, (.inserted i ∈ moves ↔ .network (.inserted i) ∈ labels) ∧
      (.erased i ∈ moves ↔ .network (.erased i) ∈ labels)
  recorded : ∀ i, Recorded labels i s.connections.clients[i]?

def isApart : Label → Bool
  | .network _ => false
  | .heard _ _ => false
  | _ => true

theorem Consistent.apart {opened : Nat → Bool} {labels : List Label} {label : Label}
    {s next : State} (inv : Consistent opened labels s) (apart : isApart label = true)
    (same : next.connections = s.connections) : Consistent opened (labels ++ [label]) next := by
  obtain ⟨moves, run, marks⟩ := inv.run
  have unlike (other : ConnectionTracking.Label) : (Label.network other ∈ labels ++ [label]) ↔
      Label.network other ∈ labels := by
    cases label <;> simp [isApart] at apart ⊢
  have lines (i : Nat) : heardLines i (labels ++ [label]) = heardLines i labels := by
    cases label <;> simp [isApart, heardLines] at apart ⊢
  refine ⟨⟨moves, by rw [same]; exact run, fun i => ?_⟩, fun i => ?_⟩
  · rw [unlike, unlike]
    exact marks i
  · have recorded := inv.recorded i
    rw [same]
    cases place : s.connections.clients[i]? with
    | none =>
      rw [place] at recorded
      exact (lines i).trans recorded
    | some client =>
      rw [place] at recorded
      refine ⟨recorded.1, ?_⟩
      rw [lastName, lines]
      exact recorded.2

theorem consistent_run {opened : Nat → Bool} {clock : Int} {file : Bytes} {labels : List Label}
    {s : State} (run : Run (Step cfg) (initial cfg opened clock file) labels s) :
    Consistent opened labels s := by
  refine run.invariant (Consistent opened) ⟨⟨[], .refl, by simp⟩, fun i => ?_⟩ ?_
  · exact List.filterMap_nil
  intro labels s label next _ inv step
  obtain ⟨moves, network, marks⟩ := inv.run
  cases step with
  | @network label next alive silent step =>
    refine ⟨⟨moves ++ [label], network.snoc step, fun i => ?_⟩,
      fun i => (inv.recorded i).silent silent step⟩
    simp only [List.mem_append, List.mem_singleton, marks i, Label.network.injEq, and_self]
  | @heard i client line now entry alive known running made =>
    have step := @ConnectionTracking.Step.heard _ _ _ entry known running
    refine ⟨⟨moves ++ [.heard i entry], network.snoc step, fun j => ?_⟩,
      fun j => (inv.recorded j).heard known made⟩
    simp [marks j]
  | httpLine => exact inv.apart rfl rfl
  | line => exact inv.apart rfl rfl
  | nap => exact inv.apart rfl rfl
  | time => exact inv.apart rfl rfl
  | count => exact inv.apart rfl rfl
  | figure => exact inv.apart rfl rfl
  | receive => exact inv.apart rfl rfl
  | active => exact inv.apart rfl rfl
  | gather => exact inv.apart rfl rfl
  | tornGather => exact inv.apart rfl rfl
  | gatherAlone => exact inv.apart rfl rfl
  | notOpened => exact inv.apart rfl rfl
  | openFile => exact inv.apart rfl rfl
  | dump => exact inv.apart rfl rfl
  | terminate => exact inv.apart rfl rfl
  | save => exact inv.apart rfl rfl

theorem utf8_connId (fd : Nat) : Utf8 (LogMonitor.connId fd) := by
  have scheme : Utf8 (text "tcp:") := by decide +kernel
  exact scheme.append (utf8_toString fd)

/-- The name of a client is its descriptor's until it has named a service. -/
theorem report_utf8 {labels : List Label} {i : Nat} {client : Client}
    (recorded : Recorded labels i (some client)) :
    Utf8 (ConnectionTracking.report client.info).1 ↔
      ∀ name, lastName i labels = some name → Utf8 name := by
  obtain ⟨remote, service⟩ := recorded
  unfold ConnectionTracking.report
  cases named : lastName i labels with
  | none =>
    rw [named, Option.getD_none] at service
    rw [if_pos service, remote]
    exact iff_of_true (utf8_connId client.fd) nofun
  | some name =>
    rw [named] at service
    have some : client.info.serviceName ≠ [] := by
      rw [service]
      exact lastName_ne_nil named
    rw [if_neg some, service]
    simp

theorem getConnections_utf8 {opened : Nat → Bool} {labels : List Label} {s : State}
    (inv : Consistent opened labels s) :
    (∀ connection ∈ s.connections.getConnections, Utf8 connection.1) ↔
      ∀ i, .network (.inserted i) ∈ labels → .network (.erased i) ∉ labels →
        ∀ name, lastName i labels = some name → Utf8 name := by
  obtain ⟨moves, run, marks⟩ := inv.run
  have reported := ConnectionTracking.getConnections_run run
  have tracked (i : Nat) : i ∈ s.connections.tracked ↔
      .network (.inserted i) ∈ labels ∧ .network (.erased i) ∉ labels := by
    rw [← (marks i).1, ← (marks i).2, ← ConnectionTracking.tracked_run run i,
      ConnectionTracking.State.tracked, List.mem_filter, List.mem_range, Option.any_eq_true]
    apply and_iff_right_of_imp
    rintro ⟨client, there, -⟩
    exact (List.getElem?_eq_some_iff.mp there).1
  constructor
  · intro legible i inserted unerased
    obtain ⟨client, there, -⟩ := (ConnectionTracking.tracked_run run i).mpr
      ⟨(marks i).1.mpr inserted, fun gone => unerased ((marks i).2.mp gone)⟩
    have recorded := inv.recorded i
    rw [there] at recorded
    apply (report_utf8 recorded).mp
    apply legible
    apply reported.mem_iff.mpr
    apply List.mem_filterMap.mpr
    refine ⟨i, (tracked i).mpr ⟨inserted, unerased⟩, ?_⟩
    rw [there]
    rfl
  · intro legible connection listed
    obtain ⟨i, here, shown⟩ := List.mem_filterMap.mp (reported.mem_iff.mp listed)
    obtain ⟨client, there, rfl⟩ := Option.map_eq_some_iff.mp shown
    obtain ⟨inserted, unerased⟩ := (tracked i).mp here
    have recorded := inv.recorded i
    rw [there] at recorded
    exact (report_utf8 recorded).mpr (legible i inserted unerased)

theorem legible_iff {opened : Nat → Bool} {labels : List Label} {s : State}
    (inv : Consistent opened labels s) (enabled : cfg.hasNetwork = true) :
    (∀ connection ∈ s.connections.getConnections, Utf8 connection.1) ↔
      ¬ShowsIllegible cfg labels := by
  rw [getConnections_utf8 inv]
  constructor
  · rintro legible ⟨-, i, name, inserted, unerased, named, broken⟩
    exact broken (legible i inserted unerased name named)
  · intro none i inserted unerased name named
    by_contra broken
    exact none ⟨enabled, i, name, inserted, unerased, named, broken⟩

theorem last_unique {α : Type} {mark : α} {earlier later before after : List α}
    (same : earlier ++ mark :: later = before ++ mark :: after) (last : mark ∉ later)
    (final : mark ∉ after) : earlier = before ∧ later = after := by
  rcases List.append_eq_append_iff.mp same with ⟨middle, rfl, rest⟩ | ⟨middle, rfl, rest⟩
  · cases middle with
    | nil => exact ⟨(List.append_nil _).symm, (List.cons.inj rest).2⟩
    | cons first middle =>
      obtain ⟨-, rfl⟩ := List.cons.inj rest
      exact absurd (List.mem_append_right _ (List.mem_cons_self ..)) last
  · cases middle with
    | nil => exact ⟨List.append_nil _, (List.cons.inj rest).2.symm⟩
    | cons first middle =>
      obtain ⟨-, rfl⟩ := List.cons.inj rest
      exact absurd (List.mem_append_right _ (List.mem_cons_self ..)) final

theorem LastGathered.snoc {labels earlier later : List Label} {label : Label}
    (last : LastGathered labels earlier later) (other : label ≠ .gather) :
    LastGathered (labels ++ [label]) earlier (later ++ [label]) := by
  refine ⟨by rw [last.shape, List.append_assoc, List.cons_append], ?_⟩
  simp only [List.mem_append, List.mem_singleton, not_or]
  exact ⟨last.last, Ne.symm other⟩

theorem LastGathered.back {labels earlier later : List Label} {label : Label}
    (last : LastGathered (labels ++ [label]) earlier later) (other : label ≠ .gather) :
    ∃ before, later = before ++ [label] ∧ LastGathered labels earlier before := by
  obtain ⟨shape, absent⟩ := last
  rcases List.eq_nil_or_concat later with rfl | ⟨before, final, rfl⟩
  · exact absurd (List.singleton_inj.mp (List.append_inj' shape rfl).2) other
  · rw [List.concat_eq_append] at shape absent ⊢
    rw [← List.cons_append, ← List.append_assoc] at shape
    obtain ⟨same, single⟩ := List.append_inj' shape rfl
    obtain rfl := List.singleton_inj.mp single
    exact ⟨before, rfl, same, fun listed => absent (List.mem_append_left _ listed)⟩

/-- The last snapshot is dumped, and cannot be written. -/
def Doomed (cfg : Config) (labels : List Label) : Prop :=
  ∃ earlier later, LastGathered labels earlier later ∧ .dump ∈ later ∧ ShowsIllegible cfg earlier

theorem Doomed.back {labels : List Label} {label : Label} (doomed : Doomed cfg (labels ++ [label]))
    (gather : label ≠ .gather) (dump : label ≠ .dump) : Doomed cfg labels := by
  obtain ⟨earlier, later, last, dumped, broken⟩ := doomed
  obtain ⟨before, rfl, first⟩ := last.back gather
  refine ⟨earlier, before, first, ?_, broken⟩
  rcases List.mem_append.mp dumped with old | new
  · exact old
  · exact absurd (List.mem_singleton.mp new).symm dump

theorem not_doomed_gather (labels : List Label) : ¬Doomed cfg (labels ++ [.gather]) := by
  rintro ⟨earlier, later, last, dumped, -⟩
  obtain ⟨rfl, rfl⟩ := last_unique last.shape.symm last.last List.not_mem_nil
  cases dumped

def InHand (cfg : Config) (labels : List Label) (stats : Json) : Prop :=
  ∃ earlier later, LastGathered labels earlier later ∧ .dump ∉ later ∧
    (stats.Writable ↔ ¬ShowsIllegible cfg earlier)

theorem InHand.snoc {labels : List Label} {label : Label} {stats : Json}
    (inHand : InHand cfg labels stats) (gather : label ≠ .gather) (dump : label ≠ .dump) :
    InHand cfg (labels ++ [label]) stats := by
  obtain ⟨earlier, later, last, undumped, writable⟩ := inHand
  refine ⟨earlier, later ++ [label], last.snoc gather, ?_, writable⟩
  simp only [List.mem_append, List.mem_singleton, not_or]
  exact ⟨undumped, Ne.symm dump⟩

theorem InHand.doomed_iff {labels : List Label} {stats : Json}
    (inHand : InHand cfg labels stats) :
    Doomed cfg (labels ++ [.dump]) ↔ ¬stats.Writable := by
  obtain ⟨earlier, later, last, undumped, writable⟩ := inHand
  rw [writable, not_not]
  have now : LastGathered (labels ++ [.dump]) earlier (later ++ [.dump]) := last.snoc nofun
  constructor
  · rintro ⟨before, after, other, -, broken⟩
    have same := last_unique (now.shape.symm.trans other.shape) now.last other.last
    rwa [same.1]
  · intro broken
    exact ⟨earlier, later ++ [.dump], now, by simp, broken⟩

structure Fate (cfg : Config) (labels : List Label) (s : State) : Prop where
  terminated : s.phase = .terminated ↔ Doomed cfg labels
  gathered {reading : Reading} {stats : Json} : s.phase = .gathered reading stats →
    InHand cfg labels stats
  opened {reading : Reading} {stats : Json} : s.phase = .opened reading stats →
    InHand cfg labels stats ∧ s.file = []
  emptied : s.phase = .terminated → s.file = []

theorem Fate.others {labels : List Label} {label : Label} {s next : State}
    (fate : Fate cfg labels s) (gather : label ≠ .gather) (dump : label ≠ .dump)
    (alive : s.phase ≠ .terminated) (phase : next.phase = s.phase) (file : next.file = s.file) :
    Fate cfg (labels ++ [label]) next := by
  rw [← phase] at alive
  refine ⟨?_, fun here => ?_, fun here => ?_, fun here => absurd here alive⟩
  · apply iff_of_false alive
    intro doomed
    rw [phase] at alive
    exact alive (fate.terminated.mpr (doomed.back gather dump))
  · rw [phase] at here
    exact (fate.gathered here).snoc gather dump
  · rw [phase] at here
    obtain ⟨inHand, empty⟩ := fate.opened here
    exact ⟨inHand.snoc gather dump, file.trans empty⟩

def Phase.emptyHanded : Phase → Bool
  | .gathered _ _ => false
  | .opened _ _ => false
  | .terminated => false
  | _ => true

theorem Fate.emptyHanded {labels : List Label} {s : State} (free : s.phase.emptyHanded = true)
    (spared : ¬Doomed cfg labels) : Fate cfg labels s := by
  refine ⟨?_, fun here => ?_, fun here => ?_, fun here => ?_⟩
  · apply iff_of_false _ spared
    intro here
    rw [here] at free
    cases free
  · rw [here] at free
    cases free
  · rw [here] at free
    cases free
  · rw [here] at free
    cases free

theorem Fate.moved {labels : List Label} {label : Label} {s next : State}
    (fate : Fate cfg labels s) (gather : label ≠ .gather) (dump : label ≠ .dump)
    (alive : s.phase ≠ .terminated) (free : next.phase.emptyHanded = true) :
    Fate cfg (labels ++ [label]) next := by
  apply Fate.emptyHanded free
  intro doomed
  exact alive (fate.terminated.mpr (doomed.back gather dump))

theorem Fate.gather {labels : List Label} {s : State} {reading : Reading} {stats : Json}
    (writable : stats.Writable ↔ ¬ShowsIllegible cfg labels) :
    Fate cfg (labels ++ [.gather]) { s with phase := .gathered reading stats } := by
  refine ⟨iff_of_false nofun (not_doomed_gather labels), ?_, nofun, nofun⟩
  rintro other held ⟨⟩
  exact ⟨labels, [], ⟨rfl, List.not_mem_nil⟩, List.not_mem_nil, writable⟩

def Phase.asking : Phase → Bool
  | .received _ _ => true
  | .active _ _ _ => true
  | _ => false

theorem enabled_run {opened : Nat → Bool} {clock : Int} {file : Bytes} {labels : List Label}
    {s : State} (run : Run (Step cfg) (initial cfg opened clock file) labels s) :
    s.phase.asking = true → cfg.hasNetwork = true := by
  refine run.invariant (fun _ s => s.phase.asking = true → cfg.hasNetwork = true)
    (fun asking => by cases asking) ?_
  intro labels s label next _ inv step
  cases step with
  | network => exact inv
  | heard => exact inv
  | httpLine => exact inv
  | line => exact inv
  | receive here enabled => exact fun _ => enabled
  | active here => exact fun _ => inv (by rw [here]; rfl)
  | _ => rintro ⟨⟩

theorem fate_run (strict : ∀ json, (cfg.dump json).isSome ↔ json.Writable)
    {opened : Nat → Bool} {clock : Int} {file : Bytes} {labels : List Label} {s : State}
    (run : Run (Step cfg) (initial cfg opened clock file) labels s) :
    .tornGather ∉ labels → Fate cfg labels s := by
  refine run.invariant (fun labels s => .tornGather ∉ labels → Fate cfg labels s) ?_ ?_
  · intro _
    apply Fate.emptyHanded rfl
    rintro ⟨earlier, later, last, -⟩
    have shape := last.shape
    simp at shape
  intro labels s label next run ih step whole
  have fate := ih fun torn => whole (List.mem_append_left _ torn)
  have consistent := consistent_run run
  cases step with
  | network alive => exact fate.others nofun nofun alive rfl rfl
  | heard alive => exact fate.others nofun nofun alive rfl rfl
  | httpLine alive => exact fate.others nofun nofun alive rfl rfl
  | line alive => exact fate.others nofun nofun alive rfl rfl
  | nap here => exact fate.moved nofun nofun (by simp [here]) rfl
  | time here => exact fate.moved nofun nofun (by simp [here]) rfl
  | count here => exact fate.moved nofun nofun (by simp [here]) rfl
  | figure figures here => exact fate.moved nofun nofun (by simp [here]) rfl
  | receive here => exact fate.moved nofun nofun (by simp [here]) rfl
  | active here => exact fate.moved nofun nofun (by simp [here]) rfl
  | notOpened here => exact fate.moved nofun nofun (by simp [here]) rfl
  | save here => exact fate.moved nofun nofun (by simp [here]) rfl
  | @gather reading totalNetworkLines activeConnections here =>
    have enabled := enabled_run run (by rw [here]; rfl)
    apply Fate.gather
    rw [stats_writable, ← legible_iff consistent enabled]
    simp only [Option.some.injEq, forall_eq']
  | tornGather => exact absurd (List.mem_append_right _ (List.mem_singleton_self _)) whole
  | gatherAlone here disabled =>
    apply Fate.gather
    rw [stats_writable]
    apply iff_of_true nofun
    rintro ⟨enabled, -⟩
    rw [disabled] at enabled
    cases enabled
  | @openFile reading stats here =>
    refine ⟨iff_of_false nofun ?_, nofun, ?_, nofun⟩
    · intro doomed
      have gone := fate.terminated.mpr (doomed.back nofun nofun)
      rw [here] at gone
      cases gone
    · rintro other held ⟨⟩
      exact ⟨(fate.gathered here).snoc nofun nofun, rfl⟩
  | @dump reading stats bytes written here dumped =>
    apply Fate.emptyHanded rfl
    rw [(fate.opened here).1.doomed_iff, not_not, ← strict, dumped]
    rfl
  | @terminate reading stats here thrown =>
    obtain ⟨inHand, empty⟩ := fate.opened here
    refine ⟨iff_of_true rfl ?_, nofun, nofun, fun _ => empty⟩
    rw [inHand.doomed_iff, ← strict, thrown]
    simp

end Gathered

section Fatal

/-- A step of the stats thread that needs no other. -/
def isOwn : Label → Bool
  | .network _ => false
  | .heard _ _ => false
  | .tornGather => false
  | .httpLine => false
  | .line => false
  | _ => true

def Reaches (cfg : Config) (goal : State → Prop) (s : State) : Prop :=
  ∃ labels final, Run (Step cfg) s labels final ∧ (∀ label ∈ labels, isOwn label = true) ∧
    goal final

theorem Reaches.now {goal : State → Prop} {s : State} (here : goal s) : Reaches cfg goal s :=
  ⟨[], s, .refl, by simp, here⟩

theorem Reaches.step {goal : State → Prop} {s next : State} {label : Label}
    (step : Step cfg s label next) (own : isOwn label = true) (rest : Reaches cfg goal next) :
    Reaches cfg goal s := by
  obtain ⟨labels, final, run, ownToo, there⟩ := rest
  refine ⟨[label] ++ labels, final, (Run.single step).trans run, fun other listed => ?_, there⟩
  rcases List.mem_append.mp listed with first | later
  · rwa [List.mem_singleton.mp first]
  · exact ownToo other later

theorem Reaches.trans {goal further : State → Prop} {s : State} (reaches : Reaches cfg goal s)
    (rest : ∀ middle, goal middle → Reaches cfg further middle) : Reaches cfg further s := by
  obtain ⟨labels, middle, first, own, there⟩ := reaches
  obtain ⟨more, final, second, ownToo, goal⟩ := rest middle there
  refine ⟨labels ++ more, final, first.trans second, fun label listed => ?_, goal⟩
  rcases List.mem_append.mp listed with before | after
  · exact own label before
  · exact ownToo label after

def someFigures : Figures where
  timestamp := []
  totalMatched := 0
  avgLatencyUs := 0
  severityCount := fun _ => 0
  totalAlerts := 0
  rules := []
  legible := by decide +kernel

/-- The thread is about to read the time, or the process is gone. -/
def Rested (connections : ConnectionTracking.State) (s : State) : Prop :=
  s.phase = .terminated ∨ s.phase = .sleeping 0 ∧ s.connections = connections

variable {connections : ConnectionTracking.State}

theorem naps_run {left : Nat} {s : State} (here : s.phase = .sleeping left) :
    Run (Step cfg) s (List.replicate left .nap) { s with
      clock := s.clock + left * 100000000
      phase := .sleeping 0 } := by
  induction left generalizing s with
  | zero =>
    have same : { s with
        clock := s.clock + (0 : Nat) * 100000000
        phase := .sleeping 0 } = s := by
      cases s
      simp only [State.mk.injEq] at here ⊢
      simp [here]
    rw [same]
    exact .refl
  | succ left ih =>
    have nap := @Step.nap cfg _ _ _ here (Int.le_refl _)
    have rest := (Run.single nap).trans (ih rfl)
    have later : s.clock + 100000000 + left * 100000000 =
        s.clock + (left + 1 : Nat) * 100000000 := by omega
    rw [← later]
    exact rest

theorem reaches_sleeping {left : Nat} {s : State} (here : s.phase = .sleeping left)
    (same : s.connections = connections) : Reaches cfg (Rested connections) s := by
  refine ⟨List.replicate left .nap, _, naps_run here, fun label listed => ?_, .inr ⟨rfl, same⟩⟩
  rw [List.eq_of_mem_replicate listed]
  rfl

theorem reaches_written {reading : Reading} {s : State} (here : s.phase = .written reading)
    (same : s.connections = connections) : Reaches cfg (Rested connections) s := by
  apply Reaches.step (.save here) rfl
  exact reaches_sleeping rfl same

theorem reaches_gathered {reading : Reading} {stats : Json} {s : State}
    (here : s.phase = .gathered reading stats) (same : s.connections = connections) :
    Reaches cfg (Rested connections) s := by
  apply Reaches.step (.notOpened here) rfl
  exact reaches_written rfl same

theorem reaches_opened {reading : Reading} {stats : Json} {s : State}
    (here : s.phase = .opened reading stats) (same : s.connections = connections) :
    Reaches cfg (Rested connections) s := by
  cases dumped : cfg.dump stats with
  | none =>
    apply Reaches.step (.terminate here dumped) rfl
    exact .now (.inl rfl)
  | some bytes =>
    apply Reaches.step (.dump here dumped List.nil_prefix) rfl
    exact reaches_written rfl same

theorem reaches_active {reading : Reading} {totalNetworkLines : UInt64} {activeConnections : Nat}
    {s : State} (here : s.phase = .active reading totalNetworkLines activeConnections)
    (same : s.connections = connections) : Reaches cfg (Rested connections) s := by
  apply Reaches.step (.gather here) rfl
  exact reaches_gathered rfl same

theorem reaches_received {reading : Reading} {totalNetworkLines : UInt64} {s : State}
    (here : s.phase = .received reading totalNetworkLines) (same : s.connections = connections) :
    Reaches cfg (Rested connections) s := by
  apply Reaches.step (.active here) rfl
  exact reaches_active rfl same

theorem reaches_figured (enabled : cfg.hasNetwork = true) {reading : Reading} {s : State}
    (here : s.phase = .figured reading) (same : s.connections = connections) :
    Reaches cfg (Rested connections) s := by
  apply Reaches.step (.receive here enabled) rfl
  exact reaches_received rfl same

theorem reaches_counted (enabled : cfg.hasNetwork = true) {now : Int} {currentLines : UInt64}
    {s : State} (here : s.phase = .counted now currentLines) (same : s.connections = connections) :
    Reaches cfg (Rested connections) s := by
  apply Reaches.step (.figure someFigures here) rfl
  exact reaches_figured enabled rfl same

theorem reaches_rested (enabled : cfg.hasNetwork = true) (s : State) :
    Reaches cfg (Rested s.connections) s := by
  cases here : s.phase with
  | sleeping left => exact reaches_sleeping here rfl
  | timed now =>
    apply Reaches.step (.count here) rfl
    exact reaches_counted enabled rfl rfl
  | counted now currentLines => exact reaches_counted enabled here rfl
  | figured reading => exact reaches_figured enabled here rfl
  | received reading totalNetworkLines => exact reaches_received here rfl
  | active reading totalNetworkLines activeConnections => exact reaches_active here rfl
  | gathered reading stats => exact reaches_gathered here rfl
  | opened reading stats => exact reaches_opened here rfl
  | written reading => exact reaches_written here rfl
  | terminated => exact .now (.inl here)

theorem reaches_terminated (strict : ∀ json, (cfg.dump json).isSome ↔ json.Writable)
    (enabled : cfg.hasNetwork = true) {s : State} (rested : Rested connections s)
    (broken : ¬∀ connection ∈ connections.getConnections, Utf8 connection.1) :
    Reaches cfg (fun final => final.phase = .terminated) s := by
  rcases rested with gone | ⟨here, rfl⟩
  · exact .now gone
  apply Reaches.step (.time here (Int.le_refl _)) rfl
  apply Reaches.step (.count rfl) rfl
  apply Reaches.step (.figure someFigures rfl) rfl
  apply Reaches.step (.receive rfl enabled) rfl
  apply Reaches.step (.active rfl) rfl
  apply Reaches.step (.gather rfl) rfl
  apply Reaches.step (.openFile rfl) rfl
  refine .step (.terminate rfl ?_) rfl (.now rfl)
  rw [Option.eq_none_iff_forall_ne_some]
  intro bytes dumped
  apply broken
  have writable := (strict _).mp (Option.isSome_iff_exists.mpr ⟨bytes, dumped⟩)
  exact (stats_writable _ _).mp writable _ rfl

/-- After such a line the stats thread need only go on. -/
theorem heard_reaches (strict : ∀ json, (cfg.dump json).isSome ↔ json.Writable)
    (enabled : cfg.hasNetwork = true) {opened : Nat → Bool} {clock : Int} {file : Bytes}
    {labels : List Label} {s next : State}
    (run : Run (Step cfg) (initial cfg opened clock file) labels s) {i : Nat} {client : Client}
    (known : s.connections.clients[i]? = some client) (running : client.phase = .running)
    {line : Bytes} (broken : ¬Utf8 (splitTcpLine line).1)
    (heard : Step cfg s (.heard i line) next) :
    Reaches cfg (fun final => final.phase = .terminated) next := by
  have consistent := consistent_run (run.snoc heard)
  have named : lastName i (labels ++ [.heard i line]) = some (splitTcpLine line).1 := by
    rw [lastName_heard, if_neg]
    intro unnamed
    rw [unnamed] at broken
    exact broken (by decide +kernel)
  have illegible : ¬∀ connection ∈ next.connections.getConnections, Utf8 connection.1 := by
    rw [getConnections_utf8 consistent]
    intro legible
    obtain ⟨moves, network, marks⟩ := (consistent_run run).run
    have tracked := (ConnectionTracking.tracked_run network i).mp
      ⟨client, known, by rw [running]; rfl⟩
    have inserted : .network (.inserted i) ∈ labels := (marks i).1.mp tracked.1
    have unerased : .network (.erased i) ∉ labels := fun gone => tracked.2 ((marks i).2.mpr gone)
    exact broken (legible i (by simp [inserted]) (by simp [unerased]) _ named)
  apply (reaches_rested enabled next).trans
  intro middle rested
  exact reaches_terminated strict enabled rested illegible

theorem hears {s : State} (alive : s.phase ≠ .terminated) {i : Nat} {client : Client}
    (known : s.connections.clients[i]? = some client) (running : client.phase = .running)
    {line : Bytes} (broken : ¬Utf8 (splitTcpLine line).1) :
    ∃ next, Step cfg s (.heard i line) next := by
  have spoken : line ≠ [] := by
    rintro rfl
    exact broken (by decide +kernel)
  have made : tcpClientEntry client.connId line 0 client.info.linesReceived = some _ :=
    if_neg spoken
  exact ⟨_, .heard alive known running made⟩

theorem connected_run (cfg : Config) : ∃ labels s,
    Run (Step cfg) (initial cfg (fun _ => false) 0 []) labels s ∧ .tornGather ∉ labels ∧
      s.phase = .sleeping cfg.naps ∧
      ∃ client, s.connections.clients[0]? = some client ∧ client.phase = .running := by
  have accepted := Run.single (@Step.network cfg (initial cfg (fun _ => false) 0 []) _ _ nofun rfl
    (@ConnectionTracking.Step.accepted _ 4 rfl rfl))
  have inserted := accepted.snoc (.network nofun rfl (.inserted rfl rfl))
  have queued := inserted.snoc (.network nofun rfl
    (@ConnectionTracking.Step.enqueued _ _ _ true rfl rfl))
  have started := queued.snoc (.network nofun rfl (@ConnectionTracking.Step.started _ 0 _ rfl rfl))
  exact ⟨_, _, started, by simp, rfl, _, rfl, rfl⟩

end Fatal

/-- Where no name is assigned while it is copied, the process is gone, with `stats.json` empty,
exactly if the last snapshot came to be dumped although a client that was connected when it was
gathered had last named a service that is not UTF-8. -/
theorem terminated_iff (strict : ∀ json, (cfg.dump json).isSome ↔ json.Writable)
    {opened : Nat → Bool} {clock : Int} {file : Bytes} {labels : List Label} {s : State}
    (run : Run (Step cfg) (initial cfg opened clock file) labels s)
    (whole : .tornGather ∉ labels) :
    (s.phase = .terminated ↔ ∃ earlier later, labels = earlier ++ .gather :: later ∧
      .gather ∉ later ∧ .dump ∈ later ∧ ShowsIllegible cfg earlier) ∧
    (s.phase = .terminated → s.file = []) := by
  have fate := fate_run strict run whole
  refine ⟨fate.terminated.trans ?_, fate.emptied⟩
  constructor
  · rintro ⟨earlier, later, last, dumped, broken⟩
    exact ⟨earlier, later, last.shape, last.last, dumped, broken⟩
  · rintro ⟨earlier, later, shape, last, dumped, broken⟩
    exact ⟨earlier, later, ⟨shape, last⟩, dumped, broken⟩

/-- The client names the service 0xFF, and the next snapshot ends the process. -/
theorem terminated_iff_connected : ∃ dump labels s,
    Run (Step ⟨true, 5, dump⟩) (initial ⟨true, 5, dump⟩ (fun _ => false) 0 []) labels s ∧
      (∃ earlier later, labels = earlier ++ .gather :: later ∧ .gather ∉ later ∧ .dump ∈ later ∧
        ShowsIllegible ⟨true, 5, dump⟩ earlier) ∧ s.file = [] := by
  obtain ⟨dump, parse, form, -⟩ := Json.TextForm.exists_writing (Json.writable_integer 0) []
  obtain ⟨labels, s, run, alone, awake, client, known, running⟩ := connected_run ⟨true, 5, dump⟩
  have broken : ¬Utf8 (splitTcpLine [255, 124]).1 := by decide +kernel
  obtain ⟨next, heard⟩ := hears (by simp [awake]) known running broken
  obtain ⟨more, final, rest, own, gone⟩ :=
    heard_reaches form.strict rfl run known running broken heard
  have both := (run.snoc heard).trans rest
  have whole : .tornGather ∉ labels ++ [.heard 0 [255, 124]] ++ more := by
    simp only [List.mem_append, List.mem_singleton, reduceCtorEq, or_false, not_or]
    exact ⟨alone, fun torn => Bool.false_ne_true (own _ torn)⟩
  have fate := terminated_iff form.strict both whole
  exact ⟨dump, _, final, both, fate.1.mp gone, fate.2 gone⟩

/-- Whatever the state of the process is, a line of any client that a handler listens to ends it
if its first field is not UTF-8: the stats thread need only go on, and nobody else has to do
anything. -/
theorem fatal_line (strict : ∀ json, (cfg.dump json).isSome ↔ json.Writable)
    (enabled : cfg.hasNetwork = true) {opened : Nat → Bool} {clock : Int} {file : Bytes}
    {labels : List Label} {s : State}
    (run : Run (Step cfg) (initial cfg opened clock file) labels s)
    (alive : s.phase ≠ .terminated) {i : Nat} {client : Client}
    (known : s.connections.clients[i]? = some client) (running : client.phase = .running)
    {line : Bytes} (broken : ¬Utf8 (splitTcpLine line).1) :
    (∃ next, Step cfg s (.heard i line) next) ∧ ∀ next, Step cfg s (.heard i line) next →
      ∃ more final, Run (Step cfg) next more final ∧ (∀ label ∈ more, isOwn label = true) ∧
        final.phase = .terminated :=
  ⟨hears alive known running broken,
    fun _ heard => heard_reaches strict enabled run known running broken heard⟩

theorem fatal_line_connected : ∃ dump labels s,
    Run (Step ⟨true, 5, dump⟩) (initial ⟨true, 5, dump⟩ (fun _ => false) 0 []) labels s ∧
      s.phase = .terminated := by
  obtain ⟨dump, parse, form, -⟩ := Json.TextForm.exists_writing (Json.writable_integer 0) []
  obtain ⟨labels, s, run, -, awake, client, known, running⟩ := connected_run ⟨true, 5, dump⟩
  have broken : ¬Utf8 (splitTcpLine [255, 124]).1 := by decide +kernel
  obtain ⟨⟨next, heard⟩, fatal⟩ :=
    fatal_line form.strict rfl run (by simp [awake]) known running broken
  obtain ⟨more, final, rest, -, gone⟩ := fatal next heard
  exact ⟨dump, _, final, (run.snoc heard).trans rest, gone⟩

end LogMonitor.StatsAggregator
