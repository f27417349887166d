import LogMonitor.Library.ByteString

/-!
The log entry that flows through the pipeline, and the three places that build
one and push it until the ring buffer takes it: the file watcher, the TCP
handler and the `lines` branch of the HTTP handler.
-/

namespace LogMonitor
open Library.ByteString

structure LogEntry where
  line : Bytes
  source : Bytes
  serviceName : Bytes
  /-- Ticks of the steady clock. -/
  timestamp : Int
  lineNumber : UInt64
deriving DecidableEq

/-- What is left in a variable after `std::move`: the strings are empty, the numbers stay. -/
def LogEntry.movedFrom (entry : LogEntry) : LogEntry :=
  { entry with line := [], source := [], serviceName := [] }

theorem LogEntry.movedFrom_ne {entry : LogEntry} (named : entry.line ≠ [] ∨ entry.source ≠ []) :
    entry.movedFrom ≠ entry := by
  intro same
  rcases named with line | source
  · exact line (congrArg LogEntry.line same).symm
  · exact source (congrArg LogEntry.source same).symm

/-- The decimal digits of a number, as `std::to_string` writes them. -/
def toDecimal (n : Nat) : Bytes := text (toString n)

theorem toDecimal_inj {m n : Nat} : toDecimal m = toDecimal n ↔ m = n := by
  constructor
  · intro same
    have read := congrArg decimal same
    rwa [toDecimal, toDecimal, decimal_toString, decimal_toString] at read
  · rintro rfl
    rfl

/-- The body of the loop of `FileWatcher::read_new_lines` up to the push: an empty line is
skipped, `linesRead` is the counter before its increment. -/
def readNewLinesEntry (filePath line : Bytes) (now : Int) (linesRead : UInt64) : Option LogEntry :=
  if line = [] then none
  else some {
    line := line
    source := filePath
    serviceName := []
    timestamp := now
    lineNumber := linesRead + 1 }

/-- `handle_tcp_client` splits `service|severity|message`; the parts before the message are
optional. -/
def splitTcpLine (line : Bytes) : Bytes × Bytes :=
  match find (text "|") line 0 with
  | none => ([], line)
  | some firstPipe =>
    match find (text "|") line (firstPipe + 1) with
    | some secondPipe => (line.take firstPipe, line.drop (secondPipe + 1))
    | none => (line.take firstPipe, line.drop (firstPipe + 1))

/-- The identifier `run_tcp_server` gives the connection on the descriptor `fd`. -/
def connId (fd : Nat) : Bytes := text "tcp:" ++ toDecimal fd

/-- The body of the loop of `handle_tcp_client` up to the push: an empty line ends the loop. -/
def tcpClientEntry (connection line : Bytes) (now : Int) (linesReceived : UInt64) :
    Option LogEntry :=
  if line = [] then none
  else some {
    line := (splitTcpLine line).2
    source := connection
    serviceName := (splitTcpLine line).1
    timestamp := now
    lineNumber := linesReceived + 1 }

/-- The body of the loop over `lines` in the ingester's `handle_ingest` up to the push. -/
def httpLineEntry (service line : Bytes) (now : Int) (totalNetworkLines : UInt64) : LogEntry where
  line := line
  source := text "http:" ++ service
  serviceName := service
  timestamp := now
  lineNumber := totalNetworkLines + 1

example : splitTcpLine (text "auth|ERROR|a|b") = (text "auth", text "a|b") := by decide

inductive Built : LogEntry → Prop
  | file {filePath line : Bytes} {now : Int} {linesRead : UInt64} {entry : LogEntry}
      (built : readNewLinesEntry filePath line now linesRead = some entry) : Built entry
  | tcp {fd : Nat} {line : Bytes} {now : Int} {linesReceived : UInt64} {entry : LogEntry}
      (built : tcpClientEntry (connId fd) line now linesReceived = some entry) : Built entry
  | http (service line : Bytes) (now : Int) (totalNetworkLines : UInt64) :
      Built (httpLineEntry service line now totalNetworkLines)

theorem Built.movedFrom_ne {entry : LogEntry} (built : Built entry) : entry.movedFrom ≠ entry := by
  apply LogEntry.movedFrom_ne
  cases built with
  | @file _ line _ _ _ built =>
    by_cases empty : line = []
    · simp [readNewLinesEntry, empty] at built
    · simp only [readNewLinesEntry, if_neg empty, Option.some.injEq] at built
      exact .inl (built ▸ empty)
  | @tcp _ line _ _ _ built =>
    by_cases empty : line = []
    · simp [tcpClientEntry, empty] at built
    · simp only [tcpClientEntry, if_neg empty, Option.some.injEq] at built
      right
      simp [← built, connId, text]
  | http service line now total => right; simp [httpLineEntry, text]

end LogMonitor
