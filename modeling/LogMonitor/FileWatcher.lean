import LogMonitor.Library.FileStream
import LogMonitor.Library.Transition
import LogMonitor.LogEntry

/-!
The watcher of a log file. It reads to the end of the file in passes of
`read_new_lines` and pushes every line it reads; others append to the file
between any two of its steps. The file is there when the watcher starts.
-/

namespace LogMonitor.FileWatcher
open Library Library.ByteString Library.Transition

inductive Point where
  /-- `run` has sought the end of the file and told nothing yet. -/
  | sought
  | told
  /-- Between two passes. -/
  | idle
  /-- The size of the file was compared with the last one. -/
  | sized
  /-- At the condition of the loop. -/
  | reading
  | pushing (entry : LogEntry)
  /-- The loop has ended. -/
  | ended
  /-- `tellg` has failed. -/
  | failed
  | cleared
  | atEnd
  | stopped

structure State where
  content : Bytes
  file : FileStream
  /-- `-1` is the position `tellg` gives on a failure. -/
  lastPos : Int
  lastSize : Nat
  linesRead : UInt64
  stopFlag : Bool
  point : Point
  /-- What the ring buffer took, oldest first. -/
  pushed : List LogEntry

/-- The file as the watcher opens it and seeks its end. -/
def initial (content : Bytes) : State where
  content := content
  file := ⟨content.length, false, false⟩
  lastPos := 0
  lastSize := 0
  linesRead := 0
  stopFlag := false
  point := .sought
  pushed := []

def State.tellStart (s : State) : State :=
  let (file, lastPos) := s.file.tellg
  { s with file := file, lastPos := lastPos, point := .told }

def State.sizeStart (s : State) : State := { s with lastSize := s.content.length, point := .idle }

/-- A file that is smaller than before is read from its beginning. -/
def State.checkSize (s : State) : State :=
  let currentSize := s.content.length
  let s := if currentSize < s.lastSize then { s with file := s.file.clear.seekg 0, lastPos := 0 } else s
  { s with lastSize := currentSize, point := .sized }

def State.rewind (s : State) : State :=
  { s with file := s.file.clear.seekg s.lastPos, point := .reading }

/-- The condition of the loop and its body up to the push. -/
def State.getline (filePath : Bytes) (s : State) (now : Int) : State :=
  match s.file.getline s.content with
  | (file, none) => { s with file := file, point := .ended }
  | (file, some line) =>
    match readNewLinesEntry filePath line now s.linesRead with
    | none => { s with file := file, point := .reading }
    | some entry =>
      { s with file := file, linesRead := s.linesRead + 1, point := .pushing entry }

/-- `try_push` takes its argument by value, so the variable is moved from in any case. -/
def State.tryPush (s : State) (entry : LogEntry) (accepted : Bool) : State :=
  if accepted then { s with pushed := s.pushed ++ [entry], point := .reading }
  else if s.stopFlag then { s with point := .stopped }
  else { s with point := .pushing entry.movedFrom }

def State.tell (s : State) : State :=
  let (file, lastPos) := s.file.tellg
  { s with file := file, lastPos := lastPos, point := if lastPos = -1 then .failed else .idle }

def State.clear (s : State) : State := { s with file := s.file.clear, point := .cleared }

def State.seekEnd (s : State) : State :=
  { s with file := s.file.seekEnd s.content.length, point := .atEnd }

def State.tellEnd (s : State) : State :=
  let (file, lastPos) := s.file.tellg
  { s with file := file, lastPos := lastPos, point := .idle }

inductive Label where
  /-- Someone appends to the file. -/
  | append (bytes : Bytes)
  | tellStart
  | sizeStart
  | checkSize
  | rewind
  | getline (now : Int)
  | tryPush (accepted : Bool)
  | tell
  | clear
  | seekEnd
  | tellEnd
  | stop
  /-- The loop of `run` sees the stop flag. -/
  | quit

inductive Step (filePath : Bytes) : State → Label → State → Prop
  | append (s : State) (bytes : Bytes) :
      Step filePath s (.append bytes) { s with content := s.content ++ bytes }
  | tellStart {s : State} (here : s.point = .sought) : Step filePath s .tellStart s.tellStart
  | sizeStart {s : State} (here : s.point = .told) : Step filePath s .sizeStart s.sizeStart
  | checkSize {s : State} (here : s.point = .idle) : Step filePath s .checkSize s.checkSize
  | rewind {s : State} (here : s.point = .sized) : Step filePath s .rewind s.rewind
  | getline {s : State} (now : Int) (here : s.point = .reading) :
      Step filePath s (.getline now) (s.getline filePath now)
  | tryPush {s : State} {entry : LogEntry} (accepted : Bool) (here : s.point = .pushing entry) :
      Step filePath s (.tryPush accepted) (s.tryPush entry accepted)
  | tell {s : State} (here : s.point = .ended) : Step filePath s .tell s.tell
  | clear {s : State} (here : s.point = .failed) : Step filePath s .clear s.clear
  | seekEnd {s : State} (here : s.point = .cleared) : Step filePath s .seekEnd s.seekEnd
  | tellEnd {s : State} (here : s.point = .atEnd) : Step filePath s .tellEnd s.tellEnd
  | stop (s : State) : Step filePath s .stop { s with stopFlag := true }
  | quit {s : State} (here : s.point = .idle) (flag : s.stopFlag = true) :
      Step filePath s .quit { s with point := .stopped }

end LogMonitor.FileWatcher
