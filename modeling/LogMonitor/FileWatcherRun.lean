import LogMonitor.FileWatcher
import LogMonitor.Library.LineReader

/-!
What the watcher delivers, against the reader that follows a growing list of
bytes. Each line is pushed once and whole if and only if nobody goes on with a
line that was read in half, nobody begins one between the end of a pass and its
last seek, and the ring buffer takes every entry.
-/

namespace LogMonitor.FileWatcher
open Library Library.ByteString Library.Transition Library.Lines Library.LineReader
open Library.FileStream

/-- The position the next read begins at, as far as it is known. -/
def State.position (s : State) : Nat :=
  match s.point with
  | .told | .idle | .sized => s.lastPos.toNat
  | _ => s.file.pos

/-- The pass has met the end of the file and not yet sought it again. -/
def State.pastEnd (s : State) : Bool :=
  match s.point with
  | .reading | .pushing _ => s.file.eof
  | .ended | .failed | .cleared => true
  | _ => false

def State.inFlight (s : State) : List Bytes :=
  match s.point with
  | .pushing entry => [entry.line]
  | _ => []

def State.view (start : Nat) (s : State) : View UInt8 where
  taken := (s.content.take s.position).drop start
  rest := s.content.drop s.position
  pieces := s.pushed.map LogEntry.line ++ s.inFlight
  pastEnd := s.pastEnd

/-- Nothing but ends of lines is appended while a pass is past the end of the file, what is
appended after half a line was read begins with the line's end, and the ring buffer takes the
entry. -/
def Label.Safe (start : Nat) (s : State) : Label → Prop
  | .append bytes => (s.view start).Fits newline bytes
  | .tryPush accepted => accepted = true
  | _ => True

def appended : List Label → Bytes
  | [] => []
  | .append bytes :: rest => bytes ++ appended rest
  | _ :: rest => appended rest

def State.Ready (s : State) : Prop :=
  match s.point with
  | .sought | .cleared | .atEnd => s.file.good = true
  | .told | .idle | .sized => 0 ≤ s.lastPos
  | .reading | .pushing _ => s.file.fail = false
  | .ended => s.file.fail = true
  | .failed | .stopped => True

structure Steady (start : Nat) (s : State) : Prop where
  started : start ≤ s.position
  inside : s.position ≤ s.content.length
  size : s.lastSize ≤ s.content.length
  ready : s.Ready

theorem steady_initial (before : Bytes) : Steady before.length (initial before) :=
  ⟨Nat.le_refl _, Nat.le_refl _, Nat.zero_le _, rfl⟩

theorem view_initial (before : Bytes) : (initial before).view before.length = View.start := by
  simp [State.view, State.position, State.inFlight, State.pastEnd, initial, View.start]

structure Harmless (start : Nat) (s next : State) : Prop where
  steady : Steady start next
  moves : Moves newline (s.view start) (next.view start)

section Moves

variable {start : Nat} {s next : State}

theorem Steady.stay (steady : Steady start s) (content : next.content = s.content)
    (position : next.position = s.position) (size : next.lastSize ≤ s.content.length)
    (ready : next.Ready) (keeps : s.pastEnd = true → next.pastEnd = true)
    (ended : next.pastEnd = true → s.pastEnd = true ∨ (s.view start).rest = [])
    (lines : next.pushed.map LogEntry.line ++ next.inFlight =
      s.pushed.map LogEntry.line ++ s.inFlight) : Harmless start s next := by
  have view : next.view start = { s.view start with pastEnd := next.pastEnd } := by
    simp only [State.view, content, position, lines]
  refine ⟨⟨?_, ?_, ?_, ready⟩, ?_⟩
  · rw [position]
    exact steady.started
  · rw [position, content]
    exact steady.inside
  · rwa [content]
  · rw [view]
    exact .stay keeps ended

theorem Steady.moved (steady : Steady start s) {chunk more : Bytes}
    (split : (s.view start).rest = chunk ++ more) (content : next.content = s.content)
    (position : next.position = s.position + chunk.length) :
    (next.view start).taken = (s.view start).taken ++ chunk ∧ (next.view start).rest = more ∧
      next.position ≤ next.content.length := by
  have rest : s.content.drop s.position = chunk ++ more := split
  have prefix_eq : s.content.take (s.position + chunk.length) =
      s.content.take s.position ++ chunk := by
    rw [List.take_add, rest, List.take_left]
  have long : start ≤ (s.content.take s.position).length := by
    rw [List.length_take, Nat.min_eq_left steady.inside]
    exact steady.started
  refine ⟨?_, ?_, ?_⟩
  · simp only [State.view, content, position, prefix_eq]
    exact List.drop_append_of_le_length long
  · simp only [State.view, content, position]
    rw [← List.drop_drop, rest, List.drop_left]
  · have length := congrArg List.length rest
    rw [List.length_drop, List.length_append] at length
    have inside := steady.inside
    rw [position, content]
    omega

theorem Steady.move (steady : Steady start s) {chunk more : Bytes}
    (split : (s.view start).rest = chunk ++ more) (content : next.content = s.content)
    (position : next.position = s.position + chunk.length) (size : next.lastSize ≤ s.content.length)
    (ready : next.Ready) (before : s.pastEnd = false) (some : chunk ≠ [])
    (whole : AtStart newline chunk ∨ more = []) (ended : next.pastEnd = true → more = [])
    (lines : next.pushed.map LogEntry.line ++ next.inFlight =
      s.pushed.map LogEntry.line ++ s.inFlight ++ filled newline chunk) :
    Harmless start s next := by
  obtain ⟨taken, rest, inside⟩ := steady.moved split content position
  have view : next.view start = ⟨(s.view start).taken ++ chunk, more,
      (s.view start).pieces ++ filled newline chunk, next.pastEnd⟩ := by
    rw [← taken, ← rest]
    simp only [State.view, lines]
  refine ⟨⟨?_, inside, by rwa [content], ready⟩, ?_⟩
  · rw [position]
    exact Nat.le_add_right_of_le steady.started
  · rw [view]
    exact .read before split some whole ended

/-- Where the file is, is kept for the next pass. -/
theorem Steady.keepPlace {point : Point} (steady : Steady start s)
    (here : s.point = .sought ∨ s.point = .atEnd) (next : point = .told ∨ point = .idle) :
    Harmless start s { s with lastPos := s.file.pos, point := point } := by
  apply steady.stay
  · rfl
  · rcases next with rfl | rfl <;> rcases here with here | here <;> simp [State.position, here]
  · exact steady.size
  · rcases next with rfl | rfl <;> exact Int.natCast_nonneg _
  · rcases here with here | here <;> simp [State.pastEnd, here]
  · rcases next with rfl | rfl <;> exact nofun
  · rcases next with rfl | rfl <;> rcases here with here | here <;> simp [State.inFlight, here]

theorem Steady.tellStart (steady : Steady start s) (here : s.point = .sought) :
    Harmless start s s.tellStart := by
  have ready := steady.ready
  simp only [State.Ready, here] at ready
  have told : s.tellStart = { s with lastPos := s.file.pos, point := .told } := by
    simp only [State.tellStart, tellg, ready, if_true]
  rw [told]
  exact steady.keepPlace (.inl here) (.inl rfl)

theorem Steady.sizeStart (steady : Steady start s) (here : s.point = .told) :
    Harmless start s s.sizeStart := by
  have ready := steady.ready
  simp only [State.Ready, here] at ready
  apply steady.stay
  · rfl
  · simp [State.position, State.sizeStart, here]
  · exact Nat.le_refl _
  · exact ready
  · simp [State.pastEnd, here]
  · exact nofun
  · simp [State.inFlight, State.sizeStart, here]

/-- A file that only grows is never taken for a new one. -/
theorem Steady.checkSize (steady : Steady start s) (here : s.point = .idle) :
    Harmless start s s.checkSize := by
  have ready := steady.ready
  simp only [State.Ready, here] at ready
  have grown : ¬s.content.length < s.lastSize := Nat.not_lt.mpr steady.size
  have checked : s.checkSize = { s with lastSize := s.content.length, point := .sized } := by
    simp only [State.checkSize, if_neg grown]
  rw [checked]
  apply steady.stay
  · rfl
  · simp [State.position, here]
  · exact Nat.le_refl _
  · exact ready
  · simp [State.pastEnd, here]
  · exact nofun
  · simp [State.inFlight, here]

theorem Steady.rewind (steady : Steady start s) (here : s.point = .sized) :
    Harmless start s s.rewind := by
  have ready := steady.ready
  simp only [State.Ready, here] at ready
  have sought : s.rewind = { s with file := ⟨s.lastPos.toNat, false, false⟩, point := .reading } := by
    simp [State.rewind, FileStream.clear, seekg, Int.not_lt.mpr ready]
  rw [sought]
  apply steady.stay
  · rfl
  · simp [State.position, here]
  · exact steady.size
  · rfl
  · simp [State.pastEnd, here]
  · exact nofun
  · simp [State.inFlight, here]

theorem readNewLinesEntry_line {filePath line : Bytes} {now : Int} {linesRead : UInt64}
    {entry : LogEntry} (built : readNewLinesEntry filePath line now linesRead = some entry) :
    line ≠ [] ∧ entry.line = line := by
  unfold readNewLinesEntry at built
  split at built
  next => simp at built
  next named =>
    obtain rfl := Option.some.inj built
    exact ⟨named, rfl⟩

theorem Steady.getline {filePath : Bytes} (steady : Steady start s) (here : s.point = .reading)
    (now : Int) : Harmless start s (s.getline filePath now) := by
  have sound := steady.ready
  simp only [State.Ready, here] at sound
  have position : s.position = s.file.pos := by simp only [State.position, here]
  have left : s.content.drop s.file.pos = (s.view start).rest := by rw [← position]; rfl
  have pastEnd : s.pastEnd = s.file.eof := by simp only [State.pastEnd, here]
  cases ended : s.file.eof with
  | true =>
    -- the line before had no end
    have failed : s.file.good = false := by simp [good, ended]
    simp only [State.getline, getline_of_not_good failed]
    apply steady.stay
    · rfl
    · simp [State.position, here]
    · exact steady.size
    · rfl
    · exact fun _ => rfl
    · exact fun _ => .inl (pastEnd.trans ended)
    · simp [State.inFlight, here]
  | false =>
    have ready : s.file.good = true := by simp [good, ended, sound]
    by_cases present : newline ∈ (s.view start).rest
    · obtain ⟨line, more, split, absent⟩ := List.eq_append_cons_of_mem present
      have read := getline_of_line ready absent (left.trans split)
      have chunk : (s.view start).rest = (line ++ [newline]) ++ more := by
        rw [split, List.append_assoc, List.singleton_append]
      have whole : AtStart newline (line ++ [newline]) := (atStart_concat line newline).mpr rfl
      have piece : filled newline (line ++ [newline]) = if line = [] then [] else [line] := by
        rw [filled_concat_sep, filled_of_not_mem absent]
      simp only [State.getline, read]
      cases built : readNewLinesEntry filePath line now s.linesRead with
      | none =>
        have empty : line = [] := by
          by_contra named
          simp [readNewLinesEntry, named] at built
        apply steady.move chunk
        · rfl
        · simp [State.position, here]
        · exact steady.size
        · exact sound
        · exact pastEnd.trans ended
        · simp
        · exact .inl whole
        · simp [State.pastEnd, ended]
        · rw [if_pos empty] at piece
          simp [State.inFlight, here, piece]
      | some entry =>
        obtain ⟨named, same⟩ := readNewLinesEntry_line built
        apply steady.move chunk
        · rfl
        · simp [State.position, here]
        · exact steady.size
        · exact sound
        · exact pastEnd.trans ended
        · simp
        · exact .inl whole
        · simp [State.pastEnd, ended]
        · simp [State.inFlight, here, piece, named, same]
    · have read := getline_of_tail ready present left
      by_cases empty : (s.view start).rest = []
      · rw [if_pos empty] at read
        simp only [State.getline, read]
        apply steady.stay
        · rfl
        · simp [State.position, here]
        · exact steady.size
        · rfl
        · exact fun _ => rfl
        · exact fun _ => .inr empty
        · simp [State.inFlight, here]
      · -- the line is read to the end of the file, whether or not it ends there
        rw [if_neg empty] at read
        have built : readNewLinesEntry filePath (s.view start).rest now s.linesRead =
            some ⟨(s.view start).rest, filePath, [], now, s.linesRead + 1⟩ := if_neg empty
        simp only [State.getline, read, built]
        apply steady.move (List.append_nil (s.view start).rest).symm
        · rfl
        · simp [State.position, here]
        · exact steady.size
        · exact sound
        · exact pastEnd.trans ended
        · exact empty
        · exact .inr rfl
        · exact fun _ => rfl
        · simp [State.inFlight, here, filled_of_not_mem present, empty]

theorem Steady.push (steady : Steady start s) {entry : LogEntry}
    (here : s.point = .pushing entry) : Harmless start s (s.tryPush entry true) := by
  have ready := steady.ready
  simp only [State.Ready, here] at ready
  have pastEnd : (s.tryPush entry true).pastEnd = s.pastEnd := by
    simp [State.pastEnd, State.tryPush, here]
  apply steady.stay
  · rfl
  · simp [State.position, State.tryPush, here]
  · exact steady.size
  · exact ready
  · exact fun before => pastEnd.trans before
  · exact fun now => .inl (pastEnd.symm.trans now)
  · simp [State.inFlight, State.tryPush, here]

theorem Steady.tell (steady : Steady start s) (here : s.point = .ended) :
    Harmless start s s.tell := by
  have ready := steady.ready
  simp only [State.Ready, here] at ready
  have failed : s.tell = { s with lastPos := -1, point := .failed } := by
    have file : { s.file with fail := true } = s.file := by rw [← ready]
    simp [State.tell, tellg, good, ready, file]
  rw [failed]
  apply steady.stay
  · rfl
  · simp [State.position, here]
  · exact steady.size
  · exact trivial
  · exact fun _ => rfl
  · exact fun _ => .inl (by simp [State.pastEnd, here])
  · simp [State.inFlight, here]

theorem Steady.clear (steady : Steady start s) (here : s.point = .failed) :
    Harmless start s s.clear := by
  apply steady.stay
  · rfl
  · simp [State.position, State.clear, FileStream.clear, here]
  · exact steady.size
  · rfl
  · exact fun _ => rfl
  · exact fun _ => .inl (by simp [State.pastEnd, here])
  · simp [State.inFlight, State.clear, here]

/-- What was appended since the end of the file was met is passed over. -/
theorem Steady.seekEnd (steady : Steady start s) (here : s.point = .cleared) :
    Harmless start s s.seekEnd := by
  have ready := steady.ready
  simp only [State.Ready, here] at ready
  have inside := steady.inside
  have length : (s.view start).rest.length = s.content.length - s.position := List.length_drop
  have sought : s.seekEnd = { s with file := ⟨s.content.length, false, false⟩, point := .atEnd } := by
    simp [State.seekEnd, FileStream.seekEnd, (good_iff.mp ready).2]
  rw [sought]
  let next : State := { s with file := ⟨s.content.length, false, false⟩, point := .atEnd }
  have position : next.position = s.position + (s.view start).rest.length := by
    change s.content.length = _
    omega
  obtain ⟨taken, rest, _⟩ :=
    steady.moved (List.append_nil (s.view start).rest).symm (rfl : next.content = s.content) position
  have view : next.view start =
      ⟨(s.view start).taken ++ (s.view start).rest, [], (s.view start).pieces, false⟩ := by
    rw [← taken, ← rest]
    simp [State.view, State.pastEnd, State.inFlight, here, next]
  refine ⟨⟨steady.started.trans inside, Nat.le_refl _, steady.size, rfl⟩, ?_⟩
  change Moves newline (s.view start) (next.view start)
  rw [view]
  exact .skip (by simp [State.view, State.pastEnd, here])

theorem Steady.tellEnd (steady : Steady start s) (here : s.point = .atEnd) :
    Harmless start s s.tellEnd := by
  have ready := steady.ready
  simp only [State.Ready, here] at ready
  have told : s.tellEnd = { s with lastPos := s.file.pos, point := .idle } := by
    simp only [State.tellEnd, tellg, ready, if_true]
  rw [told]
  exact steady.keepPlace (.inr here) (.inr rfl)

theorem Steady.stop (steady : Steady start s) : Harmless start s { s with stopFlag := true } :=
  ⟨⟨steady.started, steady.inside, steady.size, steady.ready⟩, .stay id .inl⟩

theorem view_append (steady : Steady start s) (bytes : Bytes) :
    State.view start { s with content := s.content ++ bytes } =
      { s.view start with rest := (s.view start).rest ++ bytes } := by
  have taken : (s.content ++ bytes).take s.position = s.content.take s.position :=
    List.take_append_of_le_length steady.inside
  have rest : (s.content ++ bytes).drop s.position = s.content.drop s.position ++ bytes :=
    List.drop_append_of_le_length steady.inside
  change View.mk (((s.content ++ bytes).take s.position).drop start)
    ((s.content ++ bytes).drop s.position) _ _ = _
  rw [taken, rest]
  rfl

theorem Steady.append (steady : Steady start s) (bytes : Bytes) :
    Steady start { s with content := s.content ++ bytes } := by
  have longer : s.content.length ≤ (s.content ++ bytes).length := by
    rw [List.length_append]
    exact Nat.le_add_right ..
  exact ⟨steady.started, steady.inside.trans longer, steady.size.trans longer, steady.ready⟩

/-- An entry that was refused has lost its line. -/
theorem Steady.refuse (steady : Steady start s) {entry : LogEntry}
    (here : s.point = .pushing entry) (running : s.stopFlag = false) :
    Steady start (s.tryPush entry false) ∧
      Harms newline (s.view start) ((s.tryPush entry false).view start) := by
  have ready := steady.ready
  simp only [State.Ready, here] at ready
  have refused : s.tryPush entry false = { s with point := .pushing entry.movedFrom } := by
    simp [State.tryPush, running]
  have position : State.position { s with point := .pushing entry.movedFrom } = s.position := by
    simp [State.position, here]
  have pieces : (s.view start).pieces = s.pushed.map LogEntry.line ++ [entry.line] := by
    simp [State.view, State.inFlight, here]
  have view : State.view start { s with point := .pushing entry.movedFrom } =
      { s.view start with pieces := s.pushed.map LogEntry.line ++ [[]] } := by
    simp [State.view, State.position, State.pastEnd, State.inFlight, LogEntry.movedFrom, here]
  rw [refused]
  refine ⟨⟨?_, ?_, steady.size, ready⟩, ?_⟩
  · rw [position]
    exact steady.started
  · rw [position]
    exact steady.inside
  · rw [view]
    exact .lose pieces

end Moves

/-- What a step comes to: the watcher has stopped, or is the reader after a move that does harm
if and only if the step is not safe. -/
def Follows (start : Nat) (label : Label) (s next : State) : Prop :=
  next.point = .stopped ∨ Steady start next ∧
    (label.Safe start s ∧ Moves newline (s.view start) (next.view start) ∨
      ¬label.Safe start s ∧ Harms newline (s.view start) (next.view start))

theorem Harmless.follows {start : Nat} {label : Label} {s next : State}
    (harmless : Harmless start s next) (safe : label.Safe start s) : Follows start label s next :=
  .inr ⟨harmless.steady, .inl ⟨safe, harmless.moves⟩⟩

theorem step_follows {filePath : Bytes} {start : Nat} {s next : State} {label : Label}
    (steady : Steady start s) (step : Step filePath s label next) : Follows start label s next := by
  cases step with
  | append bytes =>
    refine .inr ⟨steady.append bytes, ?_⟩
    rw [view_append steady]
    by_cases fits : (s.view start).Fits newline bytes
    · exact .inl ⟨fits, .arrive fits⟩
    · exact .inr ⟨fits, .arrive fits⟩
  | tellStart here => exact (steady.tellStart here).follows trivial
  | sizeStart here => exact (steady.sizeStart here).follows trivial
  | checkSize here => exact (steady.checkSize here).follows trivial
  | rewind here => exact (steady.rewind here).follows trivial
  | getline now here => exact (steady.getline here now).follows trivial
  | @tryPush entry accepted here =>
    cases accepted with
    | true => exact (steady.push here).follows rfl
    | false =>
      cases flag : s.stopFlag with
      | true => exact .inl (by simp [State.tryPush, flag])
      | false =>
        obtain ⟨after, harms⟩ := steady.refuse here flag
        exact .inr ⟨after, .inr ⟨Bool.false_ne_true, harms⟩⟩
  | tell here => exact (steady.tell here).follows trivial
  | clear here => exact (steady.clear here).follows trivial
  | seekEnd here => exact (steady.seekEnd here).follows trivial
  | tellEnd here => exact (steady.tellEnd here).follows trivial
  | stop => exact steady.stop.follows trivial
  | quit here flag => exact .inl rfl

theorem step_stopped {filePath : Bytes} {s next : State} {label : Label}
    (stopped : s.point = .stopped) (step : Step filePath s label next) : next.point = .stopped := by
  cases step with
  | append => exact stopped
  | stop => exact stopped
  | quit => rfl
  | getline now here => simp [stopped] at here
  | tryPush accepted here => simp [stopped] at here
  | _ here => simp [stopped] at here

def Running (start : Nat) (holds : View UInt8 → Prop) (s : State) : Prop :=
  s.point = .stopped ∨ Steady start s ∧ holds (s.view start)

theorem running_step {filePath : Bytes} {start : Nat} {s next : State} {label : Label}
    {before after : View UInt8 → Prop} (running : Running start before s)
    (step : Step filePath s label next)
    (safely : ∀ v w, before v → Moves newline v w → after w)
    (harmed : ∀ v w, before v → Harms newline v w → ¬label.Safe start s → after w) :
    Running start after next := by
  rcases running with stopped | ⟨steady, holds⟩
  · exact .inl (step_stopped stopped step)
  · rcases step_follows steady step with stopped | ⟨after, ⟨-, moves⟩ | ⟨harmful, harms⟩⟩
    · exact .inl stopped
    · exact .inr ⟨after, safely _ _ holds moves⟩
    · exact .inr ⟨after, harmed _ _ holds harms harmful⟩

section Runs

variable {filePath before : Bytes} {labels : List Label} {s : State}

theorem run_bounded (run : Run (Step filePath) (initial before) labels s) :
    Running before.length (Bounded newline) s := by
  apply run.invariant (fun _ s => Running before.length (Bounded newline) s)
  · exact .inr ⟨steady_initial before, view_initial before ▸ bounded_start⟩
  · intro _ current label next _ running step
    apply running_step running step
    · exact fun v w bounded moves => bounded.moves moves
    · exact fun v w bounded harms _ => (bounded.harms harms).1

/-- A run that takes no unsafe step leaves the pieces intact. -/
theorem run_intact (run : Run (Step filePath) (initial before) labels s)
    (never : ∀ label, ¬Took (Step filePath) (initial before) labels s label
      fun _ m => ¬label.Safe before.length m) :
    Running before.length (Intact newline) s := by
  apply run.invariant_of_never (Running before.length (Intact newline)) _ _ never
  · exact .inr ⟨steady_initial before, view_initial before ▸ intact_start⟩
  · intro current label next running step safe
    apply running_step running step
    · exact fun v w intact moves => intact.moves moves
    · exact fun v w _ _ harmful => absurd harmful safe

/-- What one unsafe step has broken stays broken. -/
theorem run_broken {label : Label}
    (took : Took (Step filePath) (initial before) labels s label
      fun _ m => ¬label.Safe before.length m) :
    Running before.length (fun v => Bounded newline v ∧ Broken newline v) s := by
  obtain ⟨first, second, m, next, -, toBefore, step, toEnd, harmful⟩ := took
  have harmed : Running before.length (fun v => Bounded newline v ∧ Broken newline v) next := by
    rcases run_bounded toBefore with stopped | ⟨steady, bounded⟩
    · exact .inl (step_stopped stopped step)
    · rcases step_follows steady step with stopped | ⟨after, ⟨safe, -⟩ | ⟨-, harms⟩⟩
      · exact .inl stopped
      · exact absurd safe harmful
      · exact .inr ⟨after, bounded.harms harms⟩
  apply toEnd.invariant (fun _ s =>
    Running before.length (fun v => Bounded newline v ∧ Broken newline v) s) harmed
  intro _ current label next _ running step
  apply running_step running step
  · exact fun v w broken moves => ⟨broken.1.moves moves, broken.2.moves broken.1 moves⟩
  · exact fun v w broken harms _ => broken.1.harms harms

end Runs

theorem appended_append (first second : List Label) :
    appended (first ++ second) = appended first ++ appended second := by
  induction first with
  | nil => rfl
  | cons label first ih =>
    cases label with
    | append bytes => rw [List.cons_append, appended, appended, ih, List.append_assoc]
    | _ => exact ih

theorem step_content {filePath : Bytes} {s next : State} {label : Label}
    (step : Step filePath s label next) : next.content = s.content ++ appended [label] := by
  cases step with
  | append bytes => rw [appended, appended, List.append_nil]
  | checkSize here =>
    unfold State.checkSize
    dsimp only
    split <;> exact (List.append_nil _).symm
  | getline now here =>
    unfold State.getline
    split
    · exact (List.append_nil _).symm
    · split <;> exact (List.append_nil _).symm
  | tryPush accepted here =>
    unfold State.tryPush
    split
    · exact (List.append_nil _).symm
    · split <;> exact (List.append_nil _).symm
  | _ => exact (List.append_nil _).symm

theorem run_content {filePath before : Bytes} {labels : List Label} {s : State}
    (run : Run (Step filePath) (initial before) labels s) :
    s.content = before ++ appended labels := by
  apply run.invariant (fun labels s => s.content = before ++ appended labels)
  · exact (List.append_nil _).symm
  · intro labels current label next _ content step
    rw [step_content step, content, appended_append, List.append_assoc]

/-- The pass is on its way, or it has sought the end of the file as it still is. -/
def State.Passing (s : State) : Prop :=
  match s.point with
  | .sought | .told => False
  | .atEnd => s.file.pos = s.content.length
  | .idle => s.lastPos = s.content.length
  | _ => True

theorem passing_step {filePath : Bytes} {start : Nat} {s next : State} {label : Label}
    (steady : Steady start s) (passing : s.Passing) (step : Step filePath s label next)
    (quiet : ∀ bytes, label ≠ .append bytes) : next.Passing := by
  have ready := steady.ready
  cases step with
  | append bytes => exact absurd rfl (quiet bytes)
  | tellStart here => simp [State.Passing, here] at passing
  | sizeStart here => simp [State.Passing, here] at passing
  | checkSize here => exact trivial
  | rewind here => exact trivial
  | getline now here =>
    unfold State.getline
    split
    · exact trivial
    · split <;> exact trivial
  | tryPush accepted here =>
    unfold State.tryPush
    split
    · exact trivial
    · split <;> exact trivial
  | tell here =>
    simp only [State.Ready, here] at ready
    simp [State.Passing, State.tell, tellg, good, ready]
  | clear here => exact trivial
  | seekEnd here =>
    simp only [State.Ready, here] at ready
    simp [State.Passing, State.seekEnd, FileStream.seekEnd, (good_iff.mp ready).2]
  | tellEnd here =>
    simp only [State.Ready, here] at ready
    simp only [State.Passing, here] at passing
    simp [State.Passing, State.tellEnd, tellg, ready, passing]
  | stop => exact passing
  | quit here flag => exact trivial

/-- The run ends with a pass in which nobody appends, and the file with the end of a line. -/
structure Settled (before : Bytes) (earlier rest : List Label) (s : State) : Prop where
  alone : ∀ bytes, .append bytes ∉ rest
  between : s.point = .idle
  complete : (before ++ appended (earlier ++ .checkSize :: rest)).getLast? = some newline

/-- After a pass in which nobody appends, the watcher has everything behind it. -/
theorem pass_takes_all {filePath before : Bytes} {earlier rest : List Label} {s : State}
    (run : Run (Step filePath) (initial before) (earlier ++ .checkSize :: rest) s)
    (settled : Settled before earlier rest s) : s.position = s.content.length := by
  have shape : earlier ++ .checkSize :: rest = (earlier ++ [.checkSize]) ++ rest := by
    rw [List.append_assoc, List.singleton_append]
  rw [shape] at run
  obtain ⟨sized, first, second⟩ := run.split
  obtain ⟨current, _, checked⟩ := first.last
  have begins : sized.Passing := by
    cases checked
    exact trivial
  have passing : (∀ bytes, .append bytes ∉ rest) → s.Passing := by
    apply second.invariant (fun labels t => (∀ bytes, .append bytes ∉ labels) → t.Passing)
    · exact fun _ => begins
    · intro labels t label next toHere ih step quiet
      have passing := ih fun bytes listed => quiet bytes (List.mem_append_left _ listed)
      have other : ∀ bytes, label ≠ .append bytes := by
        intro bytes same
        exact quiet bytes (List.mem_append_right _ (List.mem_singleton.mpr same.symm))
      rcases run_bounded (first.trans toHere) with stopped | ⟨steady, -⟩
      · simp only [State.Passing, step_stopped stopped step]
      · exact passing_step steady passing step other
  have reached := passing settled.alone
  simp only [State.Passing, settled.between] at reached
  simp only [State.position, settled.between, reached, Int.toNat_natCast]

theorem settled_view {filePath before : Bytes} {earlier rest : List Label} {s : State}
    (run : Run (Step filePath) (initial before) (earlier ++ .checkSize :: rest) s)
    (settled : Settled before earlier rest s) :
    s.view before.length = ⟨appended (earlier ++ .checkSize :: rest), [],
      s.pushed.map LogEntry.line, false⟩ := by
  have all := pass_takes_all run settled
  have taken : (s.content.take s.position).drop before.length =
      appended (earlier ++ .checkSize :: rest) := by
    rw [all, List.take_length, run_content run, List.drop_left]
  have left : s.content.drop s.position = [] := by rw [all, List.drop_length]
  simp only [State.view, taken, left, State.inFlight, State.pastEnd, settled.between,
    List.append_nil]

theorem settled_lines {before : Bytes} {earlier rest : List Label} {s : State}
    (settled : Settled before earlier rest s) :
    terminated newline (appended (earlier ++ .checkSize :: rest)) =
      filled newline (appended (earlier ++ .checkSize :: rest)) := by
  apply terminated_of_atStart
  intro b last
  have whole := settled.complete
  rw [List.getLast?_append, Option.mem_def.mp last, Option.some_or] at whole
  exact Option.some.inj whole

/-- The lines that were pushed are those that were appended if and only if no step of the run
was unsafe. -/
theorem run_delivers_iff {filePath before : Bytes} {earlier rest : List Label} {s : State}
    (run : Run (Step filePath) (initial before) (earlier ++ .checkSize :: rest) s)
    (settled : Settled before earlier rest s) :
    s.pushed.map LogEntry.line = terminated newline (appended (earlier ++ .checkSize :: rest)) ↔
      ∀ label, ¬Took (Step filePath) (initial before) (earlier ++ .checkSize :: rest) s label
        fun _ m => ¬label.Safe before.length m := by
  have view := settled_view run settled
  have running : s.point ≠ .stopped := by
    rw [settled.between]
    exact Point.noConfusion
  rw [settled_lines settled]
  constructor
  · intro delivered label took
    obtain ⟨-, -, broken⟩ := (run_broken took).resolve_left running
    rw [view] at broken
    exact broken.pieces_ne rfl rfl delivered
  · intro never
    obtain ⟨-, intact⟩ := (run_intact run never).resolve_left running
    rw [view] at intact
    exact intact.pieces

/-- A line that is appended in two halves before a pass reads it. -/
theorem run_delivers_iff_halves :
    let earlier : List Label :=
      [.tellStart, .sizeStart, .append (text "a"), .append (text "b\n")]
    let rest : List Label :=
      [.rewind, .getline 0, .tryPush true, .getline 0, .tell, .clear, .seekEnd, .tellEnd]
    ∃ s, (s.pushed.map LogEntry.line = [text "ab"] ∧
      (s.pushed.map LogEntry.line = terminated newline (appended (earlier ++ .checkSize :: rest)) ↔
        ∀ label, ¬Took (Step []) (initial []) (earlier ++ .checkSize :: rest) s label
          fun _ m => ¬label.Safe 0 m)) := by
  have started : Run (Step []) (initial []) [.tellStart, .sizeStart]
      (initial []).tellStart.sizeStart :=
    (Run.single (.tellStart rfl)).snoc (.sizeStart rfl)
  have written := (started.snoc (.append _ (text "a"))).snoc (.append _ (text "b\n"))
  have read := ((written.snoc (.checkSize rfl)).snoc (.rewind rfl)).snoc (.getline 0 rfl)
  have pushed := ((read.snoc (.tryPush true rfl)).snoc (.getline 0 rfl)).snoc (.tell rfl)
  have run := ((pushed.snoc (.clear rfl)).snoc (.seekEnd rfl)).snoc (.tellEnd rfl)
  exact ⟨_, by decide, run_delivers_iff run ⟨by simp, rfl, by decide⟩⟩

/-- A run at whose end what was pushed is not the lines that were appended. -/
def Fails (earlier rest : List Label) : Prop :=
  ∃ s, Run (Step []) (initial []) (earlier ++ .checkSize :: rest) s ∧ Settled [] earlier rest s ∧
    s.pushed.map LogEntry.line ≠ terminated newline (appended (earlier ++ .checkSize :: rest))

/-- A pass reads half a line, or a line is appended between its last read and its last seek, or
the ring buffer refuses an entry once. -/
theorem lines_fail :
    Fails [.tellStart, .sizeStart, .append (text "ab"), .checkSize, .rewind, .getline 0,
        .tryPush true, .getline 0, .tell, .clear, .seekEnd, .tellEnd, .append (text "c\n")]
      [.rewind, .getline 0, .tryPush true, .getline 0, .tell, .clear, .seekEnd, .tellEnd] ∧
    Fails [.tellStart, .sizeStart, .checkSize, .rewind, .getline 0, .append (text "ab\n"), .tell,
        .clear, .seekEnd, .tellEnd]
      [.rewind, .getline 0, .tell, .clear, .seekEnd, .tellEnd] ∧
    Fails [.tellStart, .sizeStart, .append (text "ab\n")]
      [.rewind, .getline 0, .tryPush false, .tryPush true, .getline 0, .tell, .clear, .seekEnd,
        .tellEnd] := by
  have started : Run (Step []) (initial []) [.tellStart, .sizeStart]
      (initial []).tellStart.sizeStart :=
    (Run.single (.tellStart rfl)).snoc (.sizeStart rfl)
  refine ⟨?_, ?_, ?_⟩
  · have half := (((started.snoc (.append _ (text "ab"))).snoc (.checkSize rfl)).snoc
      (.rewind rfl)).snoc (.getline 0 rfl)
    have ended := ((half.snoc (.tryPush true rfl)).snoc (.getline 0 rfl)).snoc (.tell rfl)
    have passed := ((ended.snoc (.clear rfl)).snoc (.seekEnd rfl)).snoc (.tellEnd rfl)
    have other := (((passed.snoc (.append _ (text "c\n"))).snoc (.checkSize rfl)).snoc
      (.rewind rfl)).snoc (.getline 0 rfl)
    have again := ((other.snoc (.tryPush true rfl)).snoc (.getline 0 rfl)).snoc (.tell rfl)
    have run := ((again.snoc (.clear rfl)).snoc (.seekEnd rfl)).snoc (.tellEnd rfl)
    exact ⟨_, run, ⟨by simp, rfl, by decide⟩, by decide⟩
  · have ended := ((started.snoc (.checkSize rfl)).snoc (.rewind rfl)).snoc (.getline 0 rfl)
    have late := (ended.snoc (.append _ (text "ab\n"))).snoc (.tell rfl)
    have passed := ((late.snoc (.clear rfl)).snoc (.seekEnd rfl)).snoc (.tellEnd rfl)
    have again := ((passed.snoc (.checkSize rfl)).snoc (.rewind rfl)).snoc (.getline 0 rfl)
    have run := (((again.snoc (.tell rfl)).snoc (.clear rfl)).snoc (.seekEnd rfl)).snoc (.tellEnd rfl)
    exact ⟨_, run, ⟨by simp, rfl, by decide⟩, by decide⟩
  · have read := (((started.snoc (.append _ (text "ab\n"))).snoc (.checkSize rfl)).snoc
      (.rewind rfl)).snoc (.getline 0 rfl)
    have pushed := (read.snoc (.tryPush false rfl)).snoc (.tryPush true rfl)
    have ended := ((pushed.snoc (.getline 0 rfl)).snoc (.tell rfl)).snoc (.clear rfl)
    have run := (ended.snoc (.seekEnd rfl)).snoc (.tellEnd rfl)
    exact ⟨_, run, ⟨by simp, rfl, by decide⟩, by decide⟩

end LogMonitor.FileWatcher
