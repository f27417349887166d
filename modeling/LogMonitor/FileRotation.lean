import LogMonitor.FileWatcher

/-!
The watcher on a file system in which others append to files, truncate them,
and take the watched path away and put it back, between any two of its steps.
The stream and the inotify watch hold on to the files they were opened on;
`std::filesystem::file_size` asks for the path, and throws when there is
nothing. No other query of the file system fails, and memory does not run out.
-/

namespace LogMonitor.FileRotation
open Library Library.ByteString Library.Transition

/-- The files are numbered; the path names one of them or none. -/
structure FileSystem where
  path : Option Nat
  contents : Nat → Bytes

inductive Action where
  | append (file : Nat) (bytes : Bytes)
  | truncate (file size : Nat)
  | renameAway
  | delete
  /-- A file is created at the path, or moved to it. -/
  | create (file : Nat)

def FileSystem.act (fs : FileSystem) : Action → FileSystem
  | .append file bytes =>
    { fs with contents := Function.update fs.contents file (fs.contents file ++ bytes) }
  | .truncate file size =>
    { fs with contents := Function.update fs.contents file ((fs.contents file).take size) }
  | .renameAway => { fs with path := none }
  | .delete => { fs with path := none }
  | .create file => { fs with path := some file }

def Action.notifies (file : Nat) : Action → Bool
  | .append other bytes => decide (other = file ∧ bytes ≠ [])
  | .truncate other _ => decide (other = file)
  | .renameAway | .delete | .create _ => false

inductive Place where
  | opening
  /-- In the loop of `wait_for_file`. -/
  | waiting
  | reopening
  /-- Before `seekg(0, std::ios::end)`. -/
  | seeking
  /-- Where the state of the watcher says, up to the first size or in a pass. -/
  | running
  /-- Before the inotify instance is there. -/
  | starting
  | adding
  /-- At the condition of the loop of `run_inotify`. -/
  | looping
  | selecting
  | returned
  /-- An exception has left `run`. -/
  | escaped
deriving DecidableEq

structure State where
  fs : FileSystem
  place : Place
  /-- The file the stream is open on. -/
  opened : Nat
  watched : Option Nat
  /-- Events wait to be read from the inotify instance. -/
  pending : Bool
  watcher : FileWatcher.State

def initial (fs : FileSystem) : State where
  fs := fs
  place := .opening
  opened := 0
  watched := none
  pending := false
  watcher := FileWatcher.initial []

def State.onStream (s : State) : FileWatcher.State :=
  { s.watcher with content := s.fs.contents s.opened }

def State.onPath (s : State) (file : Nat) : FileWatcher.State :=
  { s.watcher with content := s.fs.contents file }

def State.openStream (s : State) (missing : Place) : State :=
  match s.fs.path with
  | some file => { s with opened := file, place := .seeking }
  | none => { s with place := missing }

def State.look (s : State) : State :=
  { s with place := if s.fs.path.isSome then .reopening else .waiting }

def State.seek (s : State) : State :=
  { s with
    watcher := { FileWatcher.initial (s.fs.contents s.opened) with
      stopFlag := s.watcher.stopFlag }
    place := .running }

def State.sizeStart (s : State) : State :=
  match s.fs.path with
  | some file => { s with watcher := (s.onPath file).sizeStart, place := .starting }
  | none => { s with place := .escaped }

def State.start (s : State) (granted : Bool) : State :=
  { s with place := if granted then .adding else .escaped }

def State.addWatch (s : State) : State :=
  match s.fs.path with
  | some file => { s with watched := some file, place := .looping }
  | none => { s with place := .returned }

def State.checkSize (s : State) : State :=
  match s.fs.path with
  | some file => { s with watcher := (s.onPath file).checkSize }
  | none => { s with place := .escaped }

def State.advance (s : State) (watcher : FileWatcher.State) : State :=
  { s with
    watcher := watcher
    place :=
      match watcher.point with
      | .idle | .stopped => .looping
      | _ => .running }

inductive Label where
  | act (action : Action)
  /-- The watched file is gone for good, and with it the watch. -/
  | ignored
  | stop
  | openStream
  | look
  | giveUp
  | reopen
  | seek
  | sizeStart
  | start (granted : Bool)
  | addWatch
  | enter
  | timeout
  | select
  | checkSize
  | stream (label : FileWatcher.Label)
  | quit

def onStream : FileWatcher.Label → Bool
  | .tellStart | .rewind | .getline _ | .tryPush _ | .tell | .clear | .seekEnd | .tellEnd => true
  | .append _ | .sizeStart | .checkSize | .stop | .quit => false

inductive Step (filePath : Bytes) (s : State) : Label → State → Prop
  | act (action : Action) : Step filePath s (.act action) { s with
      fs := s.fs.act action
      pending := s.pending || s.watched.any fun file => action.notifies file }
  | ignored {file : Nat} (watched : s.watched = some file) (gone : s.fs.path ≠ some file)
      (closed : s.opened ≠ file) :
      Step filePath s .ignored { s with watched := none, pending := true }
  | stop : Step filePath s .stop { s with watcher := { s.watcher with stopFlag := true } }
  | openStream (here : s.place = .opening) :
      Step filePath s .openStream (s.openStream .waiting)
  | look (here : s.place = .waiting) : Step filePath s .look s.look
  | giveUp (here : s.place = .waiting) (flag : s.watcher.stopFlag = true) :
      Step filePath s .giveUp { s with place := .returned }
  | reopen (here : s.place = .reopening) : Step filePath s .reopen (s.openStream .returned)
  | seek (here : s.place = .seeking) : Step filePath s .seek s.seek
  | sizeStart (here : s.place = .running) (told : s.watcher.point = .told) :
      Step filePath s .sizeStart s.sizeStart
  | start (granted : Bool) (here : s.place = .starting) :
      Step filePath s (.start granted) (s.start granted)
  | addWatch (here : s.place = .adding) : Step filePath s .addWatch s.addWatch
  | enter (here : s.place = .looping) (flag : s.watcher.stopFlag = false) :
      Step filePath s .enter { s with place := .selecting }
  | timeout (here : s.place = .selecting) : Step filePath s .timeout { s with place := .looping }
  | select (here : s.place = .selecting) (ready : s.pending = true) :
      Step filePath s .select { s with pending := false, place := .running }
  | checkSize (here : s.place = .running) (between : s.watcher.point = .idle) :
      Step filePath s .checkSize s.checkSize
  | stream {label : FileWatcher.Label} {watcher : FileWatcher.State} (here : s.place = .running)
      (quiet : onStream label = true) (move : FileWatcher.Step filePath s.onStream label watcher) :
      Step filePath s (.stream label) (s.advance watcher)
  | quit (here : s.place = .looping) (flag : s.watcher.stopFlag = true) :
      Step filePath s .quit { s with place := .returned }

def pathThere (before : Bool) : List Label → Bool
  | [] => before
  | .act .renameAway :: labels => pathThere false labels
  | .act .delete :: labels => pathThere false labels
  | .act (.create _) :: labels => pathThere true labels
  | _ :: labels => pathThere before labels

def Label.asksSize : Label → Bool
  | .sizeStart | .checkSize => true
  | _ => false

/-- The step throws, after a history of which this says whether the path names a file. -/
def Label.Throws (there : Bool) (label : Label) : Prop :=
  label.asksSize = true ∧ there = false ∨ label = .start false

theorem pathThere_append (before : Bool) (labels more : List Label) :
    pathThere before (labels ++ more) = pathThere (pathThere before labels) more := by
  induction labels generalizing before with
  | nil => rfl
  | cons label labels ih =>
    cases label with
    | act action => cases action <;> exact ih _
    | _ => exact ih _

section Runs

variable {filePath : Bytes} {s next : State} {label : Label}

theorem path_step (step : Step filePath s label next) :
    next.fs.path.isSome = pathThere s.fs.path.isSome [label] := by
  cases step with
  | act action => cases action <;> rfl
  | openStream here =>
    unfold State.openStream
    split <;> rfl
  | reopen here =>
    unfold State.openStream
    split <;> rfl
  | sizeStart here told =>
    unfold State.sizeStart
    split <;> rfl
  | addWatch here =>
    unfold State.addWatch
    split <;> rfl
  | checkSize here between =>
    unfold State.checkSize
    split <;> rfl
  | _ => rfl

theorem path_run {fs : FileSystem} {labels : List Label}
    (run : Run (Step filePath) (initial fs) labels s) :
    s.fs.path.isSome = pathThere fs.path.isSome labels := by
  apply run.invariant (fun labels s => s.fs.path.isSome = pathThere fs.path.isSome labels) rfl
  intro labels current label next _ there step
  rw [path_step step, there, pathThere_append]

/-- A step that throws, and no other, takes the exception out of `run`. -/
theorem escaped_step (step : Step filePath s label next) :
    next.place = .escaped ↔ s.place = .escaped ∨ label.Throws s.fs.path.isSome := by
  cases step with
  | act action => simp [Label.Throws, Label.asksSize]
  | ignored => simp [Label.Throws, Label.asksSize]
  | stop => simp [Label.Throws, Label.asksSize]
  | openStream here | reopen here =>
    unfold State.openStream
    split <;> simp [Label.Throws, Label.asksSize, here]
  | sizeStart here told =>
    unfold State.sizeStart
    split <;> simp [Label.Throws, Label.asksSize, *]
  | addWatch here =>
    unfold State.addWatch
    split <;> simp [Label.Throws, Label.asksSize, here]
  | checkSize here between =>
    unfold State.checkSize
    split <;> simp [Label.Throws, Label.asksSize, *]
  | look here =>
    unfold State.look
    cases s.fs.path <;> simp [Label.Throws, Label.asksSize, here]
  | start granted here =>
    cases granted <;> simp [Label.Throws, Label.asksSize, State.start, here]
  | stream here quiet move =>
    unfold State.advance
    dsimp only
    split <;> simp [Label.Throws, Label.asksSize, here]
  | seek here => simp [Label.Throws, Label.asksSize, State.seek, here]
  | _ here => simp [Label.Throws, Label.asksSize, here]

theorem escaped_run {fs : FileSystem} {labels : List Label}
    (run : Run (Step filePath) (initial fs) labels s) :
    s.place = .escaped ↔ ∃ earlier label, earlier ++ [label] <+: labels ∧
      label.Throws (pathThere fs.path.isSome earlier) := by
  refine run.invariant (fun labels s => s.place = .escaped ↔ ∃ earlier label,
    earlier ++ [label] <+: labels ∧ label.Throws (pathThere fs.path.isSome earlier)) ?_ ?_
  · simp [initial]
  intro labels current label next toHere ih step
  rw [escaped_step step, ih, path_run toHere]
  constructor
  · rintro (⟨earlier, other, before, throws⟩ | throws)
    · exact ⟨earlier, other, before.trans (List.prefix_append ..), throws⟩
    · exact ⟨labels, label, List.prefix_rfl, throws⟩
  · rintro ⟨earlier, other, before, throws⟩
    rcases List.prefix_concat_iff.mp before with now | old
    · obtain ⟨rfl, same⟩ := List.append_inj' now rfl
      obtain rfl := List.singleton_inj.mp same
      exact .inr throws
    · exact .inl ⟨earlier, other, old, throws⟩

/-- A watcher that waits at its inotify instance with an event to read is brought down by a
rotation that takes the path away now. -/
theorem rotation_escapes (here : s.place = .selecting) (ready : s.pending = true)
    (between : s.watcher.point = .idle) :
    ∃ next, Run (Step filePath) s [.act .renameAway, .select, .checkSize] next ∧
      next.place = .escaped := by
  have renamed := Run.single (@Step.act filePath s .renameAway)
  have selected := renamed.snoc (.select here (by simp [ready]))
  have sized := selected.snoc (.checkSize rfl between)
  exact ⟨_, sized, rfl⟩

theorem pathThere_of_kept {labels : List Label}
    (kept : ∀ action, .act action ∈ labels → action ≠ .renameAway ∧ action ≠ .delete) :
    pathThere true labels = true := by
  induction labels with
  | nil => rfl
  | cons label labels ih =>
    have rest := ih fun action listed => kept action (List.mem_cons_of_mem _ listed)
    cases label with
    | act action =>
      obtain ⟨notRenamed, notDeleted⟩ := kept action (List.mem_cons_self ..)
      cases action with
      | renameAway => exact absurd rfl notRenamed
      | delete => exact absurd rfl notDeleted
      | _ => exact rest
    | _ => exact rest

/-- A file that is there at the start and only grows, is truncated or is replaced in one action
brings nobody down. -/
theorem kept_no_escape {fs : FileSystem} {labels : List Label}
    (run : Run (Step filePath) (initial fs) labels s) (there : fs.path.isSome = true)
    (kept : ∀ action, .act action ∈ labels → action ≠ .renameAway ∧ action ≠ .delete)
    (granted : .start false ∉ labels) : s.place ≠ .escaped := by
  rw [Ne, escaped_run run]
  rintro ⟨earlier, label, before, ⟨-, missing⟩ | refused⟩
  · have still := pathThere_of_kept fun action listed =>
      kept action (before.subset (List.mem_append_left _ listed))
    rw [there, still] at missing
    exact nomatch missing
  · exact granted (before.subset (by simp [refused]))

/-- No exception leaves `run` if and only if the path names a file whenever its size is asked for,
and the system grants the inotify instance. -/
theorem no_escape_iff {fs : FileSystem} {labels : List Label}
    (run : Run (Step filePath) (initial fs) labels s) :
    s.place ≠ .escaped ↔ ∀ earlier label, earlier ++ [label] <+: labels →
      (label.asksSize = true → pathThere fs.path.isSome earlier = true) ∧
        label ≠ .start false := by
  rw [Ne, escaped_run run]
  simp only [Label.Throws, not_exists, not_and, not_or, Bool.not_eq_false]

end Runs

/-- The file is renamed away as the watcher wakes up for the last line written to it. -/
def renamedAtWakeUp : List Label :=
  [.openStream, .seek, .stream .tellStart, .sizeStart, .start true, .addWatch, .enter,
    .act (.append 0 [97, 10]), .act .renameAway, .select, .checkSize]

theorem wakeUp_run : ∃ s, Run (Step []) (initial ⟨some 0, fun _ => []⟩)
    (renamedAtWakeUp.take 8) s ∧ s.place = .selecting ∧ s.pending = true ∧
      s.watcher.point = .idle := by
  have opened := ((Run.single (@Step.openStream [] (initial ⟨some 0, fun _ => []⟩) rfl)).snoc
    (.seek rfl)).snoc (.stream rfl rfl (.tellStart rfl))
  have sized := (opened.snoc (.sizeStart rfl rfl)).snoc (.start true rfl)
  have watching := (sized.snoc (.addWatch rfl)).snoc (.enter rfl rfl)
  exact ⟨_, watching.snoc (.act (.append 0 [97, 10])), rfl, rfl, rfl⟩

theorem renamed_escapes : ∃ s, Run (Step []) (initial ⟨some 0, fun _ => []⟩) renamedAtWakeUp s ∧
    s.place = .escaped := by
  obtain ⟨s, run, here, ready, between⟩ := wakeUp_run
  obtain ⟨next, rest, escaped⟩ := rotation_escapes here ready between
  exact ⟨next, run.trans rest, escaped⟩

theorem no_escape_iff_wakeUp : ∃ s, Run (Step []) (initial ⟨some 0, fun _ => []⟩)
    (renamedAtWakeUp.take 8) s ∧ ∀ earlier label, earlier ++ [label] <+: renamedAtWakeUp.take 8 →
      (label.asksSize = true → pathThere true earlier = true) ∧ label ≠ .start false := by
  obtain ⟨s, run, here, -⟩ := wakeUp_run
  exact ⟨s, run, (no_escape_iff run).mp (by rw [here]; decide)⟩

end LogMonitor.FileRotation
