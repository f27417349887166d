import LogMonitor.FileWatcherRun

/-!
The watcher of a file that is rotated by truncation: others truncate the file
and append whole lines to it between the passes of `read_new_lines`. A pass
takes the file for a new one when it is smaller than at the pass before, and
otherwise goes on from where that pass has ended.
-/

namespace LogMonitor.FileWatcher
open Library Library.ByteString Library.Transition Library.Lines Library.LineReader
open Library.FileStream

inductive Event where
  | truncate
  | append (bytes : Bytes)
  | pass (moves : List Label)

inductive Rotates (filePath : Bytes) (s : State) : Event → State → Prop
  | truncate : Rotates filePath s .truncate { s with content := [] }
  | append {bytes : Bytes} (whole : AtStart newline bytes) :
      Rotates filePath s (.append bytes) { s with content := s.content ++ bytes }
  | pass {moves : List Label} {next : State} (here : s.point = .idle)
      (run : Run (Step filePath) s (.checkSize :: moves) next) (back : next.point = .idle)
      (once : .checkSize ∉ moves) (alone : ∀ bytes, .append bytes ∉ moves) :
      Rotates filePath s (.pass moves) next

def opened (content : Bytes) : State := (initial content).tellStart.sizeStart

structure Between (s : State) : Prop where
  here : s.point = .idle
  lastPos : s.lastPos = s.lastSize

theorem between_opened (content : Bytes) : Between (opened content) :=
  ⟨rfl, rfl⟩

def State.begins (s : State) : Nat := if s.content.length < s.lastSize then 0 else s.lastSize

section Pass

variable {filePath : Bytes} {s m t next : State} {label : Label} {moves : List Label}

theorem checkSize_eq (between : Between s) :
    s.checkSize.content = s.content ∧ s.checkSize.pushed = s.pushed ∧
      s.checkSize.point = .sized ∧ s.checkSize.lastPos = s.begins ∧
      s.checkSize.lastSize = s.content.length := by
  by_cases smaller : s.content.length < s.lastSize
  · simp [State.checkSize, State.begins, smaller]
  · simp [State.checkSize, State.begins, smaller, between.lastPos]

theorem begins_le (s : State) : s.begins ≤ s.content.length := by
  unfold State.begins
  split <;> omega

/-- After the comparison of the sizes the watcher is a reader of what the pass is to take. -/
theorem checkSize_steady (between : Between s) : Steady s.begins s.checkSize ∧
    s.checkSize.view s.begins =
      ⟨[], s.content.drop s.begins, s.pushed.map LogEntry.line, false⟩ := by
  obtain ⟨content, pushed, point, lastPos, lastSize⟩ := checkSize_eq between
  have position : s.checkSize.position = s.begins := by
    simp [State.position, point, lastPos]
  refine ⟨⟨?_, ?_, ?_, ?_⟩, ?_⟩
  · rw [position]
  · rw [position, content]
    exact begins_le s
  · rw [lastSize, content]
  · simp [State.Ready, point, lastPos]
  · simp [State.view, position, content, pushed, State.inFlight, State.pastEnd, point]

theorem size_step (step : Step filePath s label next) (quiet : ∀ bytes, label ≠ .append bytes)
    (size : s.lastSize = s.content.length) : next.lastSize = next.content.length := by
  cases step with
  | append bytes => exact absurd rfl (quiet bytes)
  | sizeStart here => rfl
  | checkSize here =>
    unfold State.checkSize
    dsimp only
    split <;> rfl
  | getline now here =>
    unfold State.getline
    split
    · exact size
    · split <;> exact size
  | tryPush accepted here =>
    unfold State.tryPush
    split
    · exact size
    · split <;> exact size
  | _ => exact size

structure Undisturbed (start : Nat) (content : Bytes) (s : State) : Prop where
  steady : Steady start s
  same : s.content = content
  size : s.lastSize = content.length
  passing : s.Passing

theorem undisturbed_run {start : Nat} {content : Bytes} (begin : Undisturbed start content m)
    (run : Run (Step filePath) m moves t) (alone : ∀ bytes, .append bytes ∉ moves) :
    t.point = .stopped ∨ Undisturbed start content t := by
  suffices held : (∀ bytes, .append bytes ∉ moves) → t.point = .stopped ∨
      Undisturbed start content t from held alone
  apply run.invariant (fun moves t => (∀ bytes, .append bytes ∉ moves) →
    t.point = .stopped ∨ Undisturbed start content t)
  · exact fun _ => .inr begin
  · intro moves t label next _ ih step quiet
    have other : ∀ bytes, label ≠ .append bytes := by
      intro bytes same
      exact quiet bytes (List.mem_append_right _ (List.mem_singleton.mpr same.symm))
    rcases ih fun bytes listed => quiet bytes (List.mem_append_left _ listed) with stopped | held
    · exact .inl (step_stopped stopped step)
    · rcases step_follows held.steady step with stopped | ⟨steady, -⟩
      · exact .inl stopped
      · have nothing : appended [label] = [] := by
          cases label with
          | append bytes => exact absurd rfl (other bytes)
          | _ => rfl
        have content : next.content = content := by
          rw [step_content step, nothing, List.append_nil, held.same]
        have size := size_step step other (by rw [held.size, held.same])
        exact .inr ⟨steady, content, by rw [size, content],
          passing_step held.steady held.passing step other⟩

/-- A pass whose every push is taken adds the lines from where it began. -/
theorem adds_run {start : Nat} {old : List Bytes} (begin : Running start (Adds newline old) m)
    (run : Run (Step filePath) m moves t) (alone : ∀ bytes, .append bytes ∉ moves)
    (taken : .tryPush false ∉ moves) : Running start (Adds newline old) t := by
  suffices held : (∀ bytes, .append bytes ∉ moves) → .tryPush false ∉ moves →
      Running start (Adds newline old) t from held alone taken
  apply run.invariant (fun moves t => (∀ bytes, .append bytes ∉ moves) →
    .tryPush false ∉ moves → Running start (Adds newline old) t)
  · exact fun _ _ => begin
  · intro moves t label next _ ih step quiet taken
    have running := ih (fun bytes listed => quiet bytes (List.mem_append_left _ listed))
      (fun listed => taken (List.mem_append_left _ listed))
    refine running_step running step (fun v w adds => adds.moves) fun v w _ _ unsafe_ => ?_
    refine absurd ?_ unsafe_
    cases label with
    | append bytes => exact absurd (by simp) (quiet bytes)
    | tryPush accepted =>
      cases accepted with
      | true => rfl
      | false => exact absurd (by simp) taken
    | _ => trivial

theorem pushed_step (step : Step filePath s label next) : s.pushed <+: next.pushed := by
  cases step with
  | checkSize here =>
    unfold State.checkSize
    dsimp only
    split <;> exact List.prefix_rfl
  | getline now here =>
    unfold State.getline
    split
    · exact List.prefix_rfl
    · split <;> exact List.prefix_rfl
  | tryPush accepted here =>
    unfold State.tryPush
    split
    · exact List.prefix_append ..
    · split <;> exact List.prefix_rfl
  | _ => exact List.prefix_rfl

theorem pushed_run (run : Run (Step filePath) m moves t) : m.pushed <+: t.pushed :=
  run.invariant (fun _ t => m.pushed <+: t.pushed) List.prefix_rfl
    fun _ _ _ _ _ grown step => grown.trans (pushed_step step)

/-- Among the entries after the first `count` there is one that has lost its line. -/
def Emptied (count : Nat) (s : State) : Prop :=
  [] ∈ (s.pushed.drop count).map LogEntry.line ++ s.inFlight

theorem inFlight_of_not_pushing (other : ∀ entry, s.point ≠ .pushing entry) : s.inFlight = [] := by
  unfold State.inFlight
  split
  · next entry here => exact absurd here (other entry)
  · rfl

theorem Emptied.of_pushed {count : Nat} (emptied : Emptied count s)
    (other : ∀ entry, s.point ≠ .pushing entry) (same : next.pushed = s.pushed) :
    Emptied count next := by
  unfold Emptied at emptied
  rw [inFlight_of_not_pushing other, List.append_nil] at emptied
  unfold Emptied
  rw [same]
  exact List.mem_append_left _ emptied

theorem Emptied.step {count : Nat} (emptied : Emptied count s) (within : count ≤ s.pushed.length)
    (step : Step filePath s label next) : next.point = .stopped ∨ Emptied count next := by
  cases step with
  | append bytes => exact .inr emptied
  | stop => exact .inr emptied
  | quit here flag => exact .inl rfl
  | @tryPush entry accepted here =>
    have flying : s.inFlight = [entry.line] := by simp [State.inFlight, here]
    cases accepted with
    | true =>
      right
      unfold Emptied at emptied ⊢
      rw [flying] at emptied
      simpa [State.tryPush, State.inFlight, List.drop_append_of_le_length within] using emptied
    | false =>
      cases flag : s.stopFlag with
      | true => exact .inl (by simp [State.tryPush, flag])
      | false =>
        right
        simp [Emptied, State.tryPush, flag, State.inFlight, LogEntry.movedFrom]
  | checkSize here =>
    refine .inr (emptied.of_pushed (by simp [here]) ?_)
    unfold State.checkSize
    dsimp only
    split <;> rfl
  | getline now here =>
    refine .inr (emptied.of_pushed (by simp [here]) ?_)
    unfold State.getline
    split
    · rfl
    · split <;> rfl
  | _ here => exact .inr (emptied.of_pushed (by simp [here]) rfl)

/-- A push that was refused ends up as an entry without a line. -/
theorem emptied_run {count : Nat} (run : Run (Step filePath) m moves t)
    (within : count ≤ m.pushed.length) (refused : .tryPush false ∈ moves) :
    t.point = .stopped ∨ Emptied count t := by
  suffices held : .tryPush false ∈ moves → t.point = .stopped ∨ Emptied count t from held refused
  apply run.invariant (fun moves t =>
    .tryPush false ∈ moves → t.point = .stopped ∨ Emptied count t)
  · exact nofun
  · intro moves t label next toHere ih step refused
    rcases List.mem_append.mp refused with before | now
    · rcases ih before with stopped | emptied
      · exact .inl (step_stopped stopped step)
      · exact emptied.step (within.trans (pushed_run toHere).length_le) step
    · obtain rfl := List.mem_singleton.mp now
      cases step with
      | @tryPush entry accepted here =>
        cases flag : t.stopFlag with
        | true => exact .inl (by simp [State.tryPush, flag])
        | false =>
          right
          simp [Emptied, State.tryPush, flag, State.inFlight, LogEntry.movedFrom]

structure Passed (s next : State) (moves : List Label) : Prop where
  between : Between next
  content : next.content = s.content
  size : next.lastSize = s.content.length
  grown : s.pushed <+: next.pushed
  taken : .tryPush false ∉ moves → next.pushed.map LogEntry.line =
    s.pushed.map LogEntry.line ++ filled newline (s.content.drop s.begins)
  refused : .tryPush false ∈ moves → [] ∈ (next.pushed.drop s.pushed.length).map LogEntry.line

theorem pass_spec (between : Between s) (step : Rotates filePath s (.pass moves) next) :
    Passed s next moves := by
  cases step with
  | pass here run back once alone =>
    obtain ⟨sized, first, rest⟩ := run.uncons
    cases first
    obtain ⟨steady, view⟩ := checkSize_steady between
    obtain ⟨content, pushed, point, -, lastSize⟩ := checkSize_eq between
    have going : next.point ≠ .stopped := by rw [back]; exact Point.noConfusion
    have begin : Undisturbed s.begins s.content s.checkSize :=
      ⟨steady, content, lastSize, by simp only [State.Passing, point]⟩
    have ended := (undisturbed_run begin rest alone).resolve_left going
    have lastPos : next.lastPos = next.content.length := by
      have passing := ended.passing
      rwa [State.Passing, back] at passing
    have nothing : next.inFlight = [] := inFlight_of_not_pushing (by simp [back])
    refine ⟨⟨back, ?_⟩, ended.same, ended.size, ?_, fun taken => ?_, fun refused => ?_⟩
    · rw [lastPos, ended.size, ended.same]
    · exact pushed ▸ pushed_run rest
    · have begins : Running s.begins (Adds newline (s.pushed.map LogEntry.line)) s.checkSize := by
        refine .inr ⟨steady, ?_⟩
        rw [view]
        exact ⟨[], (List.append_nil _).symm, ⟨rfl, .inl (by rintro _ ⟨⟩),
          fun past => absurd past Bool.false_ne_true⟩⟩
      obtain ⟨-, new, pieces, intact⟩ := (adds_run begins rest alone taken).resolve_left going
      have position : next.position = next.content.length := by
        simp [State.position, back, lastPos]
      have all : (next.view s.begins).taken = s.content.drop s.begins := by
        rw [State.view, position, List.take_length, ended.same]
      have lines : (next.view s.begins).pieces = next.pushed.map LogEntry.line := by
        rw [State.view, nothing, List.append_nil]
      have added : new = filled newline (s.content.drop s.begins) := by
        rw [← all]
        exact intact.pieces
      rw [← lines, pieces, added]
    · have within : s.pushed.length ≤ s.checkSize.pushed.length := by rw [pushed]
      have emptied := (emptied_run rest within refused).resolve_left going
      rwa [Emptied, nothing, List.append_nil] at emptied

end Pass

def written : List Event → Bytes
  | [] => []
  | .append bytes :: events => bytes ++ written events
  | _ :: events => written events

def unread : List Event → Bytes
  | [] => []
  | .append bytes :: events => bytes ++ unread events
  | .truncate :: events => unread events
  | .pass _ :: _ => []

def Taken (events : List Event) : Prop := ∀ moves, .pass moves ∈ events → .tryPush false ∉ moves

theorem written_append (events more : List Event) :
    written (events ++ more) = written events ++ written more := by
  induction events with
  | nil => rfl
  | cons event events ih =>
    cases event with
    | append bytes => rw [List.cons_append, written, written, ih, List.append_assoc]
    | _ => exact ih

theorem written_pass (events : List Event) (moves : List Label) :
    written (events ++ [.pass moves]) = written events := by
  rw [written_append]
  exact List.append_nil _

theorem taken_pass (events : List Event) (moves : List Label) :
    Taken (events ++ [.pass moves]) ↔ Taken events ∧ .tryPush false ∉ moves := by
  simp [Taken, or_imp, forall_and]

theorem unread_pass {events : List Event} (none : ∀ moves, .pass moves ∉ events)
    (moves : List Label) : unread (events ++ [.pass moves]) = written events := by
  induction events with
  | nil => rfl
  | cons event events ih =>
    have rest := ih fun moves listed => none moves (List.mem_cons_of_mem _ listed)
    cases event with
    | append bytes => exact congrArg (bytes ++ ·) rest
    | truncate => exact rest
    | pass moves => exact absurd (List.mem_cons_self ..) (none moves)

theorem unread_append {events : List Event} {moves : List Label} (passed : .pass moves ∈ events)
    (more : List Event) : unread (events ++ more) = unread events := by
  induction events with
  | nil => exact nomatch passed
  | cons event events ih =>
    cases event with
    | append bytes =>
      exact congrArg (bytes ++ ·) (ih ((List.mem_cons.mp passed).resolve_left Event.noConfusion))
    | truncate => exact ih ((List.mem_cons.mp passed).resolve_left Event.noConfusion)
    | pass => rfl

theorem atStart_drop {xs : Bytes} (start : AtStart newline xs) (count : Nat) :
    AtStart newline (xs.drop count) := by
  intro x last
  rw [List.getLast?_drop] at last
  split at last
  · exact nomatch last
  · exact start x last

theorem atStart_both {xs ys : Bytes} (first : AtStart newline xs) (second : AtStart newline ys) :
    AtStart newline (xs ++ ys) := by
  by_cases empty : ys = []
  · rwa [empty, List.append_nil]
  · exact (atStart_append xs empty).mpr second

/-- Where the first pass begins, on a file with this content, when the pass before has seen this
size. -/
def firstBegins (content : Bytes) (size : Nat) : Nat := if content.length < size then 0 else size

/-- What the passes have read and pushed after the first one, which began at `first`; since then
there is something fresh. -/
structure Caught (first : Nat) (pushed : List LogEntry) (events : List Event) (s : State)
    (read fresh : Bytes) : Prop where
  content : s.content = read ++ fresh
  size : s.lastSize = read.length
  inside : first ≤ read.length
  whole : AtStart newline (read.drop first)
  appended : AtStart newline fresh
  taken : Taken events → s.pushed.map LogEntry.line =
    pushed.map LogEntry.line ++ filled newline (read.drop first)
  refused : ¬Taken events → [] ∈ (s.pushed.drop pushed.length).map LogEntry.line

/-- The watcher after events of which none truncates the file; they begin at a state with this
content, size at the last pass and entries. -/
structure Since (old : Bytes) (size : Nat) (pushed : List LogEntry) (events : List Event)
    (s : State) : Prop where
  between : Between s
  content : s.content = old ++ written events
  whole : AtStart newline (written events)
  grown : pushed <+: s.pushed
  before : (∀ moves, .pass moves ∉ events) → s.lastSize = size ∧ s.pushed = pushed
  after : ∀ moves, .pass moves ∈ events → ∃ read fresh,
    Caught (firstBegins (old ++ unread events) size) pushed events s read fresh

section Since

variable {filePath old : Bytes} {size : Nat} {pushed : List LogEntry} {events : List Event}
  {s next : State}

theorem Since.append (since : Since old size pushed events s) {bytes : Bytes}
    (lines : AtStart newline bytes) :
    Since old size pushed (events ++ [.append bytes]) { s with content := s.content ++ bytes } := by
  have more : written (events ++ [.append bytes]) = written events ++ bytes := by
    rw [written_append, written, written, List.append_nil]
  refine ⟨⟨since.between.here, since.between.lastPos⟩, ?_, ?_, since.grown, fun none => ?_,
    fun moves passed => ?_⟩
  · rw [more, ← List.append_assoc, ← since.content]
  · rw [more]
    exact atStart_both since.whole lines
  · exact since.before fun moves listed => none moves (List.mem_append_left _ listed)
  · have earlier : .pass moves ∈ events :=
      (List.mem_append.mp passed).resolve_right (by simp)
    obtain ⟨read, fresh, caught⟩ := since.after moves earlier
    have same : Taken (events ++ [.append bytes]) ↔ Taken events := by simp [Taken]
    rw [unread_append earlier]
    refine ⟨read, fresh ++ bytes, ?_, caught.size, caught.inside, caught.whole,
      atStart_both caught.appended lines, fun taken => caught.taken (same.mp taken),
      fun refused => caught.refused (mt same.mpr refused)⟩
    rw [← List.append_assoc, ← caught.content]

theorem Passed.emptied {moves : List Label} {count : Nat} (passed : Passed s next moves)
    (within : count ≤ s.pushed.length)
    (emptied : [] ∈ (s.pushed.drop count).map LogEntry.line ∨ .tryPush false ∈ moves) :
    [] ∈ (next.pushed.drop count).map LogEntry.line := by
  rcases emptied with before | now
  · exact List.map_subset _ (passed.grown.drop count).subset before
  · exact List.map_subset _ (List.drop_subset_drop_left _ within) (passed.refused now)

theorem Since.pass (since : Since old size pushed events s) (fits : old = [] ∨ old.length = size)
    {moves : List Label} (step : Rotates filePath s (.pass moves) next) :
    Since old size pushed (events ++ [.pass moves]) next := by
  have passed := pass_spec since.between step
  have same := written_pass events moves
  have both := taken_pass events moves
  refine ⟨passed.between, ?_, by rw [same]; exact since.whole, since.grown.trans passed.grown,
    fun none => absurd (by simp) (none moves), fun _ _ => ?_⟩
  · rw [passed.content, since.content, same]
  by_cases earlier : ∃ moves, .pass moves ∈ events
  · obtain ⟨before, listed⟩ := earlier
    obtain ⟨read, fresh, caught⟩ := since.after before listed
    have begins : s.begins = read.length := by
      rw [State.begins, if_neg, caught.size]
      rw [caught.size, caught.content, List.length_append]
      omega
    have left : s.content.drop s.begins = fresh := by rw [begins, caught.content, List.drop_left]
    rw [unread_append listed]
    refine ⟨read ++ fresh, [], ?_, ?_, ?_, ?_, nofun, fun taken => ?_, fun refused => ?_⟩
    · rw [passed.content, caught.content, List.append_nil]
    · rw [passed.size, caught.content]
    · rw [List.length_append]
      exact Nat.le_add_right_of_le caught.inside
    · rw [List.drop_append_of_le_length caught.inside]
      exact atStart_both caught.whole caught.appended
    · obtain ⟨takenBefore, takenNow⟩ := both.mp taken
      rw [passed.taken takenNow, caught.taken takenBefore, left,
        List.drop_append_of_le_length caught.inside, filled_append_of_atStart caught.whole,
        List.append_assoc]
    · refine passed.emptied since.grown.length_le ?_
      by_cases takenBefore : Taken events
      · exact .inr (not_not.mp fun takenNow => refused (both.mpr ⟨takenBefore, takenNow⟩))
      · exact .inl (caught.refused takenBefore)
  · have none : ∀ moves, .pass moves ∉ events := not_exists.mp earlier
    obtain ⟨sameSize, samePushed⟩ := since.before none
    have begins : firstBegins (old ++ unread (events ++ [.pass moves])) size = s.begins := by
      rw [unread_pass none, firstBegins, State.begins, since.content, sameSize]
    rw [begins]
    refine ⟨s.content, [], ?_, passed.size, begins_le s, ?_, nofun, fun taken => ?_,
      fun refused => ?_⟩
    · rw [passed.content, List.append_nil]
    · rcases fits with rfl | full
      · rw [since.content]
        exact atStart_drop since.whole _
      · have begins : s.begins = old.length := by
          rw [State.begins, if_neg, sameSize, full]
          rw [sameSize, since.content, List.length_append]
          omega
        rw [begins, since.content, List.drop_left]
        exact since.whole
    · rw [passed.taken (both.mp taken).2, samePushed]
    · have takenBefore : Taken events := fun moves listed => absurd listed (none moves)
      refine passed.emptied since.grown.length_le (.inr ?_)
      exact not_not.mp fun takenNow => refused (both.mpr ⟨takenBefore, takenNow⟩)

theorem since_run (fits : old = [] ∨ old.length = size) {start : State} (between : Between start)
    (content : start.content = old) (lastSize : start.lastSize = size)
    (run : Run (Rotates filePath) start events s) (kept : .truncate ∉ events) :
    Since old size start.pushed events s := by
  suffices held : .truncate ∉ events → Since old size start.pushed events s from held kept
  apply run.invariant (fun events s => .truncate ∉ events → Since old size start.pushed events s)
  · exact fun _ => ⟨between, by rw [content, written, List.append_nil], nofun, List.prefix_rfl,
      fun _ => ⟨lastSize, rfl⟩, nofun⟩
  · intro events current event next _ ih step kept
    have since := ih fun listed => kept (List.mem_append_left _ listed)
    cases step with
    | truncate => exact absurd (by simp) kept
    | append whole => exact since.append whole
    | pass here run back once alone => exact since.pass fits (.pass here run back once alone)

end Since

/-- Between its passes the watcher remembers the size of the file at the last one. -/
theorem between_run {filePath before : Bytes} {events : List Event} {s : State}
    (run : Run (Rotates filePath) (opened before) events s) : Between s := by
  apply run.invariant (fun _ s => Between s) (between_opened before)
  intro _ current event next _ between step
  cases step with
  | truncate => exact ⟨between.here, between.lastPos⟩
  | append => exact ⟨between.here, between.lastPos⟩
  | pass here run back once alone =>
    exact (pass_spec between (.pass here run back once alone)).between

def Delivers (pushed : List LogEntry) (events : List Event) (s : State) : Prop :=
  ((s.pushed.drop pushed.length).map LogEntry.line).Perm (filled newline (written events))

/-- The first pass finds the file smaller than the pass before it, or with nothing but ends of
lines as far as the file has reached then. -/
def Noticed (size : Nat) (events : List Event) : Prop :=
  (unread events).length < size ∨ ∀ byte ∈ (unread events).take size, byte = newline

section Delivers

variable {filePath : Bytes} {start s : State} {events : List Event} {moves : List Label}

/-- After a pass, what was pushed is what the first pass and those behind it have found, unless
a line is lost. -/
theorem pushed_since (between : Between start)
    (fits : start.content = [] ∨ start.content.length = start.lastSize)
    (run : Run (Rotates filePath) start (events ++ [.pass moves]) s) (kept : .truncate ∉ events) :
    (Taken (events ++ [.pass moves]) → (s.pushed.drop start.pushed.length).map LogEntry.line =
      filled newline ((start.content ++ written events).drop
        (firstBegins (start.content ++ unread (events ++ [.pass moves])) start.lastSize))) ∧
    (¬Taken (events ++ [.pass moves]) →
      [] ∈ (s.pushed.drop start.pushed.length).map LogEntry.line) := by
  have still : .truncate ∉ events ++ [.pass moves] := by simp [kept]
  have since := since_run fits between rfl rfl run still
  obtain ⟨current, first, last⟩ := run.last
  have current_between := (since_run fits between rfl rfl first kept).between
  have passed := pass_spec current_between last
  obtain ⟨read, fresh, caught⟩ := since.after moves (by simp)
  have none : fresh = [] := by
    have length := caught.size
    rw [passed.size, ← passed.content, caught.content, List.length_append] at length
    exact List.length_eq_zero_iff.mp (by omega)
  have same := written_pass events moves
  have all : read = start.content ++ written events := by
    rw [← same, ← since.content, caught.content, none, List.append_nil]
  refine ⟨fun taken => ?_, caught.refused⟩
  obtain ⟨more, grown⟩ := since.grown
  have lines := caught.taken taken
  rw [← grown, List.map_append, List.append_right_inj] at lines
  rw [← grown, List.drop_left, lines, all]

/-- Lines from a position on are all the lines only if there is nothing but ends of lines
before. -/
theorem all_of_perm {bytes : Bytes} {count : Nat}
    (all : (filled newline (bytes.drop count)).Perm (filled newline bytes)) :
    ∀ byte ∈ bytes.take count, byte = newline := by
  have lengths := all.flatten.length_eq
  rw [filled_flatten, filled_flatten] at lengths
  have parts : (bytes.filter (· ≠ newline)).length =
      ((bytes.take count).filter (· ≠ newline)).length +
        ((bytes.drop count).filter (· ≠ newline)).length := by
    rw [← List.length_append, ← List.filter_append, List.take_append_drop]
  have nothing : (bytes.take count).filter (· ≠ newline) = [] :=
    List.length_eq_zero_iff.mp (by omega)
  intro byte listed
  by_contra other
  exact List.not_mem_nil (nothing ▸ List.mem_filter.mpr ⟨listed, decide_eq_true other⟩)

theorem unread_prefix (events : List Event) : unread events <+: written events := by
  induction events with
  | nil => exact List.prefix_rfl
  | cons event events ih =>
    cases event with
    | append bytes => exact (List.prefix_append_right_inj bytes).mpr ih
    | truncate => exact ih
    | pass moves => exact List.nil_prefix

theorem not_mem_filled (bytes : Bytes) : [] ∉ filled newline bytes := by
  simp [filled]

/-- An entry without a line stands for no line that was appended. -/
theorem taken_of_delivers {pushed : List LogEntry} {all : List Event}
    (refused : ¬Taken all → [] ∈ (s.pushed.drop pushed.length).map LogEntry.line)
    (delivers : Delivers pushed events s) : Taken all :=
  not_not.mp fun lost => not_mem_filled _ (delivers.subset (refused lost))

theorem delivers_truncated (between : Between start) (empty : start.content = [])
    (run : Run (Rotates filePath) start (events ++ [.pass moves]) s) (kept : .truncate ∉ events) :
    Delivers start.pushed events s ↔
      Noticed start.lastSize (events ++ [.pass moves]) ∧ Taken (events ++ [.pass moves]) := by
  obtain ⟨lines, refused⟩ := pushed_since between (.inl empty) run kept
  have same := written_pass events moves
  have first := unread_prefix (events ++ [.pass moves])
  rw [same] at first
  simp only [empty, List.nil_append, firstBegins] at lines
  have reached (larger : start.lastSize ≤ (unread (events ++ [.pass moves])).length) :
      (unread (events ++ [.pass moves])).take start.lastSize =
        (written events).take start.lastSize := by
    obtain ⟨rest, whole⟩ := first
    rw [← whole, List.take_append_of_le_length larger]
  constructor
  · intro delivers
    have taken := taken_of_delivers refused delivers
    refine ⟨?_, taken⟩
    by_cases smaller : (unread (events ++ [.pass moves])).length < start.lastSize
    · exact .inl smaller
    · rw [Delivers, lines taken, if_neg smaller] at delivers
      right
      rw [reached (Nat.le_of_not_lt smaller)]
      exact all_of_perm delivers
  · rintro ⟨noticed, taken⟩
    rw [Delivers, lines taken]
    by_cases smaller : (unread (events ++ [.pass moves])).length < start.lastSize
    · rw [if_pos smaller, List.drop_zero]
    · have ends := noticed.resolve_left smaller
      rw [reached (Nat.le_of_not_lt smaller)] at ends
      have start_ : AtStart newline ((written events).take start.lastSize) :=
        fun x last => ends x (List.mem_of_getLast? last)
      have pieces := filled_append_of_atStart start_ ((written events).drop start.lastSize)
      rw [filled_of_all ends, List.take_append_drop, List.nil_append] at pieces
      rw [if_neg smaller, pieces]

/-- What the watcher finds at its start does not concern it. -/
theorem delivers_opened (between : Between start) (full : start.content.length = start.lastSize)
    (run : Run (Rotates filePath) start (events ++ [.pass moves]) s) (kept : .truncate ∉ events) :
    Delivers start.pushed events s ↔ Taken (events ++ [.pass moves]) := by
  obtain ⟨lines, refused⟩ := pushed_since between (.inr full) run kept
  refine ⟨taken_of_delivers refused, fun taken => ?_⟩
  have begins : firstBegins (start.content ++ unread (events ++ [.pass moves])) start.lastSize =
      start.content.length := by
    rw [firstBegins, if_neg, full]
    rw [List.length_append]
    omega
  rw [Delivers, lines taken, begins, List.drop_left]

end Delivers

/-- After the last truncation the lines are pushed once and whole if and only if the first pass
notices it and the ring buffer takes every entry at once; and before any truncation if and only
if the ring buffer does. -/
theorem truncation_keeps_lines_iff {filePath before : Bytes} {earlier events : List Event}
    {moves : List Label} {middle s : State} (kept : .truncate ∉ events) :
    (Run (Rotates filePath) (opened before) earlier middle →
      Run (Rotates filePath) { middle with content := [] } (events ++ [.pass moves]) s →
      (Delivers middle.pushed events s ↔
        Noticed middle.lastSize (events ++ [.pass moves]) ∧ Taken (events ++ [.pass moves]))) ∧
    (Run (Rotates filePath) (opened before) (events ++ [.pass moves]) s →
      (Delivers [] events s ↔ Taken (events ++ [.pass moves]))) := by
  constructor
  · intro reached rest
    have between := between_run reached
    have truncated : Between { middle with content := [] } := ⟨between.here, between.lastPos⟩
    have delivers := delivers_truncated truncated rfl rest kept
    exact delivers
  · intro run
    exact delivers_opened (between_opened before) rfl run kept

theorem truncation_keeps_lines_iff_shorter :
    let moves : List Label :=
      [.rewind, .getline 0, .tryPush true, .getline 0, .tell, .clear, .seekEnd, .tellEnd]
    ∃ s, Run (Rotates []) { opened [98, 98, 10] with content := [] }
      ([.append [97, 10]] ++ [.pass moves]) s ∧ Delivers [] [.append [97, 10]] s := by
  intro moves
  have whole : AtStart newline [97, 10] := (atStart_concat [97] newline).mpr rfl
  have start := Run.single (@Rotates.append [] { opened [98, 98, 10] with content := [] } _ whole)
  have sized := Run.single (@Step.checkSize [] { opened [98, 98, 10] with content := [97, 10] } rfl)
  have read := (sized.snoc (.rewind rfl)).snoc (.getline 0 rfl)
  have pushed := ((read.snoc (.tryPush true rfl)).snoc (.getline 0 rfl)).snoc (.tell rfl)
  have pass := ((pushed.snoc (.clear rfl)).snoc (.seekEnd rfl)).snoc (.tellEnd rfl)
  have run := start.snoc (@Rotates.pass [] _ moves _ rfl pass rfl (by simp [moves])
    (by simp [moves]))
  have kept : Event.truncate ∉ [Event.append [97, 10]] := by simp
  refine ⟨_, run, ((truncation_keeps_lines_iff kept).1 .refl run).mpr ⟨.inl (by decide), ?_⟩⟩
  simp [Taken, moves]

/-- As much is written after the truncation as before it, and a line is lost. -/
theorem refilled_lost :
    let moves : List Label := [.rewind, .getline 0, .tell, .clear, .seekEnd, .tellEnd]
    ∃ s, Run (Rotates []) (opened [98, 10]) [.truncate, .append [97, 10], .pass moves] s ∧
      s.pushed = [] ∧ ¬Delivers [] [.append [97, 10]] s := by
  intro moves
  have whole : AtStart newline [97, 10] := (atStart_concat [97] newline).mpr rfl
  have start := (Run.single (@Rotates.truncate [] (opened [98, 10]))).snoc (.append whole)
  have sized := Run.single (@Step.checkSize [] { opened [98, 10] with content := [97, 10] } rfl)
  have read := (sized.snoc (.rewind rfl)).snoc (.getline 0 rfl)
  have pass := (((read.snoc (.tell rfl)).snoc (.clear rfl)).snoc (.seekEnd rfl)).snoc (.tellEnd rfl)
  have run := start.snoc (@Rotates.pass [] _ moves _ rfl pass rfl (by simp [moves])
    (by simp [moves]))
  refine ⟨_, run, rfl, fun delivers => ?_⟩
  exact absurd delivers.length_eq (by decide)

end LogMonitor.FileWatcher
