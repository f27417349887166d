import LogMonitor.CodeIndexer
import LogMonitor.Library.Lines
import LogMonitor.Library.OutputStream
import LogMonitor.Library.Transition
import LogMonitor.LogEntry
import LogMonitor.Server
import Mathlib.Algebra.Field.Rat
import Mathlib.Algebra.Order.Ring.Rat

/-!
`AlertManager::handle_alert`, called by the workers of the pool and by the drain
at once: what reaches the alert log, in which order, and what an entry can make
the log look like. The counters it bumps are those of the pipeline.
-/

namespace LogMonitor.AlertManager
open Library Library.ByteString Library.Lines Library.Scoring Library.Transition CodeIndexer

structure AlertRule where
  name : Bytes
  severity : Severity

def message (timestamp : Bytes) (rule : AlertRule) (entry : LogEntry) : Bytes :=
  text "[" ++ timestamp ++ text "] " ++ rule.severity.toText ++ text " [" ++ rule.name ++
    text "] " ++ text "source=" ++ entry.source ++
    (if entry.serviceName = [] then [] else text " service=" ++ entry.serviceName) ++
    text " | " ++ entry.line

section Text

variable {K : Type} (scoreText : K → Bytes)

def locationLines (loc : CodeLocation K) : List Bytes :=
  (text "  -> Likely code: " ++ loc.filePath ++ text ":" ++ toDecimal loc.lineNumber ++
    text " in " ++ loc.functionName ++ text " (score: " ++ scoreText loc.relevanceScore ++
    text ")") ::
  if loc.snippet = [] then [] else [text "     " ++ loc.snippet]

structure Alert (K : Type) where
  timestamp : Bytes
  rule : AlertRule
  entry : LogEntry
  codeLocs : List (CodeLocation K)

def Alert.lines (alert : Alert K) : List Bytes :=
  message alert.timestamp alert.rule alert.entry ::
    alert.codeLocs.flatMap (locationLines scoreText)

end Text

section Lookup

variable {K : Type} [Field K] [LinearOrder K] (patterns : Patterns) (ranking : Ranking Bytes K)

/-- The lookup of step 4, with the index as it is at that moment. -/
def lookUp (indexer : Option (Indexer K)) (rule : AlertRule) (entry : LogEntry) :
    List (CodeLocation K) :=
  match indexer with
  | none => []
  | some index =>
    if index.built = true ∧ (rule.severity = .error ∨ rule.severity = .critical) then
      query patterns ranking index entry.line
    else []

inductive Position (K : Type) where
  | outside
  | called (rule : AlertRule) (entry : LogEntry)
  | stamped (rule : AlertRule) (entry : LogEntry) (timestamp : Bytes)
  | looked (alert : Alert K)
  /-- Under the lock, with the lines still to write. -/
  | writing (rest : List Bytes) (codeLocs : List (CodeLocation K))
  | storing (codeLocs : List (CodeLocation K))

structure State (K : Type) where
  stream : OutputStream
  indexer : Option (Indexer K)
  lastCodeLocations : List (CodeLocation K)
  /-- Who has `file_mutex_`. -/
  holder : Option Nat
  position : Nat → Position K

def initial (opened : Bool) (old : Bytes) (indexer : Option (Indexer K)) : State K where
  stream := ⟨opened, false, old, []⟩
  indexer := indexer
  lastCodeLocations := []
  holder := none
  position := fun _ => .outside

inductive Label (K : Type) where
  | handle (thread : Nat) (rule : AlertRule) (entry : LogEntry)
  | stamp (thread : Nat) (timestamp : Bytes)
  | lookUp (thread : Nat)
  | lock (thread : Nat) (alert : Alert K)
  | put (thread : Nat)
  /-- A part of the buffer reaches the file, or the write of it fails. -/
  | spill (count : Nat)
  | failAfter (count : Nat)
  /-- The flush and the unlock. -/
  | flush (thread : Nat)
  | store (thread : Nat)
  /-- `set_code_indexer`, or the index is built again. -/
  | reindex (indexer : Option (Indexer K))

variable (scoreText : K → Bytes)

inductive Step : State K → Label K → State K → Prop
  | handle {s : State K} {thread : Nat} (here : s.position thread = .outside) (rule : AlertRule)
      (entry : LogEntry) :
      Step s (.handle thread rule entry) { s with
        position := Function.update s.position thread (.called rule entry) }
  | stamp {s : State K} {thread : Nat} {rule : AlertRule} {entry : LogEntry}
      (here : s.position thread = .called rule entry) (timestamp : Bytes) :
      Step s (.stamp thread timestamp) { s with
        position := Function.update s.position thread (.stamped rule entry timestamp) }
  | lookUp {s : State K} {thread : Nat} {rule : AlertRule} {entry : LogEntry} {timestamp : Bytes}
      (here : s.position thread = .stamped rule entry timestamp) :
      Step s (.lookUp thread) { s with
        position := Function.update s.position thread
          (.looked ⟨timestamp, rule, entry, lookUp patterns ranking s.indexer rule entry⟩) }
  | lock {s : State K} {thread : Nat} {alert : Alert K}
      (here : s.position thread = .looked alert) (free : s.holder = none) :
      Step s (.lock thread alert) { s with
        holder := some thread
        position := Function.update s.position thread
          (.writing (if s.stream.opened then alert.lines scoreText else []) alert.codeLocs) }
  | put {s : State K} {thread : Nat} {line : Bytes} {rest : List Bytes}
      {codeLocs : List (CodeLocation K)}
      (here : s.position thread = .writing (line :: rest) codeLocs) :
      Step s (.put thread) { s with
        stream := s.stream.put (line ++ [10])
        position := Function.update s.position thread (.writing rest codeLocs) }
  | spill {s : State K} {thread : Nat} (held : s.holder = some thread)
      (good : s.stream.good = true) (count : Nat) :
      Step s (.spill count) { s with stream := s.stream.spill count }
  | failAfter {s : State K} {thread : Nat} (held : s.holder = some thread)
      (good : s.stream.good = true) (count : Nat) :
      Step s (.failAfter count) { s with stream := s.stream.failAfter count }
  | flush {s : State K} {thread : Nat} {codeLocs : List (CodeLocation K)}
      (here : s.position thread = .writing [] codeLocs) :
      Step s (.flush thread) { s with
        stream := s.stream.flush
        holder := none
        position := Function.update s.position thread (.storing codeLocs) }
  | store {s : State K} {thread : Nat} {codeLocs : List (CodeLocation K)}
      (here : s.position thread = .storing codeLocs) :
      Step s (.store thread) { s with
        lastCodeLocations := if codeLocs = [] then s.lastCodeLocations else codeLocs
        position := Function.update s.position thread .outside }
  | reindex (s : State K) (indexer : Option (Indexer K)) :
      Step s (.reindex indexer) { s with indexer := indexer }

end Lookup

section History

variable {K : Type} (scoreText : K → Bytes)

/-- The alerts that got the lock, in this order, each with its thread. -/
def locked : List (Label K) → List (Nat × Alert K) :=
  List.filterMap fun label => match label with
    | .lock thread alert => some (thread, alert)
    | _ => none

def handled (thread : Nat) : List (Label K) → List (AlertRule × LogEntry) :=
  List.filterMap fun label => match label with
    | .handle caller rule entry => if caller = thread then some (rule, entry) else none
    | _ => none

def lockedBy (thread : Nat) (labels : List (Label K)) : List (AlertRule × LogEntry) :=
  ((locked labels).filter fun writer => writer.1 = thread).map fun writer =>
    (writer.2.rule, writer.2.entry)

def Position.pending : Position K → List (AlertRule × LogEntry)
  | .called rule entry => [(rule, entry)]
  | .stamped rule entry _ => [(rule, entry)]
  | .looked alert => [(alert.rule, alert.entry)]
  | _ => []

def content (labels : List (Label K)) : List Bytes :=
  (locked labels).flatMap fun writer => writer.2.lines scoreText

theorem locked_append (labels more : List (Label K)) :
    locked (labels ++ more) = locked labels ++ locked more :=
  List.filterMap_append

theorem handled_append (thread : Nat) (labels more : List (Label K)) :
    handled thread (labels ++ more) = handled thread labels ++ handled thread more :=
  List.filterMap_append

theorem lockedBy_append (thread : Nat) (labels more : List (Label K)) :
    lockedBy thread (labels ++ more) = lockedBy thread labels ++ lockedBy thread more := by
  rw [lockedBy, locked_append, List.filter_append, List.map_append]
  rfl

theorem content_append (labels more : List (Label K)) :
    content scoreText (labels ++ more) = content scoreText labels ++ content scoreText more := by
  rw [content, locked_append, List.flatMap_append]
  rfl

end History

section Runs

variable {K : Type} [Field K] [LinearOrder K] {patterns : Patterns} {ranking : Ranking Bytes K}
  {scoreText : K → Bytes} {opened : Bool} {old : Bytes} {indexer : Option (Indexer K)}
  {labels : List (Label K)} {s final : State K} {label : Label K}

omit [Field K] [LinearOrder K] in
/-- One thread moves: what comes to it either goes on or has got the lock. -/
theorem pending_update {position : Nat → Position K} {mover : Nat} {next : Position K}
    {entered left : List (AlertRule × LogEntry)}
    (moved : (position mover).pending ++ entered = left ++ next.pending) (thread : Nat) :
    (position thread).pending ++ (if mover = thread then entered else []) =
      (if mover = thread then left else []) ++
        (Function.update position mover next thread).pending := by
  by_cases same : mover = thread
  · subst same
    rw [if_pos rfl, if_pos rfl, Function.update_self, moved]
  · rw [if_neg same, if_neg same, Function.update_of_ne (Ne.symm same), List.append_nil,
      List.nil_append]

theorem step_pending (step : Step patterns ranking scoreText s label final) (thread : Nat) :
    (s.position thread).pending ++ handled thread [label] =
      lockedBy thread [label] ++ (final.position thread).pending := by
  cases step with
  | @handle mover here rule entry =>
    have moved : (s.position mover).pending ++ [(rule, entry)] = [] ++ [(rule, entry)] := by
      rw [here]
      rfl
    have all := @pending_update K s.position mover (.called rule entry) _ _ moved thread
    by_cases same : mover = thread <;> simpa [handled, lockedBy, locked, same] using all
  | @stamp mover rule entry here timestamp =>
    have moved : (s.position mover).pending ++ [] = [] ++ [(rule, entry)] := by
      rw [here]
      rfl
    simpa [handled, lockedBy, locked] using
      @pending_update K s.position mover (.stamped rule entry timestamp) _ _ moved thread
  | @lookUp mover rule entry timestamp here =>
    have moved : (s.position mover).pending ++ [] = [] ++ [(rule, entry)] := by
      rw [here]
      rfl
    simpa [handled, lockedBy, locked] using @pending_update K s.position mover
      (.looked ⟨timestamp, rule, entry, lookUp patterns ranking s.indexer rule entry⟩) _ _
      moved thread
  | @lock mover alert here free =>
    have moved : (s.position mover).pending ++ [] = [(alert.rule, alert.entry)] ++ [] := by
      rw [here]
      rfl
    have all := @pending_update K s.position mover
      (.writing (if s.stream.opened then alert.lines scoreText else []) alert.codeLocs) _ _
      moved thread
    by_cases same : mover = thread <;> simpa [handled, lockedBy, locked, same] using all
  | @put mover line rest codeLocs here =>
    have moved : (s.position mover).pending ++ [] = [] ++ [] := by
      rw [here]
      rfl
    simpa [handled, lockedBy, locked] using
      @pending_update K s.position mover (.writing rest codeLocs) _ _ moved thread
  | @flush mover codeLocs here =>
    have moved : (s.position mover).pending ++ [] = [] ++ [] := by
      rw [here]
      rfl
    simpa [handled, lockedBy, locked] using
      @pending_update K s.position mover (.storing codeLocs) _ _ moved thread
  | @store mover codeLocs here =>
    have moved : (s.position mover).pending ++ [] = [] ++ [] := by
      rw [here]
      rfl
    simpa [handled, lockedBy, locked] using
      @pending_update K s.position mover .outside _ _ moved thread
  | spill held good count => simp [handled, lockedBy, locked]
  | failAfter held good count => simp [handled, lockedBy, locked]
  | reindex other => simp [handled, lockedBy, locked]

/-- What a thread called is what got the lock for it and what is on its way, in this order. -/
theorem handled_run (run : Run (Step patterns ranking scoreText) (initial opened old indexer)
    labels final) (thread : Nat) :
    handled thread labels = lockedBy thread labels ++ (final.position thread).pending := by
  induction run with
  | refl => rfl
  | @snoc labels current next label _ last ih =>
    calc handled thread (labels ++ [label])
        = lockedBy thread labels ++ ((current.position thread).pending ++ handled thread [label]) :=
          by rw [handled_append, ih, List.append_assoc]
      _ = lockedBy thread (labels ++ [label]) ++ (next.position thread).pending := by
          rw [step_pending last thread, lockedBy_append, List.append_assoc]

def Position.rest : Position K → List Bytes
  | .writing rest _ => rest
  | _ => []

def Position.Writing : Position K → Prop
  | .writing _ _ => True
  | _ => False

def State.remaining (s : State K) : List Bytes :=
  match s.holder with
  | none => []
  | some thread => (s.position thread).rest

omit [Field K] [LinearOrder K] in
theorem rest_of_not_writing {position : Position K} (elsewhere : ¬position.Writing) :
    position.rest = [] := by
  cases position with
  | writing rest codeLocs => exact absurd trivial elsewhere
  | _ => rfl

omit [Field K] [LinearOrder K] in
theorem remaining_of_free (free : s.holder = none) : s.remaining = [] := by
  rw [State.remaining, free]

omit [Field K] [LinearOrder K] in
theorem remaining_of_held {thread : Nat} (held : s.holder = some thread) :
    s.remaining = (s.position thread).rest := by
  rw [State.remaining, held]

omit [Field K] [LinearOrder K] in
theorem countP_lines (alert : Alert K) : (alert.lines scoreText).countP (marked 91) = 1 := by
  have first : marked 91 (message alert.timestamp alert.rule alert.entry) = true := rfl
  have others : (alert.codeLocs.flatMap (locationLines scoreText)).countP (marked 91) = 0 := by
    rw [List.countP_eq_zero]
    intro line inside
    obtain ⟨loc, -, own⟩ := List.mem_flatMap.mp inside
    rcases List.mem_cons.mp own with rfl | snippet
    · exact Bool.false_ne_true
    · split at snippet
      next => cases snippet
      next =>
        rw [List.mem_singleton.mp snippet]
        exact Bool.false_ne_true
  rw [Alert.lines, List.countP_cons_of_pos first, others]

omit [Field K] [LinearOrder K] in
theorem countP_content (labels : List (Label K)) :
    (content scoreText labels).countP (marked 91) = (locked labels).length := by
  unfold content
  induction locked labels with
  | nil => rfl
  | cons writer rest ih =>
    rw [List.flatMap_cons, List.countP_append, countP_lines, ih, List.length_cons, Nat.add_comm]

variable (scoreText old) in
/-- One thread at most writes, and the stream has what was put into it. -/
structure Kept (labels : List (Label K)) (s : State K) : Prop where
  exclusive : ∀ thread, (s.position thread).Writing → s.holder = some thread
  written : ∃ written, s.stream.Holds old written ∧ (s.stream.opened = true →
    written ++ joined 10 s.remaining = joined 10 (content scoreText labels))
  flushed : s.holder = none → s.stream.good = true → s.stream.buffered = []

omit [Field K] [LinearOrder K] in
theorem writing_update {position : Nat → Position K} {holder : Option Nat} {mover : Nat}
    {next : Position K} (own : next.Writing → holder = some mover)
    (others : ∀ thread ≠ mover, (position thread).Writing → holder = some thread) (thread : Nat)
    (writing : (Function.update position mover next thread).Writing) : holder = some thread := by
  by_cases same : thread = mover
  · rw [same, Function.update_self] at writing
    rw [same]
    exact own writing
  · rw [Function.update_of_ne same] at writing
    exact others thread same writing

omit [Field K] [LinearOrder K] in
theorem content_of_silent (silent : locked [label] = []) :
    content scoreText (labels ++ [label]) = content scoreText labels := by
  rw [content_append, content, content, silent]
  exact List.append_nil _

omit [Field K] [LinearOrder K] in
theorem Kept.move (kept : Kept scoreText old labels s) (silent : locked [label] = [])
    {mover : Nat} {next : Position K} (before : ¬(s.position mover).Writing)
    (after : ¬next.Writing) (stream : final.stream = s.stream) (holder : final.holder = s.holder)
    (position : final.position = Function.update s.position mover next) :
    Kept scoreText old (labels ++ [label]) final := by
  have same (thread : Nat) : (final.position thread).rest = (s.position thread).rest := by
    rw [position]
    by_cases moved : thread = mover
    · rw [moved, Function.update_self, rest_of_not_writing before, rest_of_not_writing after]
    · rw [Function.update_of_ne moved]
  have remaining : final.remaining = s.remaining := by
    unfold State.remaining
    rw [holder]
    cases s.holder with
    | none => rfl
    | some thread => exact same thread
  apply Kept.mk
  · rw [position, holder]
    apply writing_update
    · intro writing
      exact absurd writing after
    · intro thread _ writing
      exact kept.exclusive thread writing
  · obtain ⟨written, holds, all⟩ := kept.written
    rw [stream, remaining, content_of_silent silent]
    exact ⟨written, holds, all⟩
  · rw [holder, stream]
    exact kept.flushed

omit [Field K] [LinearOrder K] in
theorem Kept.restream (kept : Kept scoreText old labels s) (silent : locked [label] = [])
    {thread : Nat} (held : s.holder = some thread) {stream : OutputStream}
    (opened : stream.opened = s.stream.opened)
    (holds : ∀ written, s.stream.Holds old written → stream.Holds old written) :
    Kept scoreText old (labels ++ [label]) { s with stream := stream } := by
  apply Kept.mk
  · exact kept.exclusive
  · obtain ⟨written, before, all⟩ := kept.written
    apply Exists.intro written
    rw [content_of_silent silent]
    exact ⟨holds written before, fun still => all (opened ▸ still)⟩
  · intro free
    have both : some thread = none := held.symm.trans free
    cases both

theorem kept_step (kept : Kept scoreText old labels s)
    (step : Step patterns ranking scoreText s label final) :
    Kept scoreText old (labels ++ [label]) final := by
  cases step with
  | @handle thread here rule entry =>
    have before : ¬(s.position thread).Writing := by
      rw [here]
      exact id
    exact kept.move rfl before id rfl rfl rfl
  | @stamp thread rule entry here timestamp =>
    have before : ¬(s.position thread).Writing := by
      rw [here]
      exact id
    exact kept.move rfl before id rfl rfl rfl
  | @lookUp thread rule entry timestamp here =>
    have before : ¬(s.position thread).Writing := by
      rw [here]
      exact id
    exact kept.move rfl before id rfl rfl rfl
  | @store thread codeLocs here =>
    have before : ¬(s.position thread).Writing := by
      rw [here]
      exact id
    exact kept.move rfl before id rfl rfl rfl
  | @lock thread alert here free =>
    obtain ⟨written, holds, all⟩ := kept.written
    rw [remaining_of_free free] at all
    apply Kept.mk
    · apply writing_update
      · intro _
        rfl
      · intro other _ writing
        have both := (kept.exclusive other writing).symm.trans free
        cases both
    · refine ⟨written, holds, fun opened => ?_⟩
      have open_ : s.stream.opened = true := opened
      have more : content scoreText [Label.lock thread alert] = alert.lines scoreText :=
        List.append_nil _
      have left := (Function.update_self thread (.writing (if s.stream.opened then
        alert.lines scoreText else []) alert.codeLocs) s.position)
      rw [remaining_of_held rfl, content_append, more, joined_append, ← all open_,
        congrArg Position.rest left, Position.rest, if_pos open_]
      exact congrArg (· ++ _) (List.append_nil written).symm
    · intro none
      cases none
  | @put thread line rest codeLocs here =>
    have held : s.holder = some thread := by
      apply kept.exclusive
      rw [here]
      trivial
    obtain ⟨written, holds, all⟩ := kept.written
    rw [remaining_of_held held, here] at all
    apply Kept.mk
    · apply writing_update
      · intro _
        exact held
      · intro other _ writing
        exact kept.exclusive other writing
    · refine ⟨written ++ (line ++ [10]), holds.put _, fun opened => ?_⟩
      have open_ : s.stream.opened = true := (s.stream.put_opened _).symm.trans opened
      have left := Function.update_self thread (Position.writing rest codeLocs) s.position
      have after : State.remaining { s with
          stream := s.stream.put (line ++ [10])
          position := Function.update s.position thread (.writing rest codeLocs) } = rest := by
        rw [State.remaining, held]
        exact congrArg Position.rest left
      rw [after, content_of_silent rfl, ← all open_]
      simp only [Position.rest, joined_cons, List.append_assoc, List.singleton_append]
    · intro free
      have both := held.symm.trans free
      cases both
  | spill held good count =>
    exact kept.restream rfl held rfl fun written holds => holds.spill good count
  | failAfter held good count =>
    exact kept.restream rfl held rfl fun written holds => holds.failAfter good count
  | @flush thread codeLocs here =>
    have held : s.holder = some thread := by
      apply kept.exclusive
      rw [here]
      trivial
    obtain ⟨written, holds, all⟩ := kept.written
    rw [remaining_of_held held, here] at all
    apply Kept.mk
    · apply writing_update
      · intro writing
        cases writing
      · intro other different writing
        have both := (kept.exclusive other writing).symm.trans held
        exact absurd (Option.some.inj both) different
    · refine ⟨written, holds.flush, fun opened => ?_⟩
      have open_ : s.stream.opened = true := s.stream.flush_opened.symm.trans opened
      rw [remaining_of_free rfl, content_of_silent rfl]
      exact all open_
    · intro _ good
      exact OutputStream.flush_buffered good
  | reindex other =>
    obtain ⟨written, holds, all⟩ := kept.written
    rw [← @content_of_silent K scoreText labels (.reindex other) rfl] at all
    exact ⟨kept.exclusive, ⟨written, holds, all⟩, kept.flushed⟩

theorem kept_run (run : Run (Step patterns ranking scoreText) (initial opened old indexer)
    labels final) : Kept scoreText old labels final := by
  induction run with
  | refl =>
    apply Kept.mk
    · intro thread writing
      cases writing
    · exact ⟨[], OutputStream.Holds.empty old opened, fun _ => rfl⟩
    · intro _ _
      rfl
  | snoc _ last ih => exact kept_step ih last

/-- After a failed write, or if the file was not opened, nothing more reaches it. -/
theorem file_step_of_not_good (closed : s.stream.good = false)
    (step : Step patterns ranking scoreText s label final) :
    final.stream.good = false ∧ final.stream.file = s.stream.file := by
  cases step with
  | put here =>
    rw [OutputStream.put_of_not_good closed]
    exact ⟨closed, rfl⟩
  | flush here =>
    rw [OutputStream.flush_of_not_good closed]
    exact ⟨closed, rfl⟩
  | spill held good count => exact absurd good (closed ▸ Bool.false_ne_true)
  | failAfter held good count => exact absurd good (closed ▸ Bool.false_ne_true)
  | _ => exact ⟨closed, rfl⟩

theorem file_run_of_not_good (closed : s.stream.good = false)
    (run : Run (Step patterns ranking scoreText) s labels final) :
    final.stream.file = s.stream.file := by
  have both : final.stream.good = false ∧ final.stream.file = s.stream.file := by
    induction run with
    | refl => exact ⟨closed, rfl⟩
    | snoc _ last ih =>
      have next := file_step_of_not_good ih.1 last
      exact ⟨next.1, next.2.trans ih.2⟩
  exact both.2

theorem opened_run (run : Run (Step patterns ranking scoreText) (initial opened old indexer)
    labels final) : final.stream.opened = opened := by
  induction run with
  | refl => rfl
  | snoc _ last ih =>
    cases last with
    | put here => exact (OutputStream.put_opened ..).trans ih
    | flush here => exact (OutputStream.flush_opened _).trans ih
    | _ => exact ih

/-- The text of an alert is that of the thread's own call, with what its lookup found then. -/
def Looked (patterns : Patterns) (ranking : Ranking Bytes K) (thread : Nat) (alert : Alert K)
    (s : State K) : Prop :=
  s.position thread = .stamped alert.rule alert.entry alert.timestamp ∧
    alert.codeLocs = lookUp patterns ranking s.indexer alert.rule alert.entry

omit [Field K] [LinearOrder K] in
theorem looked_update {position : Nat → Position K} {mover thread : Nat} {next : Position K}
    {alert : Alert K} (other : next ≠ .looked alert)
    (looked : Function.update position mover next thread = .looked alert) :
    position thread = .looked alert := by
  by_cases same : thread = mover
  · rw [same, Function.update_self] at looked
    exact absurd looked other
  · rwa [Function.update_of_ne same] at looked

theorem looked_step {thread : Nat} {alert : Alert K}
    (step : Step patterns ranking scoreText s label final)
    (looked : final.position thread = .looked alert) :
    s.position thread = .looked alert ∨
      label = .lookUp thread ∧ Looked patterns ranking thread alert s := by
  cases step with
  | handle here rule entry => exact .inl (looked_update (by simp) looked)
  | stamp here timestamp => exact .inl (looked_update (by simp) looked)
  | lock here free => exact .inl (looked_update (by simp) looked)
  | put here => exact .inl (looked_update (by simp) looked)
  | flush here => exact .inl (looked_update (by simp) looked)
  | store here => exact .inl (looked_update (by simp) looked)
  | @lookUp mover rule entry timestamp here =>
    by_cases same : thread = mover
    · subst same
      have now := (Function.update_self ..).symm.trans looked
      obtain rfl := Position.looked.inj now
      exact .inr ⟨rfl, here, rfl⟩
    · exact .inl ((Function.update_of_ne same ..).symm.trans looked)
  | spill held good count => exact .inl looked
  | failAfter held good count => exact .inl looked
  | reindex other => exact .inl looked

theorem looked_run (run : Run (Step patterns ranking scoreText) (initial opened old indexer)
    labels final) {thread : Nat} {alert : Alert K}
    (there : final.position thread = .looked alert ∨ (thread, alert) ∈ locked labels) :
    Took (Step patterns ranking scoreText) (initial opened old indexer) labels final
      (.lookUp thread) fun _ s => Looked patterns ranking thread alert s := by
  induction run generalizing thread alert with
  | refl =>
    rcases there with looked | listed
    · cases looked
    · cases listed
  | @snoc labels current next label run last ih =>
    rcases there with looked | listed
    · rcases looked_step last looked with before | ⟨rfl, now⟩
      · exact (ih (.inl before)).snoc last
      · exact Took.now run last now
    · rw [locked_append] at listed
      rcases List.mem_append.mp listed with earlier | new
      · exact (ih (.inr earlier)).snoc last
      · cases last with
        | lock here free =>
          obtain ⟨rfl, rfl⟩ := Prod.mk.inj (List.mem_singleton.mp new)
          exact (ih (.inl here)).snoc (.lock here free)
        | _ => cases new

/-- What is in the alert log. -/
theorem alerts_logged (run : Run (Step patterns ranking scoreText) (initial opened old indexer)
    labels final) :
    (∃ reached, reached <+: joined 10 (content scoreText labels) ∧
      final.stream.file = old ++ reached) ∧
    (final.stream.good = true → final.holder = none →
      final.stream.file = old ++ joined 10 (content scoreText labels)) ∧
    (∀ thread, handled thread labels = lockedBy thread labels ++ (final.position thread).pending) ∧
    (∀ thread alert, (thread, alert) ∈ locked labels →
      Took (Step patterns ranking scoreText) (initial opened old indexer) labels final
        (.lookUp thread) fun _ s => Looked patterns ranking thread alert s) ∧
    (final.stream.good = false → ∀ more later,
      Run (Step patterns ranking scoreText) final more later →
        later.stream.file = final.stream.file) := by
  have kept := kept_run run
  obtain ⟨written, holds, all⟩ := kept.written
  refine ⟨?_, ?_, handled_run run, fun thread alert listed => looked_run run (.inr listed),
    fun closed more later rest => file_run_of_not_good closed rest⟩
  · cases open_ : final.stream.opened with
    | true =>
      obtain ⟨reached, part, file⟩ := holds.cut
      exact ⟨reached, part.trans ⟨_, all open_⟩, file⟩
    | false =>
      have never : (initial opened old indexer).stream.good = false := by
        rw [(opened_run run).symm.trans open_]
        rfl
      exact ⟨[], List.nil_prefix, (file_run_of_not_good never run).trans (List.append_nil old).symm⟩
  · intro good free
    have whole := all (OutputStream.good_iff.mp good).1
    rw [remaining_of_free free] at whole
    have nothing : joined 10 ([] : List Bytes) = [] := rfl
    rw [holds.file_eq good (kept.flushed free good), ← whole, nothing, List.append_nil]

/-- Only a line that brings its own end of a line, with a bracket behind it, makes the log show an
alert that was not one. -/
theorem shown_iff (run : Run (Step patterns ranking scoreText) (initial opened [] indexer)
    labels final) (good : final.stream.good = true) (free : final.holder = none) :
    (locked labels).length ≤ ((ended 10 final.stream.file).filter (marked 91)).length ∧
    (((ended 10 final.stream.file).filter (marked 91)).length = (locked labels).length ↔
      ∀ thread alert, (thread, alert) ∈ locked labels →
        ∀ line ∈ alert.lines scoreText, ¬text "\n[" <:+: line) := by
  have kept := kept_run run
  obtain ⟨written, holds, all⟩ := kept.written
  have whole := all (OutputStream.good_iff.mp good).1
  rw [remaining_of_free free] at whole
  have nothing : joined 10 ([] : List Bytes) = [] := rfl
  have file : final.stream.file = joined 10 (content scoreText labels) := by
    rw [holds.file_eq good (kept.flushed free good), ← whole, nothing, List.append_nil,
      List.nil_append]
  have other : (91 : UInt8) ≠ 10 := by decide
  obtain ⟨least, exactly⟩ := countP_marked_joined other (content scoreText labels)
  rw [file, ← List.countP_eq_length_filter]
  rw [countP_content] at least exactly
  refine ⟨least, exactly.trans ?_⟩
  constructor
  · intro clean thread alert listed line inside
    exact clean line (List.mem_flatMap.mpr ⟨(thread, alert), listed, inside⟩)
  · intro clean line inside
    obtain ⟨writer, listed, own⟩ := List.mem_flatMap.mp inside
    exact clean writer.1 writer.2 listed line own

end Runs

section Example

def blindPatterns : Patterns where
  functionName := fun _ _ => none
  className := fun _ => none
  strLit := fun _ => []
  ident := fun _ => []
  fileRef := fun _ => []
  funcRef := fun _ => []
  camel := fun _ => []
  snake := fun _ => []
  word := fun _ => []

def diskRule : AlertRule := ⟨text "disk", .error⟩

def plainEntry : LogEntry := ⟨text "disk full", text "a.log", [], 0, 1⟩

def forgedEntry : LogEntry := ⟨text "disk\n[9] CRITICAL [root]", text "http:web", text "web", 0, 1⟩

theorem overtaken_run (old : Bytes) : ∃ labels final,
    Run (Step blindPatterns (Ranking.merge Bytes ℚ) fun _ => []) (initial true old none)
      labels final ∧ final.stream.good = true ∧ final.holder = none ∧
      locked labels = [(2, ⟨text "7", diskRule, plainEntry, []⟩),
        (1, ⟨text "8", diskRule, forgedEntry, []⟩)] := by
  have called := (Run.single (@Step.handle ℚ _ _ blindPatterns (Ranking.merge Bytes ℚ) (fun _ => [])
    (initial true old none) 1 rfl diskRule forgedEntry)).snoc
      (@Step.handle ℚ _ _ _ _ _ _ 2 rfl diskRule plainEntry)
  have stamped := (called.snoc (@Step.stamp ℚ _ _ _ _ _ _ 2 _ _ rfl (text "7"))).snoc
    (@Step.stamp ℚ _ _ _ _ _ _ 1 _ _ rfl (text "8"))
  have looked := (stamped.snoc (@Step.lookUp ℚ _ _ _ _ _ _ 1 _ _ _ rfl)).snoc
    (@Step.lookUp ℚ _ _ _ _ _ _ 2 _ _ _ rfl)
  have first := ((looked.snoc (@Step.lock ℚ _ _ _ _ _ _ 2 _ rfl rfl)).snoc
    (@Step.put ℚ _ _ _ _ _ _ 2 _ _ _ rfl)).snoc (@Step.flush ℚ _ _ _ _ _ _ 2 _ rfl)
  have second := ((first.snoc (@Step.lock ℚ _ _ _ _ _ _ 1 _ rfl rfl)).snoc
    (@Step.put ℚ _ _ _ _ _ _ 1 _ _ _ rfl)).snoc (@Step.flush ℚ _ _ _ _ _ _ 1 _ rfl)
  exact ⟨_, _, second, rfl, rfl, rfl⟩

/-- The log has the alerts as they got the lock, not as they came. -/
theorem alerts_logged_overtaken : ∃ labels final,
    Run (Step blindPatterns (Ranking.merge Bytes ℚ) fun _ => []) (initial true (text "-") none)
      labels final ∧
    final.stream.file = text "-[7] ERROR [disk] source=a.log | disk full\n" ++
      text "[8] ERROR [disk] source=http:web service=web | disk\n[9] CRITICAL [root]\n" := by
  obtain ⟨labels, final, run, good, free, order⟩ := overtaken_run (text "-")
  apply Exists.intro labels
  apply Exists.intro final
  refine ⟨run, ((alerts_logged run).2.1 good free).trans ?_⟩
  rw [content, order]
  decide +kernel

theorem shown_iff_overtaken : ∃ labels final,
    Run (Step blindPatterns (Ranking.merge Bytes ℚ) fun _ => []) (initial true [] none)
      labels final ∧ (locked labels).length = 2 ∧
    2 < ((ended 10 final.stream.file).filter (marked 91)).length := by
  obtain ⟨labels, final, run, good, free, order⟩ := overtaken_run []
  obtain ⟨least, exactly⟩ := shown_iff run good free
  have forged : ((ended 10 final.stream.file).filter (marked 91)).length ≠
      (locked labels).length := by
    intro same
    have clean := exactly.mp same 1 ⟨text "8", diskRule, forgedEntry, []⟩
    rw [order] at clean
    have apart := clean (by simp) _ (List.mem_cons_self ..)
    exact apart (by decide +kernel)
  rw [order] at least forged
  exact ⟨labels, final, run, congrArg List.length order, lt_of_le_of_ne least (Ne.symm forged)⟩

end Example

end LogMonitor.AlertManager
