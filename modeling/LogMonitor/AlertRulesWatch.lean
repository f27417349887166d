import LogMonitor.AlertRulesReload
import LogMonitor.Library.Transition

/-!
The hot reload of the alert rules. One thread watches the file, with inotify or
by its modification time, and sets a flag; the check thread takes the flag and
loads what the path names by then. Others write to files and move them to and
from the path at any time. The watch holds on to the file that was there when it
was added.
-/

namespace LogMonitor.AlertRulesWatch
open Library Library.ByteString Library.Transition AlertRulesEngine

/-- The files are numbered; the path names one of them or none. -/
structure FileSystem where
  path : Option Nat
  contents : Nat → RulesFile
  mtime : Nat → Int

def FileSystem.rulesFile (fs : FileSystem) : RulesFile :=
  match fs.path with
  | none => .missing
  | some file => fs.contents file

inductive Action where
  | write (file : Nat) (content : RulesFile) (mtime : Int)
  /-- Someone who had the file open for writing closes it. -/
  | close (file : Nat)
  /-- A file is created at the path, or moved to it. -/
  | create (file : Nat)
  | remove

/-- Where the watch thread is. Its loop polls when it has a modification time to compare with. -/
inductive Place where
  /-- Before the inotify instance is there. -/
  | starting
  | adding
  /-- Before `file_watch_polling` asks for the first modification time. -/
  | falling
  | looping (last : Option Int)
  /-- Before `reload_pending_.store(true)`. -/
  | signalling (last : Option Int)
  | returned
  /-- An exception has left the thread, and the process has ended. -/
  | escaped
deriving DecidableEq

inductive Loader where
  | sleeping
  | opening
  /-- The stream is open on this file, which may have been written to since. -/
  | reading (file : Nat) (torn : Bool)
  | evaluating (index : Nat)
  | returned

def Loader.tear (file : Nat) : Loader → Loader
  | .reading other torn => .reading other (torn || decide (other = file))
  | loader => loader

structure State where
  fs : FileSystem
  /-- Written to since it was last closed. -/
  unclosed : Nat → Bool
  watched : Option Nat
  /-- Events wait to be read from the inotify instance. -/
  pending : Bool
  place : Place
  reloadPending : Bool
  loader : Loader
  rules : List AlertRuleState
  stopFlag : Bool

def initial (fs : FileSystem) : State where
  fs := fs
  unclosed := fun _ => false
  watched := none
  pending := false
  place := .starting
  reloadPending := false
  loader := .sleeping
  rules := reload fs.rulesFile []
  stopFlag := false

/-- A close is noticed through the watch; the kernel keeps one event of a kind. -/
def State.act (s : State) : Action → State
  | .write file content mtime =>
    { s with
      fs := { s.fs with
        contents := Function.update s.fs.contents file content
        mtime := Function.update s.fs.mtime file mtime }
      unclosed := Function.update s.unclosed file true
      loader := s.loader.tear file }
  | .close file =>
    { s with
      unclosed := Function.update s.unclosed file false
      pending := s.pending || decide (s.watched = some file) }
  | .create file => { s with fs := { s.fs with path := some file } }
  | .remove => { s with fs := { s.fs with path := none } }

/-- `inotify_add_watch`, which may also be refused. -/
def State.addWatch (s : State) (granted : Bool) : State :=
  match s.fs.path with
  | some file =>
    if granted then { s with watched := some file, place := .looping none }
    else { s with place := .falling }
  | none => { s with place := .falling }

/-- The first `last_write_time` throws when the path names nothing. -/
def State.startPolling (s : State) : State :=
  match s.fs.path with
  | some file => { s with place := .looping (some (s.fs.mtime file)) }
  | none => { s with place := .escaped }

def State.poll (s : State) (last : Int) : State :=
  match s.fs.path with
  | some file =>
    if s.fs.mtime file ≠ last then { s with place := .signalling (some (s.fs.mtime file)) } else s
  | none => s

/-- `reload_pending_.exchange(false)` and what it decides. -/
def State.tick (s : State) : State :=
  { s with reloadPending := false, loader := if s.reloadPending then .opening else .evaluating 0 }

def State.openRules (s : State) : State :=
  { s with loader := match s.fs.path with
      | some file => .reading file false
      | none => .evaluating 0 }

def evaluated (cfg : Config) (tsdbs : Tsdbs) (rs : AlertRuleState) (now countNow : Int) :
    AlertRuleState :=
  let (_, rs, alert) := evaluateRule cfg tsdbs rs now countNow
  if alert.isSome then { rs with state := .cooldown } else rs

inductive Label where
  | act (action : Action)
  /-- The watched file is gone for good, and with it the watch. -/
  | ignored
  | stop
  /-- `reload()`, which the dashboard calls. -/
  | request
  | start (granted : Bool)
  | addWatch (granted : Bool)
  | startPolling
  | readEvents
  | signal
  | poll
  | quit
  | tick
  | openRules
  | readRules (seen : RulesFile)
  | evaluate (index : Nat)
  | unlock
  | finish

inductive Step (cfg : Config) : State → Label → State → Prop
  | act (s : State) (action : Action) : Step cfg s (.act action) (s.act action)
  | ignored {s : State} {file : Nat} (watched : s.watched = some file)
      (gone : s.fs.path ≠ some file) :
      Step cfg s .ignored { s with watched := none, pending := true }
  | stop (s : State) : Step cfg s .stop { s with stopFlag := true }
  | request {s : State} (alive : s.place ≠ .escaped) :
      Step cfg s .request { s with reloadPending := true }
  | start {s : State} (granted : Bool) (here : s.place = .starting) :
      Step cfg s (.start granted) { s with place := if granted then .adding else .returned }
  | addWatch {s : State} (granted : Bool) (here : s.place = .adding) :
      Step cfg s (.addWatch granted) (s.addWatch granted)
  | startPolling {s : State} (here : s.place = .falling) :
      Step cfg s .startPolling s.startPolling
  | readEvents {s : State} (here : s.place = .looping none) (some : s.pending = true) :
      Step cfg s .readEvents { s with pending := false, place := .signalling none }
  | signal {s : State} {last : Option Int} (here : s.place = .signalling last) :
      Step cfg s .signal { s with reloadPending := true, place := .looping last }
  | poll {s : State} {last : Int} (here : s.place = .looping (some last)) :
      Step cfg s .poll (s.poll last)
  | quit {s : State} {last : Option Int} (here : s.place = .looping last)
      (stopped : s.stopFlag = true) :
      Step cfg s .quit { s with watched := none, pending := false, place := .returned }
  | tick {s : State} (alive : s.place ≠ .escaped) (here : s.loader = .sleeping) :
      Step cfg s .tick s.tick
  | openRules {s : State} (alive : s.place ≠ .escaped) (here : s.loader = .opening) :
      Step cfg s .openRules s.openRules
  | readRules {s : State} {file : Nat} {torn : Bool} (seen : RulesFile)
      (alive : s.place ≠ .escaped) (here : s.loader = .reading file torn)
      (whole : torn = false → seen = s.fs.contents file) :
      Step cfg s (.readRules seen)
        { s with rules := reload seen s.rules, loader := .evaluating 0 }
  | evaluate {s : State} {index : Nat} {rs : AlertRuleState} (tsdbs : Tsdbs) (now countNow : Int)
      (alive : s.place ≠ .escaped) (here : s.loader = .evaluating index)
      (next : s.rules[index]? = some rs) :
      Step cfg s (.evaluate index) { s with
        rules := s.rules.set index (evaluated cfg tsdbs rs now countNow)
        loader := .evaluating (index + 1) }
  | unlock {s : State} (alive : s.place ≠ .escaped)
      (here : s.loader = .evaluating s.rules.length) :
      Step cfg s .unlock { s with loader := .sleeping }
  | finish {s : State} (alive : s.place ≠ .escaped) (here : s.loader = .sleeping)
      (stopped : s.stopFlag = true) :
      Step cfg s .finish { s with loader := .returned }

/-! ### What is up to date -/

def configs (rules : List AlertRuleState) : List AlertRuleConfig := rules.map AlertRuleState.rule

def UpToDate (s : State) : Prop := configs (reload s.fs.rulesFile s.rules) = configs s.rules

/-- A change is on its way to the check thread, or will be when the file is closed. -/
inductive Underway (s : State) : Prop
  | flagged (flag : s.reloadPending = true)
  | signalling {last : Option Int} (here : s.place = .signalling last)
  | queued (here : s.place = .looping none) (pending : s.pending = true)
  | unclosed {file : Nat} (here : s.place = .looping none) (watched : s.watched = some file)
      (named : s.fs.path = some file) (dirty : s.unclosed file = true)
  | newer {file : Nat} {last : Int} (here : s.place = .looping (some last))
      (named : s.fs.path = some file) (newer : s.fs.mtime file ≠ last)

/-- The action changes what a load finds, and leaves something to find. -/
def Action.Touches (fs : FileSystem) : Action → Prop
  | .write file _ _ => fs.path = some file
  | .close _ => False
  | .create _ => True
  | .remove => False

def Unseen (s : State) (label : Label) : Prop :=
  ∃ action, label = .act action ∧ action.Touches s.fs ∧ ¬Underway (s.act action)

/-- Some change was unseen, and no load has begun since. -/
def Missed (cfg : Config) (start : State) (labels : List Label) (s : State) : Prop :=
  Since (Step cfg) start labels s Unseen (· = .openRules)

/-- What the check thread has is up to date, or will be when it has read the file. -/
def Current (s : State) : Prop :=
  match s.loader with
  | .opening => True
  | .reading file torn => s.fs.path = none ∨ s.fs.path = some file ∧ torn = false
  | _ => UpToDate s

section Configs

theorem configs_restore (rules : List AlertRuleState) (list : List AlertRuleConfig) :
    configs (list.map (restore rules)) = list := by
  have each : ∀ cfg, (restore rules cfg).rule = cfg := restore_rule rules
  simp [configs, Function.comp_def, each]

theorem configs_reload (file : RulesFile) {rules other : List AlertRuleState}
    (same : configs rules = configs other) :
    configs (reload file rules) = configs (reload file other) := by
  by_cases held : ∃ items, file.Holds items
  · obtain ⟨items, holds⟩ := held
    rw [reload_holds rules holds, reload_holds other holds, configs_restore, configs_restore]
  · have unheld : ∀ items, ¬file.Holds items := fun items holds => held ⟨items, holds⟩
    rw [reload_unheld rules unheld, reload_unheld other unheld, same]

theorem configs_reload_again (file : RulesFile) (rules : List AlertRuleState) :
    configs (reload file (reload file rules)) = configs (reload file rules) := by
  by_cases held : ∃ items, file.Holds items
  · obtain ⟨items, holds⟩ := held
    rw [reload_holds _ holds, reload_holds _ holds, configs_restore, configs_restore]
  · have unheld : ∀ items, ¬file.Holds items := fun items holds => held ⟨items, holds⟩
    rw [reload_unheld _ unheld, reload_unheld _ unheld]

theorem evaluated_rule (cfg : Config) (tsdbs : Tsdbs) (rs : AlertRuleState) (now countNow : Int) :
    (evaluated cfg tsdbs rs now countNow).rule = rs.rule := by
  have expired : (expire rs now).rule = rs.rule := by
    unfold expire
    split <;> rfl
  have kept : (evaluateRule cfg tsdbs rs now countNow).2.1.rule = rs.rule := by
    rw [evaluateRule]
    dsimp only
    split
    · exact expired
    · split
      · exact expired
      · split
        · exact expired
        · exact expired
  unfold evaluated
  dsimp only
  split
  · exact kept
  · exact kept

theorem configs_set {rules : List AlertRuleState} {index : Nat} {rs next : AlertRuleState}
    (here : rules[index]? = some rs) (same : next.rule = rs.rule) :
    configs (rules.set index next) = configs rules := by
  have there : (configs rules)[index]? = some rs.rule := by
    rw [configs, List.getElem?_map, here]
    rfl
  rw [configs, List.map_set, same, ← configs]
  obtain ⟨inside, value⟩ := List.getElem?_eq_some_iff.mp there
  rw [← value, List.set_getElem_self]

end Configs

section Invariant

variable {cfg : Config} {start s next : State} {labels : List Label} {label : Label}

theorem upToDate_of_missing (missing : s.fs.path = none) : UpToDate s := by
  have none : s.fs.rulesFile = .missing := by simp [FileSystem.rulesFile, missing]
  rw [UpToDate, none]
  rfl

theorem UpToDate.of_configs (upToDate : UpToDate s) (file : next.fs.rulesFile = s.fs.rulesFile)
    (same : configs next.rules = configs s.rules) : UpToDate next := by
  rw [UpToDate, file, configs_reload _ same, same]
  exact upToDate

theorem current_of_missing (missing : s.fs.path = none) : Current s := by
  unfold Current
  split
  · trivial
  · exact .inl missing
  · exact upToDate_of_missing missing

/-- Writing to another file than the path's, or closing one, changes nothing for a load. -/
theorem Current.act (current : Current s) {action : Action} (apart : ¬action.Touches s.fs) :
    Current (s.act action) := by
  cases action with
  | write file content mtime =>
    have other : s.fs.path ≠ some file := apart
    have same : (s.act (.write file content mtime)).fs.rulesFile = s.fs.rulesFile := by
      unfold FileSystem.rulesFile State.act
      dsimp only
      cases named : s.fs.path with
      | none => rfl
      | some shown =>
        have different : shown ≠ file := by
          rintro rfl
          exact other named
        exact Function.update_of_ne different ..
    cases here : s.loader with
    | opening => simp [Current, State.act, Loader.tear, here]
    | reading opened torn =>
      simp only [Current, here] at current
      simp only [Current, State.act, Loader.tear, here]
      rcases current with missing | ⟨named, whole⟩
      · exact .inl missing
      · have different : opened ≠ file := by
          rintro rfl
          exact other named
        refine .inr ⟨named, ?_⟩
        simp [whole, different]
    | _ =>
      simp only [Current, here] at current
      simp only [Current, State.act, Loader.tear, here]
      exact current.of_configs same rfl
  | close file => exact current
  | create file => exact absurd trivial apart
  | remove => exact current_of_missing rfl

/-- Nothing but a change of what the path names takes a change back that is on its way. -/
theorem Underway.act (underway : Underway s) {action : Action} (apart : ¬action.Touches s.fs)
    (remains : (s.act action).fs.path ≠ none) : Underway (s.act action) := by
  cases action with
  | write file content mtime =>
    have other : s.fs.path ≠ some file := apart
    cases underway with
    | flagged flag => exact .flagged flag
    | signalling here => exact .signalling here
    | queued here pending => exact .queued here pending
    | @unclosed shown here watched named dirty =>
      have different : shown ≠ file := by
        rintro rfl
        exact other named
      exact .unclosed here watched named ((Function.update_of_ne different ..).trans dirty)
    | @newer shown last here named newer =>
      have different : shown ≠ file := by
        rintro rfl
        exact other named
      refine .newer here named ?_
      change Function.update s.fs.mtime file mtime shown ≠ last
      rwa [Function.update_of_ne different]
  | close file =>
    cases underway with
    | flagged flag => exact .flagged flag
    | signalling here => exact .signalling here
    | queued here pending => exact .queued here (by simp [State.act, pending])
    | @unclosed shown here watched named dirty =>
      by_cases same : shown = file
      · subst shown
        exact .queued here (by simp [State.act, watched])
      · exact .unclosed here watched named ((Function.update_of_ne same ..).trans dirty)
    | newer here named newer => exact .newer here named newer
  | create file => exact absurd trivial apart
  | remove => exact absurd rfl remains

/-- The engine is stopping, has what the path names or will get it, or has missed a change. -/
inductive Followed (cfg : Config) (start : State) (labels : List Label) (s : State) : Prop
  | stopping (stopped : s.stopFlag = true)
  | current (current : Current s)
  | underway (underway : Underway s)
  | missed (missed : Missed cfg start labels s)

theorem followed_act {action : Action} (run : Run (Step cfg) start labels s)
    (followed : Followed cfg start labels s) :
    Followed cfg start (labels ++ [.act action]) (s.act action) := by
  have step : Step cfg s (.act action) (s.act action) := .act s action
  by_cases touches : action.Touches s.fs
  · by_cases underway : Underway (s.act action)
    · exact .underway underway
    · exact .missed (Since.now run step ⟨action, rfl, touches, underway⟩)
  cases followed with
  | stopping stopped => exact .stopping (by cases action <;> exact stopped)
  | current current => exact .current (current.act touches)
  | underway underway =>
    by_cases named : (s.act action).fs.path = none
    · exact .current (current_of_missing named)
    · exact .underway (underway.act touches named)
  | missed missed => exact .missed (missed.snoc step nofun)

/-- A state in which nothing has been signalled or is watched for. -/
theorem Underway.flag_of (underway : Underway s) (signalling : ∀ last, s.place ≠ .signalling last)
    (looping : ∀ last, s.place ≠ .looping last) : s.reloadPending = true := by
  cases underway with
  | flagged flag => exact flag
  | signalling here => exact absurd here (signalling _)
  | queued here pending => exact absurd here (looping _)
  | unclosed here watched named dirty => exact absurd here (looping _)
  | newer here named newer => exact absurd here (looping _)

theorem Underway.of_same (underway : Underway s) (fs : next.fs = s.fs)
    (dirty : next.unclosed = s.unclosed) (watched : next.watched = s.watched)
    (pending : next.pending = s.pending) (place : next.place = s.place)
    (flag : s.reloadPending = true → next.reloadPending = true) : Underway next := by
  cases underway with
  | flagged flagged => exact .flagged (flag flagged)
  | signalling here => exact .signalling (place.trans here)
  | queued here queued => exact .queued (place.trans here) (pending.trans queued)
  | unclosed here watching named written =>
    refine .unclosed (place.trans here) (watched.trans watching) (by rwa [fs]) ?_
    rwa [dirty]
  | newer here named newer =>
    refine .newer (place.trans here) (by rwa [fs]) ?_
    rwa [fs]

theorem stopFlag_step (stopped : s.stopFlag = true) (step : Step cfg s label next) :
    next.stopFlag = true := by
  cases step with
  | act action => cases action <;> exact stopped
  | stop => rfl
  | addWatch granted here =>
    unfold State.addWatch
    split
    · split <;> exact stopped
    · exact stopped
  | startPolling here =>
    unfold State.startPolling
    split <;> exact stopped
  | poll here =>
    unfold State.poll
    split
    · split <;> exact stopped
    · exact stopped
  | _ => exact stopped

/-- Every step of the program keeps the check thread up to date, or a change on its way to it. -/
theorem followed_step_own (step : Step cfg s label next) (own : ∀ action, label ≠ .act action)
    (followed : Current s ∨ Underway s) :
    next.stopFlag = true ∨ Current next ∨ Underway next := by
  cases step with
  | act action => exact absurd rfl (own action)
  | @ignored file watched gone =>
    rcases followed with current | underway
    · exact .inr (.inl current)
    · refine .inr (.inr ?_)
      cases underway with
      | flagged flag => exact .flagged flag
      | signalling here => exact .signalling here
      | queued here pending => exact .queued here rfl
      | unclosed here watching named dirty =>
        rw [watched] at watching
        exact absurd (named.trans watching.symm) gone
      | newer here named newer => exact .newer here named newer
  | stop => exact .inl rfl
  | request alive => exact .inr (.inr (.flagged rfl))
  | start granted here =>
    rcases followed with current | underway
    · exact .inr (.inl current)
    · refine .inr (.inr (.flagged (underway.flag_of ?_ ?_))) <;> simp [here]
  | addWatch granted here =>
    rcases followed with current | underway
    · refine .inr (.inl ?_)
      unfold State.addWatch
      split
      · split <;> exact current
      · exact current
    · refine .inr (.inr (.flagged ?_))
      have flag := underway.flag_of (by simp [here]) (by simp [here])
      unfold State.addWatch
      split
      · split <;> exact flag
      · exact flag
  | startPolling here =>
    rcases followed with current | underway
    · refine .inr (.inl ?_)
      unfold State.startPolling
      split <;> exact current
    · refine .inr (.inr (.flagged ?_))
      have flag := underway.flag_of (by simp [here]) (by simp [here])
      unfold State.startPolling
      split <;> exact flag
  | readEvents here some => exact .inr (.inr (.signalling rfl))
  | signal here => exact .inr (.inr (.flagged rfl))
  | @poll last here =>
    unfold State.poll
    split
    next file named =>
      split
      next newer => exact .inr (.inr (.signalling rfl))
      next => exact .inr followed
    next => exact .inr followed
  | quit here stopped => exact .inl stopped
  | tick alive here =>
    cases flag : s.reloadPending with
    | true => exact .inr (.inl (by simp [Current, State.tick, flag]))
    | false =>
      rcases followed with current | underway
      · refine .inr (.inl ?_)
        simp only [Current, here] at current
        simp only [Current, State.tick, flag]
        exact current
      · exact .inr (.inr (underway.of_same rfl rfl rfl rfl rfl (by simp [flag])))
  | openRules alive here =>
    refine .inr (.inl ?_)
    unfold State.openRules
    cases named : s.fs.path with
    | none => exact current_of_missing named
    | some file => exact .inr ⟨named, rfl⟩
  | @readRules file torn seen alive here whole =>
    rcases followed with current | underway
    · refine .inr (.inl ?_)
      simp only [Current, here] at current
      rcases current with missing | ⟨named, untorn⟩
      · exact current_of_missing missing
      · have found : s.fs.rulesFile = seen := by
          rw [whole untorn]
          simp only [FileSystem.rulesFile, named]
        change configs (reload s.fs.rulesFile (reload seen s.rules)) = configs (reload seen s.rules)
        rw [found]
        exact configs_reload_again seen s.rules
    · exact .inr (.inr (underway.of_same rfl rfl rfl rfl rfl id))
  | evaluate tsdbs now countNow alive here there =>
    rcases followed with current | underway
    · refine .inr (.inl ?_)
      simp only [Current, here] at current
      exact current.of_configs rfl (configs_set there (evaluated_rule ..))
    · exact .inr (.inr (underway.of_same rfl rfl rfl rfl rfl id))
  | unlock alive here =>
    rcases followed with current | underway
    · simp only [Current, here] at current
      exact .inr (.inl current)
    · exact .inr (.inr (underway.of_same rfl rfl rfl rfl rfl id))
  | finish alive here stopped => exact .inl stopped

theorem followed_step (run : Run (Step cfg) start labels s)
    (followed : Followed cfg start labels s) (step : Step cfg s label next) :
    Followed cfg start (labels ++ [label]) next := by
  by_cases outside : ∃ action, label = .act action
  · obtain ⟨action, rfl⟩ := outside
    cases step with
    | act => exact followed_act run followed
  have own : ∀ action, label ≠ .act action := fun action same => outside ⟨action, same⟩
  have ahead (holds : Current s ∨ Underway s) : Followed cfg start (labels ++ [label]) next := by
    rcases followed_step_own step own holds with stopped | current | underway
    · exact .stopping stopped
    · exact .current current
    · exact .underway underway
  cases followed with
  | stopping stopped => exact .stopping (stopFlag_step stopped step)
  | current current => exact ahead (.inl current)
  | underway underway => exact ahead (.inr underway)
  | missed missed =>
    by_cases opens : label = .openRules
    · -- a load that begins finds whatever was missed
      subst opens
      cases step with
      | openRules alive here => exact ahead (.inl (by simp [Current, here]))
    · exact .missed (missed.snoc step opens)

theorem followed_run {fs : FileSystem} (run : Run (Step cfg) (initial fs) labels s) :
    Followed cfg (initial fs) labels s := by
  refine run.invariant (fun labels s => Followed cfg (initial fs) labels s) ?_ ?_
  · exact .current (configs_reload_again fs.rulesFile [])
  · exact fun _ _ _ _ run followed step => followed_step run followed step

end Invariant

def State.Loading (s : State) : Prop :=
  s.loader = .opening ∨ ∃ file torn, s.loader = .reading file torn

def InPlace (s : State) (action : Action) : Prop :=
  ∃ file content mtime, action = .write file content mtime ∧ s.fs.path = some file ∧
    s.watched = some file ∧ (s.place = .looping none ∨ ∃ last, s.place = .signalling last)

theorem InPlace.underway {s : State} {action : Action} (edit : InPlace s action) :
    Underway (s.act action) := by
  obtain ⟨file, content, mtime, rfl, named, watched, here | ⟨last, here⟩⟩ := edit
  · exact .unclosed here watched named (Function.update_self ..)
  · exact .signalling here

/-- Whenever nothing is under way, the rules are those of the file, unless a change was made that
the watch could not see and nothing was loaded since. There is no such change as long as the file
is edited in place and under watch. -/
theorem hot_reload {cfg : Config} {fs : FileSystem} {labels : List Label} {s : State}
    (run : Run (Step cfg) (initial fs) labels s) (going : s.stopFlag = false)
    (idle : ¬s.Loading) (settled : ¬Underway s) :
    (UpToDate s ∨ Missed cfg (initial fs) labels s) ∧
      ((∀ action, ¬Took (Step cfg) (initial fs) labels s (.act action) fun _ m =>
        action.Touches m.fs ∧ ¬InPlace m action) → UpToDate s) := by
  have either : UpToDate s ∨ Missed cfg (initial fs) labels s := by
    cases followed_run run with
    | stopping stopped => simp [going] at stopped
    | underway underway => exact absurd underway settled
    | missed missed => exact .inr missed
    | current current =>
      unfold Current at current
      split at current
      next here => exact absurd (.inl here) idle
      next file torn here => exact absurd (.inr ⟨file, torn, here⟩) idle
      next => exact .inl current
  refine ⟨either, fun inPlace => either.resolve_right ?_⟩
  rintro ⟨before, label, after, middle, rfl, first, second, ⟨action, rfl, touches, unseen⟩, -⟩
  obtain ⟨next, taken, rest⟩ := second.uncons
  exact inPlace action ⟨before, after, middle, next, rfl, first, taken, rest, touches,
    fun edit => unseen edit.underway⟩

def oneRule : RulesFile :=
  .parsed (.array [.object [(text "id", .string (text "r")), (text "app", .string (text "app"))]])

def emptyFile : FileSystem := ⟨some 0, fun _ => .parsed (.array []), fun _ => 0⟩

def idleConfig : Config := ⟨fun _ => Tsdb.Store.empty, []⟩

theorem hot_reload_added : ∃ labels s, Run (Step idleConfig) (initial emptyFile) labels s ∧
    (UpToDate s ∨ Missed idleConfig (initial emptyFile) labels s) ∧
      configs s.rules ≠ configs (initial emptyFile).rules := by
  have watching := (Run.single (@Step.start idleConfig (initial emptyFile) true rfl)).snoc
    (.addWatch true rfl)
  have written := (watching.snoc (.act _ (.write 0 oneRule 1))).snoc (.act _ (.close 0))
  have flagged := (written.snoc (.readEvents rfl rfl)).snoc (.signal rfl)
  have opened := (flagged.snoc (.tick nofun rfl)).snoc (.openRules nofun rfl)
  have loaded := opened.snoc (.readRules oneRule nofun rfl fun _ => rfl)
  refine ⟨_, _, loaded, (hot_reload loaded rfl ?_ ?_).1, ?_⟩
  · rintro (here | ⟨file, torn, here⟩) <;> cases here
  · intro underway
    cases underway with
    | flagged flag => cases flag
    | signalling here => cases here
    | queued here pending => cases pending
    | @unclosed file here watched named dirty =>
      obtain rfl := Option.some.inj watched
      cases dirty
    | newer here named newer => cases here
  · exact fun same => absurd (congrArg List.length same) (by decide)

end LogMonitor.AlertRulesWatch
