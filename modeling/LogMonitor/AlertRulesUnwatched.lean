import LogMonitor.AlertRulesWatch

/-!
What the watch of the alert rules does not survive: that the file is replaced by
another, and that it is not there when the watch is to be added.
-/

namespace LogMonitor.AlertRulesWatch
open Library Library.ByteString Library.Transition AlertRulesEngine

/-! ### After the file was replaced -/

def Label.opens : Label → Bool
  | .openRules => true
  | _ => false

/-- The loads that what is signalled can still bring about. -/
def State.budget (s : State) : Nat :=
  s.pending.toNat + (if s.place = .signalling none then 1 else 0) + s.reloadPending.toNat +
    match s.loader with
    | .opening => 1
    | _ => 0

def Blind (s : State) : Prop :=
  s.watched = none ∧ (s.place = .looping none ∨ s.place = .signalling none ∨ s.place = .returned)

section Replaced

variable {cfg : Config} {s next : State} {labels : List Label} {label : Label}

theorem tear_opening (file : Nat) (loader : Loader) :
    (match loader.tear file with
      | .opening => 1
      | _ => 0) = match loader with
      | .opening => 1
      | _ => 0 := by
  cases loader <;> rfl

theorem blind_step (blind : Blind s) (step : Step cfg s label next) (unasked : label ≠ .request) :
    Blind next ∧ next.budget + label.opens.toNat ≤ s.budget := by
  obtain ⟨lost, place⟩ := blind
  cases step with
  | act action =>
    refine ⟨by cases action <;> exact ⟨lost, place⟩, ?_⟩
    cases action with
    | write file content mtime =>
      simp only [State.budget, State.act, tear_opening, Label.opens, Bool.toNat_false, Nat.add_zero]
      exact le_rfl
    | close file => simp [State.budget, State.act, lost, Label.opens]
    | create file => exact le_rfl
    | remove => exact le_rfl
  | ignored watched gone => simp [lost] at watched
  | stop => exact ⟨⟨lost, place⟩, le_rfl⟩
  | request alive => exact absurd rfl unasked
  | start granted here => simp [here] at place
  | addWatch granted here => simp [here] at place
  | startPolling here => simp [here] at place
  | readEvents here some =>
    refine ⟨⟨lost, .inr (.inl rfl)⟩, ?_⟩
    simp only [State.budget, here, some, Label.opens, reduceCtorEq, if_true, if_false,
      Bool.toNat_true, Bool.toNat_false]
    omega
  | @signal last here =>
    have inotify : last = none := by simpa [here] using place
    subst inotify
    refine ⟨⟨lost, .inl rfl⟩, ?_⟩
    have one := Bool.toNat_le s.reloadPending
    simp only [State.budget, here, Label.opens, reduceCtorEq, if_true, if_false,
      Bool.toNat_true, Bool.toNat_false]
    omega
  | poll here => simp [here] at place
  | quit here stopped =>
    refine ⟨⟨rfl, .inr (.inr rfl)⟩, ?_⟩
    simp only [State.budget, here, Label.opens, reduceCtorEq, if_false, Bool.toNat_false]
    omega
  | tick alive here =>
    refine ⟨⟨lost, place⟩, ?_⟩
    cases flag : s.reloadPending with
    | true => simp [State.budget, State.tick, flag, here, Label.opens]
    | false => simp [State.budget, State.tick, flag, here, Label.opens]
  | openRules alive here =>
    refine ⟨⟨lost, place⟩, ?_⟩
    cases named : s.fs.path <;> simp [State.budget, State.openRules, named, here, Label.opens]
  | readRules seen alive here whole =>
    refine ⟨⟨lost, place⟩, ?_⟩
    simp [State.budget, here, Label.opens]
  | evaluate tsdbs now countNow alive here there =>
    refine ⟨⟨lost, place⟩, ?_⟩
    simp [State.budget, here, Label.opens]
  | unlock alive here =>
    refine ⟨⟨lost, place⟩, ?_⟩
    simp [State.budget, here, Label.opens]
  | finish alive here stopped =>
    refine ⟨⟨lost, place⟩, ?_⟩
    simp [State.budget, here, Label.opens]

/-- Each load uses up a part of the budget, which nothing but a request adds to. -/
theorem blind_run (blind : Blind s) (run : Run (Step cfg) s labels next)
    (unasked : .request ∉ labels) :
    Blind next ∧ next.budget + labels.countP Label.opens ≤ s.budget := by
  induction run with
  | refl => exact ⟨blind, le_rfl⟩
  | @snoc labels current next label run last ih =>
    obtain ⟨still, spent⟩ := ih fun inside => unasked (List.mem_append_left _ inside)
    have other : label ≠ .request := fun same => unasked (by simp [same])
    obtain ⟨after, less⟩ := blind_step still last other
    refine ⟨after, ?_⟩
    rw [List.countP_append, List.countP_singleton]
    cases opens : label.opens with
    | true =>
      rw [opens, Bool.toNat_true] at less
      rw [if_pos rfl]
      omega
    | false =>
      rw [opens, Bool.toNat_false] at less
      rw [if_neg Bool.false_ne_true]
      omega

theorem configs_step (step : Step cfg s label next) (idle : ¬s.Loading)
    (spent : next.budget + label.opens.toNat = 0) :
    configs next.rules = configs s.rules ∧ ¬next.Loading := by
  have nothing : ∀ t : State, t.rules = s.rules → t.loader = s.loader →
      configs t.rules = configs s.rules ∧ ¬t.Loading := by
    intro t rules loader
    refine ⟨by rw [rules], ?_⟩
    unfold State.Loading
    rwa [loader]
  cases step with
  | act action =>
    cases action with
    | write file content mtime =>
      refine ⟨rfl, ?_⟩
      have tear := s.loader
      unfold State.Loading at idle ⊢
      simp only [State.act]
      cases here : s.loader <;> simp_all [Loader.tear]
    | _ => exact nothing _ rfl rfl
  | addWatch granted here =>
    unfold State.addWatch
    split
    · split <;> exact nothing _ rfl rfl
    · exact nothing _ rfl rfl
  | startPolling here =>
    unfold State.startPolling
    split <;> exact nothing _ rfl rfl
  | poll here =>
    unfold State.poll
    split
    · split <;> exact nothing _ rfl rfl
    · exact nothing _ rfl rfl
  | tick alive here =>
    refine ⟨rfl, ?_⟩
    cases flag : s.reloadPending with
    | true => simp [State.budget, State.tick, flag] at spent
    | false => simp [State.Loading, State.tick, flag]
  | openRules alive here => exact absurd (.inl here) idle
  | readRules seen alive here whole => exact absurd (.inr ⟨_, _, here⟩) idle
  | evaluate tsdbs now countNow alive here there =>
    exact ⟨configs_set there (evaluated_rule ..), by simp [State.Loading]⟩
  | unlock alive here => exact ⟨rfl, by simp [State.Loading]⟩
  | finish alive here stopped => exact ⟨rfl, by simp [State.Loading]⟩
  | _ => exact nothing _ rfl rfl

theorem configs_run (blind : Blind s) (idle : ¬s.Loading) (spent : s.budget = 0)
    (run : Run (Step cfg) s labels next) (unasked : .request ∉ labels) :
    configs next.rules = configs s.rules := by
  have both : configs next.rules = configs s.rules ∧ ¬next.Loading := by
    induction run with
    | refl => exact ⟨rfl, idle⟩
    | @snoc labels current next label run last ih =>
      have earlier : .request ∉ labels := fun inside => unasked (List.mem_append_left _ inside)
      have other : label ≠ .request := fun same => unasked (by simp [same])
      obtain ⟨same, still⟩ := ih earlier
      obtain ⟨blind, left⟩ := blind_run blind run earlier
      obtain ⟨-, less⟩ := blind_step blind last other
      obtain ⟨kept, after⟩ := configs_step last still (by omega)
      exact ⟨kept.trans same, after⟩
  exact both.1

def Attends (s : State) : Prop :=
  ∀ file, s.watched = some file → s.place = .looping none ∨ s.place = .signalling none

theorem attends_step (attends : Attends s) (step : Step cfg s label next) : Attends next := by
  intro file watched
  cases step with
  | act action => cases action <;> exact attends file watched
  | ignored => simp at watched
  | start granted here => simpa [here] using attends file watched
  | addWatch granted here =>
    unfold State.addWatch at watched ⊢
    split at watched
    next =>
      split at watched
      next granted => simp [granted]
      next => simpa [here] using attends file watched
    next => simpa [here] using attends file watched
  | startPolling here =>
    unfold State.startPolling at watched
    split at watched <;> simpa [here] using attends file watched
  | readEvents here some => exact .inr rfl
  | signal here => simpa [here] using attends file watched
  | poll here =>
    have stays : s.watched = some file := by
      unfold State.poll at watched
      split at watched
      · split at watched <;> exact watched
      · exact watched
    simpa [here] using attends file stays
  | quit => simp at watched
  | _ => exact attends file watched

theorem attends_run {fs : FileSystem} (run : Run (Step cfg) (initial fs) labels s) : Attends s := by
  refine run.invariant (fun _ s => Attends s) ?_ fun _ _ _ _ _ attends step => attends_step attends step
  intro file watched
  simp [initial] at watched

/-- Once the watched file is gone there are at most four more loads, unless one is asked for; and
when what was signalled by then is used up, no later change of the file is ever loaded. -/
theorem replaced_file {fs : FileSystem} {before after : List Label} {m lost s : State}
    (run : Run (Step cfg) (initial fs) before m) (gone : Step cfg m .ignored lost)
    (rest : Run (Step cfg) lost after s) (unasked : .request ∉ after) :
    after.countP Label.opens ≤ 4 ∧
      (s.budget = 0 → ¬s.Loading → ∀ more t, Run (Step cfg) s more t → .request ∉ more →
        configs t.rules = configs s.rules) := by
  have blind : Blind lost := by
    cases gone with
    | @ignored file watched path =>
      refine ⟨rfl, ?_⟩
      rcases attends_run run file watched with here | here
      · exact .inl here
      · exact .inr (.inl here)
  obtain ⟨still, less⟩ := blind_run blind rest unasked
  have pending := Bool.toNat_le lost.pending
  have flag := Bool.toNat_le lost.reloadPending
  have most : lost.budget ≤ 4 := by
    unfold State.budget
    split <;> split <;> omega
  refine ⟨by omega, fun spent idle more t later unasked => ?_⟩
  exact configs_run still idle spent later unasked

/-- The file is replaced, which is noticed once. What is written to the new one is not. -/
theorem replaced_file_unread : ∃ labels t, Run (Step idleConfig) (initial emptyFile) labels t ∧
    ¬UpToDate t ∧ configs t.rules = [] := by
  let watching : State := { initial emptyFile with watched := some 0, place := .looping none }
  let replaced := watching.act (.create 1)
  let lost : State := { replaced with watched := none, pending := true }
  let loaded : State := { lost with pending := false, loader := .evaluating 0 }
  let written := loaded.act (.write 1 oneRule 1)
  have before : Run (Step idleConfig) (initial emptyFile)
      [.start true, .addWatch true, .act (.create 1)] replaced :=
    ((Run.single (.start true rfl)).snoc (.addWatch true rfl)).snoc (.act _ _)
  have gone : Step idleConfig replaced .ignored lost := .ignored rfl (by decide)
  have rest : Run (Step idleConfig) lost
      [.readEvents, .signal, .tick, .openRules, .readRules (.parsed (.array []))] loaded :=
    ((((Run.single (.readEvents rfl rfl)).snoc (.signal rfl)).snoc (.tick (by decide) rfl)).snoc
      (.openRules (by decide) rfl)).snoc (.readRules _ (by decide) rfl fun _ => rfl)
  have later : Run (Step idleConfig) loaded [.act (.write 1 oneRule 1)] written :=
    Run.single (.act _ _)
  have idle : ¬loaded.Loading := by
    rintro (here | ⟨file, torn, here⟩) <;> cases here
  have kept := (replaced_file before gone rest (by simp)).2 rfl idle _ _ later (by simp)
  refine ⟨_, written, ((before.snoc gone).trans rest).trans later, fun same => ?_, kept⟩
  exact absurd (congrArg List.length same) (by decide)

end Replaced

/-! ### A file that is not there -/

/-- The run asked for a watch, and it was refused or the path named nothing. -/
def Refused (cfg : Config) (start : State) (labels : List Label) (s : State) : Prop :=
  ∃ granted, Took (Step cfg) start labels s (.addWatch granted) fun _ m =>
    granted = true → m.fs.path = none

/-- The watch was refused, and the path named nothing when its modification time was asked for.
`last_write_time` throws on every other error as well; the file system here has none. -/
def Uncaught (cfg : Config) (start : State) (labels : List Label) (s : State) : Prop :=
  Took (Step cfg) start labels s .startPolling fun before m =>
    m.fs.path = none ∧ Refused cfg start before m

section Escaped

variable {cfg : Config} {start s next : State} {labels : List Label} {label : Label}

theorem escaped_stays (escaped : s.place = .escaped) (step : Step cfg s label next) :
    next.place = .escaped ∧ next.rules = s.rules := by
  cases step with
  | act action => cases action <;> exact ⟨escaped, rfl⟩
  | ignored => exact ⟨escaped, rfl⟩
  | stop => exact ⟨escaped, rfl⟩
  | request alive => exact absurd escaped alive
  | tick alive => exact absurd escaped alive
  | openRules alive => exact absurd escaped alive
  | readRules seen alive => exact absurd escaped alive
  | evaluate tsdbs now countNow alive => exact absurd escaped alive
  | unlock alive => exact absurd escaped alive
  | finish alive => exact absurd escaped alive
  | start granted here => simp [here] at escaped
  | addWatch granted here => simp [here] at escaped
  | startPolling here => simp [here] at escaped
  | readEvents here => simp [here] at escaped
  | signal here => simp [here] at escaped
  | poll here => simp [here] at escaped
  | quit here => simp [here] at escaped

theorem escaped_step (step : Step cfg s label next) (alive : s.place ≠ .escaped) :
    next.place = .escaped ↔ label = .startPolling ∧ s.fs.path = none := by
  cases step with
  | act action => cases action <;> simpa [State.act] using alive
  | start granted here => cases granted <;> simp
  | addWatch granted here =>
    unfold State.addWatch
    split
    · split <;> simp
    · simp
  | startPolling here =>
    unfold State.startPolling
    cases named : s.fs.path <;> simp
  | poll here =>
    unfold State.poll
    split
    · split <;> simp [alive]
    · simp [alive]
  | tick => simp [State.tick, alive]
  | openRules => simp [State.openRules, alive]
  | _ => simp [alive]

theorem Refused.snoc (refused : Refused cfg start labels s) (step : Step cfg s label next) :
    Refused cfg start (labels ++ [label]) next := by
  obtain ⟨granted, took⟩ := refused
  exact ⟨granted, took.snoc step⟩

theorem refused_step (run : Run (Step cfg) start labels s)
    (refused : s.place = .falling → Refused cfg start labels s) (step : Step cfg s label next)
    (falling : next.place = .falling) : Refused cfg start (labels ++ [label]) next := by
  have earlier (before : s.place = .falling) : Refused cfg start (labels ++ [label]) next :=
    (refused before).snoc step
  cases step with
  | act action => exact earlier (by cases action <;> exact falling)
  | addWatch granted here =>
    refine ⟨granted, Took.now run (.addWatch granted here) ?_⟩
    rintro rfl
    unfold State.addWatch at falling
    split at falling
    · simp at falling
    · assumption
  | start granted here => cases granted <;> simp at falling
  | startPolling here => exact earlier here
  | readEvents => simp at falling
  | signal => simp at falling
  | quit => simp at falling
  | @poll last here =>
    refine earlier ?_
    unfold State.poll at falling
    split at falling
    · split at falling
      · simp at falling
      · exact falling
    · exact falling
  | _ => exact earlier falling

theorem escaped_run (escaped : s.place = .escaped) (run : Run (Step cfg) s labels next) :
    next.place = .escaped ∧ next.rules = s.rules := by
  induction run with
  | refl => exact ⟨escaped, rfl⟩
  | snoc _ last ih =>
    obtain ⟨still, same⟩ := ih
    obtain ⟨after, kept⟩ := escaped_stays still last
    exact ⟨after, kept.trans same⟩

/-- The watch thread takes the process down exactly if it was refused a watch and the path names
nothing when its modification time is asked for, although a load copes with that. -/
theorem escaped_iff {fs : FileSystem} (run : Run (Step cfg) (initial fs) labels s) :
    s.place = .escaped ↔ Uncaught cfg (initial fs) labels s := by
  have caught : (s.place = .escaped → Uncaught cfg (initial fs) labels s) ∧
      (s.place = .falling → Refused cfg (initial fs) labels s) := by
    refine run.invariant (fun labels s =>
      (s.place = .escaped → Uncaught cfg (initial fs) labels s) ∧
        (s.place = .falling → Refused cfg (initial fs) labels s)) ?_ ?_
    · exact ⟨by simp [initial], by simp [initial]⟩
    · rintro labels current label next run ⟨before, refused⟩ step
      refine ⟨fun escaped => ?_, refused_step run refused step⟩
      by_cases old : current.place = .escaped
      · exact (before old).snoc step
      · obtain ⟨rfl, missing⟩ := (escaped_step step old).mp escaped
        cases step with
        | startPolling here => exact Took.now run (.startPolling here) ⟨missing, refused here⟩
  refine ⟨caught.1, ?_⟩
  rintro ⟨before, after, middle, reached, -, -, taken, rest, missing, -⟩
  have down : reached.place = .escaped := by
    cases taken with
    | startPolling here => simp [State.startPolling, missing]
  exact (escaped_run down rest).1

theorem escaped_iff_missing : ∃ labels s,
    Run (Step idleConfig) (initial ⟨none, fun _ => .missing, fun _ => 0⟩) labels s ∧
      s.place = .escaped ∧
      Uncaught idleConfig (initial ⟨none, fun _ => .missing, fun _ => 0⟩) labels s := by
  have adding := Run.single
    (@Step.start idleConfig (initial ⟨none, fun _ => .missing, fun _ => 0⟩) true rfl)
  have down := (adding.snoc (.addWatch true rfl)).snoc (.startPolling rfl)
  exact ⟨_, _, down, rfl, (escaped_iff down).mp rfl⟩

end Escaped

end LogMonitor.AlertRulesWatch
