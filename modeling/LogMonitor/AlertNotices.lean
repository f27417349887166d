import LogMonitor.AlertDispatch
import LogMonitor.AlertRulesReload
import LogMonitor.ProjectRoutes

/-!
What holds of the notifications of a run together: their texts can be written, since
the rules were read from JSON, and the cooldown of a rule bounds how often libcurl is
called for them.
-/

namespace LogMonitor.AlertDispatch
open Library Library.ByteString Library.Transition AlertRulesEngine ThreadPool
open AlertDelivery (Attempt deliver maxRetries)

variable {n : Nat} {cfg : Config} {dump : Json → Option Bytes}

theorem alertJson_writable {a : FiredAlert} (legible : Legible a) (error : Utf8 a.deliveryError) :
    (AlertDelivery.alertJson a).Writable := by
  have words := utf8_formats
  simp only [List.forall_mem_cons] at words
  unfold AlertDelivery.alertJson
  split
  · simp [words, legible.ruleId, legible.app, legible.level, legible.message, error]
  · simp [words, legible.ruleId, legible.app, legible.level, legible.message]

theorem ruleJson_writable {rs : AlertRuleState} (legible : LegibleRule rs.rule) :
    (ruleJson rs).Writable := by
  have words : ∀ words ∈ ["id", "app", "level", "threshold", "window_seconds", "notify_url",
      "cooldown_seconds", "state", "fire_count", "last_fired_ns"], Utf8 (text words) := by
    decide +kernel
  simp only [List.forall_mem_cons] at words
  have state : Utf8 rs.state.toText := by
    cases rs.state <;> decide +kernel
  simp [ruleJson, words, legible.id, legible.app, legible.level, legible.notifyUrl, state]

section Evaluations

/-- An evaluation leaves the configuration of its rule alone, and an alert is the rule's own. -/
theorem evaluateRule_own (cfg : Config) (tsdbs : Tsdbs) (rs : AlertRuleState)
    (now countNow : Int) :
    (evaluateRule cfg tsdbs rs now countNow).2.1.rule = rs.rule ∧
      ∀ alert, (evaluateRule cfg tsdbs rs now countNow).2.2 = some alert →
        ∃ count, alert = (fireAlert (expire rs now) count now).2 := by
  have same := expire_rule rs now
  rw [evaluateRule]
  dsimp only
  split
  · exact ⟨same, fun alert fired => by cases fired⟩
  · split
    · exact ⟨same, fun alert fired => by cases fired⟩
    · split
      · exact ⟨same, fun alert fired => ⟨_, (Option.some.inj fired).symm⟩⟩
      · exact ⟨same, fun alert fired => by cases fired⟩

theorem count_of_alert {cfg : Config} {tsdbs : Tsdbs} {rs : AlertRuleState} {now countNow : Int}
    (fired : (evaluation cfg tsdbs rs now countNow).alert.isSome) :
    ∃ count, (evaluation cfg tsdbs rs now countNow).count = some count := by
  have same := expire_rule rs now
  simp only [evaluation, evaluateRule] at fired ⊢
  rw [← same]
  split at fired
  · cases fired
  · split at fired
    · cases fired
    · rename_i resolved
      rw [resolved]
      exact ⟨_, rfl⟩

end Evaluations

section Texts

theorem readConfig_legible {item : Json} (writable : item.Writable) {config : AlertRuleConfig}
    (read : readConfig item = .ok config) : LegibleRule config := by
  unfold readConfig at read
  obtain ⟨id, readId, read⟩ := bind_ok read
  obtain ⟨app, readApp, read⟩ := bind_ok read
  obtain ⟨level, readLevel, read⟩ := bind_ok read
  obtain ⟨threshold, -, read⟩ := bind_ok read
  obtain ⟨window, -, read⟩ := bind_ok read
  obtain ⟨url, readUrl, read⟩ := bind_ok read
  obtain ⟨cooldown, -, read⟩ := bind_ok read
  obtain ⟨project, -, read⟩ := bind_ok read
  obtain rfl := Except.ok.inj read
  have error : Utf8 (text "ERROR") := by decide +kernel
  exact ⟨writable.valueString (by decide) readId, writable.valueString (by decide) readApp,
    writable.valueString error readLevel, writable.valueString (by decide) readUrl⟩

theorem readConfigs_legible {items : List Json} (writable : ∀ item ∈ items, item.Writable)
    {configs : List AlertRuleConfig} (read : readConfigs items = .ok configs) :
    ∀ config ∈ configs, LegibleRule config := by
  induction items generalizing configs with
  | nil =>
    obtain rfl := Except.ok.inj read
    simp
  | cons item rest ih =>
    unfold readConfigs at read
    obtain ⟨config, first, read⟩ := bind_ok read
    obtain ⟨others, later, read⟩ := bind_ok read
    have legible := readConfig_legible (writable item (List.mem_cons_self ..)) first
    have each := ih (fun other listed => writable other (List.mem_cons_of_mem _ listed)) later
    obtain rfl := Except.ok.inj read
    split
    · exact each
    · exact List.forall_mem_cons.mpr ⟨legible, each⟩

theorem readRules_legible {parsed : Option Json} (writable : ∀ json, parsed = some json →
    json.Writable) {configs : List AlertRuleConfig} (read : readRules parsed = some configs) :
    ∀ config ∈ configs, LegibleRule config := by
  unfold readRules at read
  split at read
  next items =>
    have each := (Json.writable_array items).mp (writable _ rfl)
    cases done : readConfigs items with
    | error error =>
      rw [done] at read
      cases read
    | ok others =>
      rw [done] at read
      obtain rfl := Option.some.inj read
      exact readConfigs_legible each done
  next => cases read

structure LegibleEngine (engine : AlertRulesEngine.State) : Prop where
  rules : ∀ rs ∈ engine.rules, LegibleRule rs.rule
  alerts : ∀ alert ∈ engine.evaluations.filterMap Evaluation.alert,
    Legible alert ∧ alert.deliveryError = []

theorem loadRules_legible {parsed : Option Json} (writable : ∀ json, parsed = some json →
    json.Writable) {rules : List AlertRuleState} (before : ∀ rs ∈ rules, LegibleRule rs.rule) :
    ∀ rs ∈ loadRules parsed rules, LegibleRule rs.rule := by
  unfold loadRules
  split
  next => exact before
  next configs read =>
    intro rs listed
    obtain ⟨config, member, rfl⟩ := List.mem_map.mp listed
    rw [restore_rule]
    exact readRules_legible writable read config member

theorem LegibleEngine.step {engine next : AlertRulesEngine.State} {label : AlertRulesEngine.Label}
    (legible : LegibleEngine engine) (step : AlertRulesEngine.Step cfg engine label next)
    (reads : ∀ json, label = .reload (some json) → json.Writable) : LegibleEngine next := by
  cases step with
  | tick | tsdb | lock | unlock | rulesJson => exact ⟨legible.rules, legible.alerts⟩
  | reload parsed here =>
    refine ⟨loadRules_legible ?_ legible.rules, legible.alerts⟩
    intro json same
    exact reads json (by rw [same])
  | @evaluate index rs countNow here there later =>
    have own := evaluateRule_own cfg engine.tsdbs rs engine.clock countNow
    have rule := legible.rules rs (List.mem_of_getElem? there)
    constructor
    · intro other listed
      rw [evaluate_rules] at listed
      rcases List.mem_or_eq_of_mem_set listed with old | new
      · exact legible.rules other old
      · rw [new, own.1]
        exact rule
    · intro alert listed
      change alert ∈ (engine.evaluations ++ [_]).filterMap Evaluation.alert at listed
      rw [List.filterMap_append] at listed
      rcases List.mem_append.mp listed with old | new
      · exact legible.alerts alert old
      · obtain ⟨e, here, fired⟩ := List.mem_filterMap.mp new
        rw [List.mem_singleton.mp here] at fired
        obtain ⟨count, rfl⟩ := own.2 alert fired
        refine ⟨fireAlert_legible ?_ count engine.clock, rfl⟩
        rw [expire_rule]
        exact rule
  | @settle index rs here there =>
    refine ⟨?_, legible.alerts⟩
    intro other listed
    rcases List.mem_or_eq_of_mem_set listed with old | new
    · exact legible.rules other old
    · rw [new]
      exact legible.rules rs (List.mem_of_getElem? there)

theorem dispatched_sublist (engine : AlertRulesEngine.State) :
    (dispatched engine).Sublist (engine.evaluations.filterMap Evaluation.alert) := by
  unfold dispatched
  split
  · exact List.dropLast_sublist _
  · exact List.Sublist.refl _

theorem LegibleEngine.sent {engine : AlertRulesEngine.State}
    (legible : LegibleEngine engine) {ticket : Nat} {alert : FiredAlert}
    (there : (dispatched engine)[ticket]? = some alert) :
    Legible alert ∧ alert.deliveryError = [] := by
  apply legible.alerts
  exact (dispatched_sublist engine).subset (List.mem_of_getElem? there)

structure Written (s : State n) : Prop where
  engine : LegibleEngine s.engine
  rounds : ∀ ticket what, .threw what ∉ s.rounds ticket
  history : ∀ entry ∈ s.history, Legible entry.task ∧ entry.task.deliveryError = []

theorem deliver_legible {alert : FiredAlert} (legible : Legible alert)
    (outcomes : Nat → Attempt) : Legible (deliver outcomes alert) := by
  obtain ⟨-, delivered, error, same⟩ := AlertDelivery.deliver_reports outcomes ⟨0, alert⟩
  change deliver outcomes alert = _ at same
  rw [same]
  exact ⟨legible.ruleId, legible.app, legible.level, legible.message⟩

theorem Written.round {s : State n} (written : Written s) (ticket : Nat) {outcome : Attempt}
    (plain : ∀ what, outcome ≠ .threw what) (more : List Request) :
    Written (s.round ticket outcome more) where
  engine := written.engine
  rounds other what := by
    by_cases apart : other = ticket
    · subst apart
      rw [round_rounds]
      intro listed
      rcases List.mem_append.mp listed with old | new
      · exact written.rounds _ what old
      · exact plain what (List.mem_singleton.mp new).symm
    · rw [round_rounds_of_ne _ apart]
      exact written.rounds other what
  history := written.history

theorem sent_ne_threw (request : Request) (curl : Curl) (what : Bytes) :
    request.sent curl ≠ .threw what := by
  cases curl with
  | noHandle => cases request <;> simp [Request.sent]
  | performed ok httpCode =>
    cases request with
    | post =>
      simp only [Request.sent]
      split <;> simp
    | upload =>
      simp only [Request.sent]
      split <;> simp

theorem written_run {parse : Bytes → Option Json} (form : Json.TextForm dump parse)
    {tsdbs : Tsdbs} {parsed : Option Json} {clock : Int} {labels : List (Label n)} {s : State n}
    (first : ∀ json, parsed = some json → json.Writable)
    (later : ∀ json, .engine (.reload (some json)) ∈ labels → json.Writable)
    (run : Run (Step cfg dump) (initial n (AlertRulesEngine.initial tsdbs parsed clock)) labels s) :
    Written s := by
  refine run.invariant (fun labels s =>
    (∀ json, .engine (.reload (some json)) ∈ labels → json.Writable) → Written s) ?_ ?_ later
  · intro _
    refine ⟨⟨?_, by simp [initial, AlertRulesEngine.initial]⟩, by simp [initial], by simp [initial]⟩
    exact loadRules_legible first (by simp)
  · intro labels s label next run ih step later
    have written := ih fun json listed => later json (List.mem_append_left _ listed)
    obtain ⟨moves, inv⟩ := followed_run run
    have legible {worker : Fin n} {queued : Queued FiredAlert}
        (here : s.pool.workers worker = .running queued) :
        Legible queued.task ∧ queued.task.deliveryError = [] := by
      have known := sent_of_running inv.run here
      rw [inv.sent] at known
      exact written.engine.sent known
    cases step with
    | engine other step =>
      refine ⟨written.engine.step step ?_, written.rounds, written.history⟩
      intro json same
      exact later json (by simp [same])
    | dispatch step latest fired =>
      exact ⟨written.engine.step step (by simp), written.rounds, written.history⟩
    | pool idle step => exact ⟨written.engine, written.rounds, written.history⟩
    | attempt here named going formatted curl =>
      exact written.round _ (sent_ne_threw _ curl) _
    | threw what here named going illegible =>
      exact absurd illegible ((legible here).1.request form)
    | @complete worker queued here done =>
      refine ⟨written.engine, written.rounds, ?_⟩
      intro entry listed
      rcases List.mem_append.mp (List.mem_of_mem_drop listed) with old | new
      · exact written.history entry old
      · rw [List.mem_singleton.mp new]
        obtain ⟨own, error⟩ := legible here
        refine ⟨deliver_legible own _, ?_⟩
        change (deliver (outcomes (s.rounds queued.ticket)) queued.task).deliveryError = []
        rw [deliver_error (written.rounds queued.ticket)]
        exact error

/-- As long as the rules are read from JSON, whose strings are UTF-8, nothing throws: no attempt
fails for its format, no entry of the history has an error, and both answers that list rules and
alerts can be written in every state. -/
theorem always_written {parse : Bytes → Option Json} (form : Json.TextForm dump parse)
    {tsdbs : Tsdbs} {parsed : Option Json} {clock : Int} {labels : List (Label n)} {s : State n}
    (first : ∀ json, parsed = some json → json.Writable)
    (later : ∀ json, .engine (.reload (some json)) ∈ labels → json.Writable)
    (run : Run (Step cfg dump) (initial n (AlertRulesEngine.initial tsdbs parsed clock)) labels s) :
    (∀ ticket what, .threw what ∉ s.rounds ticket) ∧
      (∀ entry ∈ s.history, entry.task.deliveryError = []) ∧
      (dump (AlertDelivery.historyToJson (s.history.map Queued.task))).isSome ∧
      (dump (getRulesJson s.engine.rules)).isSome := by
  have written := written_run form first later run
  refine ⟨written.rounds, fun entry listed => (written.history entry listed).2, ?_, ?_⟩
  · rw [form.strict, AlertDelivery.historyToJson]
    have key : Utf8 (text "history") := by decide +kernel
    simp only [Json.writable_object, List.forall_mem_singleton, Json.writable_array, key, true_and]
    intro json listed
    obtain ⟨alert, member, rfl⟩ := List.mem_map.mp listed
    obtain ⟨entry, inside, rfl⟩ := List.mem_map.mp member
    obtain ⟨legible, error⟩ := written.history entry inside
    have nothing : Utf8 ([] : Bytes) := by decide
    exact alertJson_writable legible (by rw [error]; exact nothing)
  · rw [form.strict, getRulesJson]
    have key : Utf8 (text "rules") := by decide +kernel
    simp only [Json.writable_object, List.forall_mem_singleton, Json.writable_array, key, true_and]
    intro json listed
    obtain ⟨rs, member, rfl⟩ := List.mem_map.mp listed
    exact ruleJson_writable (written.engine.rules rs member)

theorem hookRule_writable : hookRule.Writable := by
  have words : ∀ words ∈ ["id", "rule_001", "app", "myapp", "threshold", "notify_url",
      "http://hook/"], Utf8 (text words) := by decide +kernel
  simp only [List.forall_mem_cons] at words
  simp [hookRule, words]

theorem always_written_hook : ∃ dump parse, Json.TextForm dump parse ∧
    ∃ (labels : List (Label 5)) (s : State 5),
      Run (Step hookConfig dump) (initial 5 hookEngine) labels s ∧
        (s.callsOf 0).length = 2 ∧
        (dump (AlertDelivery.historyToJson (s.history.map Queued.task))).isSome := by
  obtain ⟨dump, parse, form, labels, s, run, steady, twice⟩ := hook_run
  have written := always_written form
    (fun json same => by rw [← Option.some.inj same]; exact hookRule_writable)
    (fun json listed => absurd listed (steady (some json))) run
  exact ⟨dump, parse, form, labels, s, run, twice, written.2.2.1⟩

end Texts

section Pace

/-- A file whose rules can be read has the rule's cooldown no shorter than so many seconds. -/
def CoolsDown (id : Bytes) (seconds : Int) (parsed : Option Json) : Prop :=
  ∀ configs, readRules parsed = some configs → ∀ config ∈ configs, config.id = id →
    seconds ≤ config.cooldownSeconds.toInt

def State.callsFor (s : State n) (id : Bytes) : List (Queued Request) :=
  s.calls.filter fun call =>
    (dispatched s.engine)[call.ticket]?.any fun alert => alert.ruleId = id

structure Paced (id : Bytes) (seconds clock : Int) (engine : AlertRulesEngine.State) : Prop where
  invariant : Invariant id engine
  rules : ∀ rs ∈ engine.rules, rs.rule.id = id → seconds ≤ rs.rule.cooldownSeconds.toInt
  named : ∀ e ∈ engine.evaluations, ∀ alert, e.alert = some alert → alert.ruleId = e.ruleId
  later : clock ≤ engine.clock
  spaced : ∀ f, lastFiring id engine.evaluations = some f →
    seconds ≤ f.cooldownSeconds.toInt ∧ f.now ≤ engine.clock ∧
      clock + ((firings id engine.evaluations).length - 1) * (seconds * 1000000000) ≤ f.now

theorem Paced.fire {id : Bytes} {seconds clock now : Int} {evaluations : List Evaluation}
    {e : Evaluation} (spaced : ∀ f, lastFiring id evaluations = some f →
      seconds ≤ f.cooldownSeconds.toInt ∧ f.now ≤ now ∧
        clock + ((firings id evaluations).length - 1) * (seconds * 1000000000) ≤ f.now)
    (due : Due id evaluations now) (later : clock ≤ now) (here : e.now = now) :
    clock + (firings id evaluations).length * (seconds * 1000000000) ≤ e.now := by
  rw [here]
  cases last : lastFiring id evaluations with
  | none =>
    have none : firings id evaluations = [] := List.getLast?_eq_none_iff.mp last
    rw [none]
    simpa using later
  | some f =>
    obtain ⟨cooldown, -, before⟩ := spaced f last
    have ready := due f last
    unfold Evaluation.readyAt at ready
    have split : ((firings id evaluations).length - 1 : Int) * (seconds * 1000000000) =
        (firings id evaluations).length * (seconds * 1000000000) - seconds * 1000000000 := by
      rw [Int.sub_mul, Int.one_mul]
    rw [split] at before
    omega

theorem Paced.evaluate {id : Bytes} {seconds clock : Int} {engine : AlertRulesEngine.State}
    (paced : Paced id seconds clock engine) {index : Nat} {rs : AlertRuleState} {countNow : Int}
    (here : engine.position = .evaluating index) (there : engine.rules[index]? = some rs)
    (later : engine.clock ≤ countNow) :
    Paced id seconds clock (engine.evaluate cfg index rs countNow) := by
  have own := evaluateRule_own cfg engine.tsdbs rs engine.clock countNow
  have listed : rs ∈ engine.rules := List.mem_of_getElem? there
  have invariant : Invariant id (engine.evaluate cfg index rs countNow) :=
    paced.invariant.evaluate here there later
  let e := evaluation cfg engine.tsdbs rs engine.clock countNow
  have evaluations : (engine.evaluate cfg index rs countNow).evaluations =
      engine.evaluations ++ [e] := rfl
  refine ⟨invariant, ?_, ?_, paced.later.trans later, ?_⟩
  · intro other member same
    rw [evaluate_rules] at member
    rcases List.mem_or_eq_of_mem_set member with old | new
    · exact paced.rules other old same
    · rw [new, own.1] at same ⊢
      exact paced.rules rs listed same
  · intro other member alert fired
    rw [evaluations] at member
    rcases List.mem_append.mp member with old | new
    · exact paced.named other old alert fired
    · rw [List.mem_singleton.mp new] at fired ⊢
      obtain ⟨count, rfl⟩ := own.2 alert fired
      exact congrArg AlertRuleConfig.id (expire_rule rs engine.clock)
  · intro f last
    rw [evaluations, lastFiring_snoc] at last
    rw [evaluations, firings_snoc]
    by_cases fired : e.ruleId = id ∧ e.alert.isSome
    · rw [if_pos fired] at last ⊢
      obtain rfl := Option.some.inj last
      obtain ⟨count, counted⟩ := count_of_alert fired.2
      have correct : e.Correct engine.evaluations :=
        invariant.fires engine.evaluations e [] rfl fired.1
      have due := ((correct count counted).mp fired.2).1
      rw [fired.1] at due
      have cooldown := paced.rules rs listed fired.1
      refine ⟨cooldown, later, ?_⟩
      have pace := Paced.fire paced.spaced due paced.later (e := e) rfl
      rw [List.length_append, List.length_singleton]
      push_cast
      rwa [add_sub_cancel_right]
    · rw [if_neg fired] at last ⊢
      obtain ⟨cooldown, before, pace⟩ := paced.spaced f last
      exact ⟨cooldown, before.trans later, pace⟩

theorem Paced.step {id : Bytes} {seconds clock : Int} {engine next : AlertRulesEngine.State}
    {label : AlertRulesEngine.Label} (paced : Paced id seconds clock engine)
    (step : AlertRulesEngine.Step cfg engine label next) (kept : label.Keeps id)
    (cools : ∀ parsed, label = .reload parsed → CoolsDown id seconds parsed) :
    Paced id seconds clock next := by
  have invariant := invariant_step paced.invariant kept step
  cases step with
  | tick later =>
    refine ⟨invariant, paced.rules, paced.named, paced.later.trans later, ?_⟩
    intro f last
    obtain ⟨cooldown, before, pace⟩ := paced.spaced f last
    exact ⟨cooldown, before.trans later, pace⟩
  | tsdb | lock | unlock | rulesJson =>
    exact ⟨invariant, paced.rules, paced.named, paced.later, paced.spaced⟩
  | reload parsed here =>
    refine ⟨invariant, ?_, paced.named, paced.later, paced.spaced⟩
    intro rs listed same
    change rs ∈ loadRules parsed engine.rules at listed
    unfold loadRules at listed
    split at listed
    next => exact paced.rules rs listed same
    next configs read =>
      obtain ⟨config, member, rfl⟩ := List.mem_map.mp listed
      rw [restore_rule] at same ⊢
      exact cools parsed rfl configs read config member same
  | evaluate here there later => exact paced.evaluate here there later
  | @settle index rs here there =>
    refine ⟨invariant, ?_, paced.named, paced.later, paced.spaced⟩
    intro other listed same
    rcases List.mem_or_eq_of_mem_set listed with old | new
    · exact paced.rules other old same
    · rw [new] at same ⊢
      exact paced.rules rs (List.mem_of_getElem? there) same

theorem Paced.firings_le {id : Bytes} {seconds clock : Int} {engine : AlertRulesEngine.State}
    (paced : Paced id seconds clock engine) (positive : 0 < seconds) :
    ((firings id engine.evaluations).length : Int) ≤
      (engine.clock - clock) / (seconds * 1000000000) + 1 := by
  have later := paced.later
  cases last : lastFiring id engine.evaluations with
  | none =>
    have none : firings id engine.evaluations = [] := List.getLast?_eq_none_iff.mp last
    rw [none]
    have quotient : 0 ≤ (engine.clock - clock) / (seconds * 1000000000) :=
      Int.ediv_nonneg (by omega) (by omega)
    simp only [List.length_nil, Nat.cast_zero]
    omega
  | some f =>
    obtain ⟨-, before, pace⟩ := paced.spaced f last
    have within : ((firings id engine.evaluations).length - 1 : Int) ≤
        (engine.clock - clock) / (seconds * 1000000000) := by
      apply Int.le_ediv_of_mul_le (by omega)
      omega
    omega

theorem length_positions {α : Type} (property : α → Bool) (list : List α) :
    ((List.range list.length).filter fun place => list[place]?.any property).length =
      (list.filter property).length := by
  induction list using List.reverseRecOn with
  | nil => rfl
  | append_singleton list last ih =>
    rw [List.length_append, List.length_singleton, List.range_succ, List.filter_append,
      List.filter_append, List.length_append, List.length_append, ← ih]
    have front : (List.range list.length).filter (fun place =>
        (list ++ [last])[place]?.any property) =
          (List.range list.length).filter fun place => list[place]?.any property := by
      apply List.filter_congr
      intro place inside
      rw [List.getElem?_append_left (List.mem_range.mp inside)]
    rw [front]
    cases shown : property last <;> simp [shown]

theorem length_le_of_count {list distinct : List Nat} (within : list ⊆ distinct)
    (times : Nat) (few : ∀ k, list.count k ≤ times) : list.length ≤ times * distinct.length := by
  have sub : list.Subperm (List.replicate times distinct).flatten := by
    apply List.subperm_ext_iff.mpr
    intro k inside
    have once : 0 < distinct.count k := List.count_pos_iff.mpr (within inside)
    rw [List.count_flatten, List.map_replicate, List.sum_replicate_nat]
    exact (few k).trans (Nat.le_mul_of_pos_right times once)
  have length := sub.length_le
  rwa [List.length_flatten, List.map_replicate, List.sum_replicate_nat] at length

theorem count_callsFor (s : State n) (id : Bytes) (ticket : Nat) :
    ((s.callsFor id).map Queued.ticket).count ticket ≤ (s.callsOf ticket).length := by
  have part : ((s.callsFor id).map Queued.ticket).Sublist (s.calls.map Queued.ticket) :=
    List.filter_sublist.map Queued.ticket
  have counted : (s.calls.map Queued.ticket).count ticket = (s.callsOf ticket).length := by
    rw [State.callsOf, List.length_map, List.count, List.countP_map,
      List.countP_eq_length_filter]
    rfl
  rw [← counted]
  exact part.count_le ticket

theorem length_alerts {id : Bytes} {evaluations : List Evaluation}
    (named : ∀ e ∈ evaluations, ∀ alert, e.alert = some alert → alert.ruleId = e.ruleId) :
    ((evaluations.filterMap Evaluation.alert).filter fun alert => alert.ruleId = id).length =
      (firings id evaluations).length := by
  unfold firings
  induction evaluations with
  | nil => rfl
  | cons e rest ih =>
    have others := ih fun other listed => named other (List.mem_cons_of_mem _ listed)
    cases alert : e.alert with
    | none => simp [alert, others]
    | some a =>
      have same := named e (List.mem_cons_self ..) a alert
      by_cases mine : e.ruleId = id
      · simp [alert, same, mine, others]
      · simp [alert, same, mine, others]

theorem callsFor_le {s : State n} {moves : List (AlertDelivery.Label n)}
    (inv : Followed dump s moves) {id : Bytes}
    (named : ∀ e ∈ s.engine.evaluations, ∀ alert, e.alert = some alert →
      alert.ruleId = e.ruleId) :
    (s.callsFor id).length ≤ maxRetries * (firings id s.engine.evaluations).length := by
  let own (alert : FiredAlert) : Bool := alert.ruleId = id
  let places := (List.range (dispatched s.engine).length).filter fun place =>
    (dispatched s.engine)[place]?.any own
  have within : (s.callsFor id).map Queued.ticket ⊆ places := by
    intro ticket listed
    obtain ⟨call, member, rfl⟩ := List.mem_map.mp listed
    obtain ⟨-, mine⟩ := List.mem_filter.mp member
    cases there : (dispatched s.engine)[call.ticket]? with
    | none =>
      rw [there] at mine
      cases mine
    | some alert =>
      have inside := (List.getElem?_eq_some_iff.mp there).1
      exact List.mem_filter.mpr ⟨List.mem_range.mpr inside, mine⟩
  have few : ∀ ticket, ((s.callsFor id).map Queued.ticket).count ticket ≤ maxRetries := by
    intro ticket
    apply (count_callsFor s id ticket).trans
    cases there : (dispatched s.engine)[ticket]? with
    | none =>
      rw [(inv.untold there).2]
      exact Nat.zero_le _
    | some alert =>
      have told := inv.told there
      obtain ⟨times, least, same⟩ := told.same
      have lengths := congrArg List.length same
      rw [List.length_map, List.length_replicate] at lengths
      have bounded := told.bounded
      omega
  have calls := length_le_of_count within maxRetries few
  rw [List.length_map, length_positions] at calls
  have fired := ((dispatched_sublist s.engine).filter own).length_le
  rw [length_alerts named] at fired
  exact calls.trans (Nat.mul_le_mul_left maxRetries fired)

theorem paced_run {id : Bytes} {seconds : Int} {tsdbs : Tsdbs} {parsed : Option Json}
    {clock : Int} {labels : List (Label n)} {s : State n} (first : KeptBy id parsed)
    (cools : CoolsDown id seconds parsed)
    (kept : ∀ parsed, .engine (.reload parsed) ∈ labels →
      KeptBy id parsed ∧ CoolsDown id seconds parsed)
    (run : Run (Step cfg dump) (initial n (AlertRulesEngine.initial tsdbs parsed clock)) labels s) :
    Paced id seconds clock s.engine := by
  refine run.invariant (fun labels s =>
    (∀ parsed, .engine (.reload parsed) ∈ labels →
      KeptBy id parsed ∧ CoolsDown id seconds parsed) → Paced id seconds clock s.engine) ?_ ?_ kept
  · intro _
    refine ⟨invariant_initial first, ?_, by simp [initial, AlertRulesEngine.initial],
      Int.le_refl _, ?_⟩
    · intro rs listed same
      change rs ∈ loadRules parsed [] at listed
      unfold loadRules at listed
      split at listed
      next => cases listed
      next configs read =>
        obtain ⟨config, member, rfl⟩ := List.mem_map.mp listed
        rw [restore_rule] at same ⊢
        exact cools configs read config member same
    · intro f last
      cases last
  · intro labels s label next _ ih step kept
    have paced := ih fun parsed listed => kept parsed (List.mem_append_left _ listed)
    cases step with
    | @engine label _ other step =>
      apply paced.step step
      · cases label with
        | reload parsed => exact (kept parsed (by simp)).1
        | _ => trivial
      · intro parsed same
        exact (kept parsed (by simp [same])).2
    | dispatch step latest fired => exact paced.step step trivial (by simp)
    | pool | attempt | threw | complete => exact paced

/-- However often a rule's store exceeds the threshold, and whatever becomes of the attempts, a rule
that keeps a cooldown makes the program call libcurl at most three times in each cooldown, and
three more. -/
theorem notifications_bounded {id : Bytes} {seconds : Int} (positive : 0 < seconds)
    {tsdbs : Tsdbs} {parsed : Option Json} {clock : Int} {labels : List (Label n)} {s : State n}
    (first : KeptBy id parsed) (cools : CoolsDown id seconds parsed)
    (kept : ∀ parsed, .engine (.reload parsed) ∈ labels →
      KeptBy id parsed ∧ CoolsDown id seconds parsed)
    (run : Run (Step cfg dump) (initial n (AlertRulesEngine.initial tsdbs parsed clock)) labels s) :
    ((s.callsFor id).length : Int) ≤
      3 * ((s.engine.clock - clock) / (seconds * 1000000000) + 1) := by
  have paced := paced_run first cools kept run
  obtain ⟨moves, inv⟩ := followed_run run
  have calls : (s.callsFor id).length ≤
      3 * (firings id s.engine.evaluations).length := callsFor_le inv paced.named
  have fired := paced.firings_le positive
  omega

theorem notifications_bounded_hook : ∃ dump parse, Json.TextForm dump parse ∧
    ∃ (labels : List (Label 5)) (s : State 5),
      Run (Step hookConfig dump) (initial 5 hookEngine) labels s ∧
        (s.callsOf 0).length = 2 ∧
        ((s.callsFor (text "rule_001")).length : Int) ≤
          3 * ((s.engine.clock - 1000) / (300 * 1000000000) + 1) := by
  obtain ⟨dump, parse, form, labels, s, run, steady, twice⟩ := hook_run
  have first : KeptBy (text "rule_001") (some hookRule) := by
    intro configs read
    obtain rfl : _ = configs := Option.some.inj read
    decide
  have cools : CoolsDown (text "rule_001") 300 (some hookRule) := by
    intro configs read
    obtain rfl : _ = configs := Option.some.inj read
    decide
  have bounded := notifications_bounded (by decide) first cools
    (fun parsed listed => absurd listed (steady parsed)) run
  exact ⟨dump, parse, form, labels, s, run, twice, bounded⟩

end Pace

end LogMonitor.AlertDispatch
