import LogMonitor.AlertRulesEngine
import LogMonitor.Library.Completion
import LogMonitor.Library.Transition

/-!
The runs of the alert rules engine against a reference that knows no states of
rules: a rule fires when the cooldown of its last firing is over and the count
exceeds the threshold. Reloads carry the state of a rule over by its id.
-/

namespace LogMonitor.AlertRulesEngine
open Library Library.ByteString Library.Transition Tsdb

def firings (id : Bytes) (evaluations : List Evaluation) : List Evaluation :=
  evaluations.filter fun e => e.ruleId = id ∧ e.alert.isSome

def lastFiring (id : Bytes) (evaluations : List Evaluation) : Option Evaluation :=
  (firings id evaluations).getLast?

/-- When the cooldown is over that was in force at a firing. -/
def Evaluation.readyAt (e : Evaluation) : Int := e.now + e.cooldownSeconds.toInt * 1000000000

def Due (id : Bytes) (earlier : List Evaluation) (now : Int) : Prop :=
  ∀ f, lastFiring id earlier = some f → f.readyAt ≤ now

/-- An evaluation of a rule whose store resolves, after the evaluations before it. -/
def Evaluation.Correct (earlier : List Evaluation) (e : Evaluation) : Prop :=
  ∀ count, e.count = some count →
    (e.alert.isSome ↔ Due e.ruleId earlier e.now ∧ e.threshold.toInt < count)

def FiresWhenDue (id : Bytes) (evaluations : List Evaluation) : Prop :=
  ∀ earlier e later, evaluations = earlier ++ e :: later → e.ruleId = id → e.Correct earlier

def ShowsFiring (json : Json) : Prop :=
  ∃ rows row, json.member (text "rules") = some (.array rows) ∧ row ∈ rows ∧
    row.member (text "state") = some (.string (text "FIRING"))

/-- A file whose rules can be read has distinct ids and keeps the rule. -/
def KeptBy (id : Bytes) (parsed : Option Json) : Prop :=
  ∀ configs, readRules parsed = some configs →
    (configs.map AlertRuleConfig.id).Nodup ∧ id ∈ configs.map AlertRuleConfig.id

def Label.Keeps (id : Bytes) : Label → Prop
  | .reload parsed => KeptBy id parsed
  | _ => True

structure AsSpecified (id : Bytes) (labels : List Label) (s : State) : Prop where
  fires : FiresWhenDue id s.evaluations
  counted : ∀ rs ∈ s.rules, rs.rule.id = id →
    rs.fireCount = UInt64.ofNat (firings id s.evaluations).length
  lastFired : ∀ rs ∈ s.rules, rs.rule.id = id →
    rs.lastFiredNs = ((lastFiring id s.evaluations).map Evaluation.now).getD 0
  shown : ∀ json, .rulesJson json ∈ labels → ¬ShowsFiring json
  history : s.firedHistory = (s.evaluations.filterMap Evaluation.alert).rtake maxHistory

theorem firings_snoc (id : Bytes) (evaluations : List Evaluation) (e : Evaluation) :
    firings id (evaluations ++ [e]) =
      if e.ruleId = id ∧ e.alert.isSome then firings id evaluations ++ [e]
      else firings id evaluations := by
  rw [firings, List.filter_append]
  by_cases fired : e.ruleId = id ∧ e.alert.isSome
  · rw [if_pos fired, List.filter_singleton, decide_eq_true fired]
    rfl
  · rw [if_neg fired, List.filter_singleton, decide_eq_false fired]
    exact List.append_nil _

theorem lastFiring_snoc (id : Bytes) (evaluations : List Evaluation) (e : Evaluation) :
    lastFiring id (evaluations ++ [e]) =
      if e.ruleId = id ∧ e.alert.isSome then some e else lastFiring id evaluations := by
  rw [lastFiring, firings_snoc]
  split
  next => exact List.getLast?_concat
  next => rfl

theorem firings_of_absent {id : Bytes} {evaluations : List Evaluation}
    (absent : ∀ e ∈ evaluations, e.ruleId ≠ id) : firings id evaluations = [] := by
  rw [firings, List.filter_eq_nil_iff]
  intro e listed fired
  exact absent e listed (of_decide_eq_true fired).1

theorem FiresWhenDue.snoc {id : Bytes} {evaluations : List Evaluation} {e : Evaluation}
    (fires : FiresWhenDue id evaluations) (correct : e.ruleId = id → e.Correct evaluations) :
    FiresWhenDue id (evaluations ++ [e]) := by
  intro earlier other later shape named
  rcases List.eq_nil_or_concat later with rfl | ⟨later, last, rfl⟩
  · obtain ⟨rfl, same⟩ := List.append_inj' shape rfl
    obtain rfl := List.singleton_inj.mp same
    exact correct named
  · rw [List.concat_eq_append, ← List.cons_append, ← List.append_assoc] at shape
    obtain ⟨same, -⟩ := List.append_inj' shape rfl
    exact fires earlier other later same named

@[simp] theorem expire_rule (rs : AlertRuleState) (now : Int) : (expire rs now).rule = rs.rule := by
  unfold expire
  split <;> rfl

theorem expire_fireCount (rs : AlertRuleState) (now : Int) :
    (expire rs now).fireCount = rs.fireCount := by
  unfold expire
  split <;> rfl

theorem expire_lastFiredNs (rs : AlertRuleState) (now : Int) :
    (expire rs now).lastFiredNs = rs.lastFiredNs := by
  unfold expire
  split <;> rfl

theorem expire_cooldownUntilNs (rs : AlertRuleState) (now : Int) :
    (expire rs now).cooldownUntilNs = rs.cooldownUntilNs := by
  unfold expire
  split <;> rfl

/-- What an evaluation does to a rule that is not FIRING: it keeps silent, in COOLDOWN or
because the count is no reason to fire, or it fires. -/
theorem evaluateRule_cases (cfg : Config) (tsdbs : Tsdbs) {rs : AlertRuleState} {now countNow : Int}
    (quiet : rs.state ≠ .firing) :
    let result := evaluateRule cfg tsdbs rs now countNow
    let count := (evaluation cfg tsdbs rs now countNow).count
    (result.2 = (expire rs now, none) ∧ ((expire rs now).state = .cooldown ∨
      ∀ n, count = some n → ¬rs.rule.threshold.toInt < n)) ∨
    ∃ n, (expire rs now).state ≠ .cooldown ∧ count = some n ∧ rs.rule.threshold.toInt < n ∧
      result.2 = ((fireAlert (expire rs now) n now).1, some (fireAlert (expire rs now) n now).2) := by
  have quiet' : (expire rs now).state ≠ .firing := by
    unfold expire
    split
    · simp
    · exact quiet
  have rule := expire_rule rs now
  simp only [evaluation, evaluateRule, ← rule]
  generalize expire rs now = expired at quiet' rule
  by_cases waits : expired.state = .cooldown
  · rw [if_pos waits]
    exact .inl ⟨rfl, .inl waits⟩
  · rw [if_neg waits]
    obtain ⟨resolved, tsdb⟩ := resolve cfg tsdbs expired.rule
    cases tsdb with
    | none => exact .inl ⟨rfl, .inr nofun⟩
    | some tsdb =>
      simp only [Option.map_some, Option.some.injEq, forall_eq']
      by_cases exceeds : expired.rule.threshold.toInt < tsdb.getCount countNow expired.rule.app
        expired.rule.level expired.rule.windowSeconds.toInt
      · rw [if_pos exceeds]
        exact .inr ⟨_, waits, rfl, exceeds, rfl⟩
      · rw [if_neg exceeds, if_neg quiet']
        exact .inl ⟨rfl, .inr exceeds⟩

structure Tracks (evaluations : List Evaluation) (clock : Int) (rs : AlertRuleState) : Prop where
  counted : rs.fireCount = UInt64.ofNat (firings rs.rule.id evaluations).length
  lastFired : rs.lastFiredNs = ((lastFiring rs.rule.id evaluations).map Evaluation.now).getD 0
  ready : rs.state = .inactive → Due rs.rule.id evaluations clock
  waiting : rs.state ≠ .inactive →
    ∃ f, lastFiring rs.rule.id evaluations = some f ∧ rs.cooldownUntilNs = f.readyAt

theorem Tracks.later {evaluations : List Evaluation} {clock now : Int} {rs : AlertRuleState}
    (tracks : Tracks evaluations clock rs) (later : clock ≤ now) : Tracks evaluations now rs where
  counted := tracks.counted
  lastFired := tracks.lastFired
  ready idle f last := (tracks.ready idle f last).trans later
  waiting := tracks.waiting

/-- A rule that is not FIRING is in COOLDOWN, as of `now`, just when it is not due. -/
theorem Tracks.expire_state {evaluations : List Evaluation} {now : Int} {rs : AlertRuleState}
    (tracks : Tracks evaluations now rs) (quiet : rs.state ≠ .firing) :
    (expire rs now).state ≠ .cooldown ↔ Due rs.rule.id evaluations now := by
  cases state : rs.state with
  | firing => exact absurd state quiet
  | inactive =>
    have idle : (expire rs now).state ≠ .cooldown := by simp [expire, state]
    exact iff_of_true idle (tracks.ready state)
  | cooldown =>
    obtain ⟨f, last, until_eq⟩ := tracks.waiting (by simp [state])
    have due : Due rs.rule.id evaluations now ↔ f.readyAt ≤ now := by
      simp only [Due, last, Option.some.injEq, forall_eq']
    rw [due, ← until_eq]
    by_cases elapsed : rs.cooldownUntilNs ≤ now
    · simp [expire, state, elapsed]
    · simp [expire, state, elapsed]

theorem Tracks.expire {evaluations : List Evaluation} {now : Int} {rs : AlertRuleState}
    (tracks : Tracks evaluations now rs) (quiet : rs.state ≠ .firing) :
    Tracks evaluations now (expire rs now) where
  counted := by rw [expire_fireCount, expire_rule, tracks.counted]
  lastFired := by rw [expire_lastFiredNs, expire_rule, tracks.lastFired]
  ready idle := by
    rw [expire_rule]
    exact (tracks.expire_state quiet).mp (by simp [idle])
  waiting busy := by
    rw [expire_rule, expire_cooldownUntilNs]
    apply tracks.waiting
    intro idle
    apply busy
    simp [AlertRulesEngine.expire, idle]

theorem Tracks.unfired {evaluations : List Evaluation} {clock : Int} {rs : AlertRuleState}
    (tracks : Tracks evaluations clock rs) {e : Evaluation}
    (unfired : ¬(e.ruleId = rs.rule.id ∧ e.alert.isSome)) :
    Tracks (evaluations ++ [e]) clock rs := by
  refine ⟨?_, ?_, ?_, ?_⟩
  · rw [firings_snoc, if_neg unfired, tracks.counted]
  · rw [lastFiring_snoc, if_neg unfired, tracks.lastFired]
  · simpa only [Due, lastFiring_snoc, if_neg unfired] using tracks.ready
  · simpa only [lastFiring_snoc, if_neg unfired] using tracks.waiting

theorem Tracks.fire {evaluations : List Evaluation} {clock now : Int} {rs : AlertRuleState}
    (tracks : Tracks evaluations clock rs) {e : Evaluation} {count : Nat}
    (own : e.ruleId = rs.rule.id) (fired : e.alert.isSome) (at_now : e.now = now)
    (inForce : e.cooldownSeconds = rs.rule.cooldownSeconds) (later : Int) :
    Tracks (evaluations ++ [e]) later (fireAlert rs count now).1 := by
  refine ⟨?_, ?_, nofun, fun _ => ⟨e, ?_, ?_⟩⟩
  · change rs.fireCount + 1 = UInt64.ofNat (firings rs.rule.id (evaluations ++ [e])).length
    rw [firings_snoc, if_pos ⟨own, fired⟩, List.length_append, tracks.counted,
      List.length_singleton, UInt64.ofNat_add]
    rfl
  · change now = ((lastFiring rs.rule.id (evaluations ++ [e])).map Evaluation.now).getD 0
    rw [lastFiring_snoc, if_pos ⟨own, fired⟩, ← at_now]
    rfl
  · change lastFiring rs.rule.id (evaluations ++ [e]) = some e
    rw [lastFiring_snoc, if_pos ⟨own, fired⟩]
  · change now + rs.rule.cooldownSeconds.toInt * 1000000000 = e.readyAt
    rw [Evaluation.readyAt, at_now, inForce]

theorem Tracks.settle {evaluations : List Evaluation} {clock : Int} {rs : AlertRuleState}
    (tracks : Tracks evaluations clock rs) (fired : rs.state = .firing) :
    Tracks evaluations clock { rs with state := .cooldown } where
  counted := tracks.counted
  lastFired := tracks.lastFired
  ready := nofun
  waiting _ := tracks.waiting (by simp [fired])

theorem Tracks.evaluate {cfg : Config} {tsdbs : Tsdbs} {evaluations : List Evaluation}
    {now countNow : Int} {rs : AlertRuleState} (tracks : Tracks evaluations now rs)
    (quiet : rs.state ≠ .firing) (later : now ≤ countNow) :
    let e := evaluation cfg tsdbs rs now countNow
    Tracks (evaluations ++ [e]) countNow (evaluateRule cfg tsdbs rs now countNow).2.1 ∧
      e.Correct evaluations := by
  intro e
  have due := tracks.expire_state quiet
  rcases evaluateRule_cases cfg tsdbs quiet with ⟨result, reason⟩ | ⟨n, awake, counted, exceeds, result⟩
  · have silent : e.alert = none := congrArg Prod.snd result
    rw [result]
    refine ⟨((tracks.expire quiet).unfired (by simp [silent])).later later, ?_⟩
    intro count known
    rw [silent]
    simp only [Option.isSome_none, Bool.false_eq_true, false_iff]
    rintro ⟨ready, exceeds⟩
    rcases reason with waits | low
    · exact due.mpr ready waits
    · exact low count known exceeds
  · have alert : e.alert = some (fireAlert (AlertRulesEngine.expire rs now) n now).2 :=
      congrArg Prod.snd result
    have fired : e.alert.isSome := by rw [alert]; rfl
    have rule := expire_rule rs now
    have after : Tracks (evaluations ++ [e]) countNow
        (fireAlert (AlertRulesEngine.expire rs now) n now).1 :=
      (tracks.expire quiet).fire (by rw [rule]; rfl) fired rfl (by rw [rule]; rfl) countNow
    rw [result]
    refine ⟨after, fun count known => ?_⟩
    obtain rfl : n = count := Option.some.inj (counted.symm.trans known)
    exact iff_of_true fired ⟨due.mp awake, exceeds⟩

def ids (rules : List AlertRuleState) : List Bytes := rules.map fun rs => rs.rule.id

theorem ids_set {rules : List AlertRuleState} {index : Nat} {rs : AlertRuleState}
    (there : rules[index]? = some rs) {next : AlertRuleState} (same : next.rule = rs.rule) :
    ids (rules.set index next) = ids rules := by
  have unchanged : rules.set index rs = rules := by
    obtain ⟨inside, rfl⟩ := List.getElem?_eq_some_iff.mp there
    exact List.set_getElem_self inside
  calc ids (rules.set index next)
      = (ids rules).set index next.rule.id := List.map_set
    _ = (ids rules).set index rs.rule.id := by rw [same]
    _ = ids (rules.set index rs) := List.map_set.symm
    _ = ids rules := by rw [unchanged]

theorem ids_restore (rules : List AlertRuleState) (configs : List AlertRuleConfig) :
    ids (configs.map (restore rules)) = configs.map AlertRuleConfig.id := by
  rw [ids, List.map_map]
  apply List.map_congr_left
  intro cfg _
  simp only [Function.comp_apply, restore]
  split <;> rfl

/-- What holds of a rule in every state: at most one rule has its id, its runtime state says
what its evaluations amount to, and the rule the check thread has just fired is FIRING. -/
structure Invariant (id : Bytes) (s : State) : Prop where
  distinct : (ids s.rules).Nodup
  tracks : ∀ rs ∈ s.rules, rs.rule.id = id → Tracks s.evaluations s.clock rs
  absent : id ∉ ids s.rules → ∀ e ∈ s.evaluations, e.ruleId ≠ id
  firing : ∀ index rs, s.rules[index]? = some rs →
    (rs.state = .firing ↔ s.position = .firing index)
  fires : FiresWhenDue id s.evaluations
  history : s.firedHistory = (s.evaluations.filterMap Evaluation.alert).rtake maxHistory

theorem Tracks.fresh {id : Bytes} {evaluations : List Evaluation} (clock : Int)
    {cfg : AlertRuleConfig} (named : cfg.id = id) (absent : ∀ e ∈ evaluations, e.ruleId ≠ id) :
    Tracks evaluations clock { rule := cfg } := by
  subst named
  have none : firings cfg.id evaluations = [] := firings_of_absent absent
  have last : lastFiring cfg.id evaluations = Option.none := by rw [lastFiring, none]; rfl
  refine ⟨?_, ?_, ?_, fun busy => absurd rfl busy⟩
  · rw [none]; rfl
  · rw [last]; rfl
  · intro _ f found
    rw [last] at found
    simp at found

theorem Tracks.reconfigure {evaluations : List Evaluation} {clock : Int} {rs : AlertRuleState}
    (tracks : Tracks evaluations clock rs) {cfg : AlertRuleConfig} (same : rs.rule.id = cfg.id) :
    Tracks evaluations clock { rs with rule := cfg } := by
  refine ⟨?_, ?_, ?_, ?_⟩
  · simpa only [same] using tracks.counted
  · simpa only [same] using tracks.lastFired
  · simpa only [same] using tracks.ready
  · simpa only [same] using tracks.waiting

/-- A reload carries the state of a rule over, or finds no evaluation of it yet. -/
theorem Invariant.restore {id : Bytes} {s : State} (holds : Invariant id s) {cfg : AlertRuleConfig}
    (named : cfg.id = id) : Tracks s.evaluations s.clock (restore s.rules cfg) := by
  unfold AlertRulesEngine.restore
  split
  next missing =>
    apply Tracks.fresh s.clock named
    apply holds.absent
    intro present
    obtain ⟨rs, listed, same⟩ := List.mem_map.mp present
    rw [List.find?_eq_none] at missing
    exact missing rs (List.mem_reverse.mpr listed) (decide_eq_true (same.trans named.symm))
  next previous found =>
    have same : previous.rule.id = cfg.id := by simpa using List.find?_some found
    have listed : previous ∈ s.rules := List.mem_reverse.mp (List.mem_of_find?_eq_some found)
    exact (holds.tracks previous listed (same.trans named)).reconfigure same

theorem restore_quiet {rules : List AlertRuleState} (quiet : ∀ rs ∈ rules, rs.state ≠ .firing)
    (cfg : AlertRuleConfig) : (restore rules cfg).state ≠ .firing := by
  unfold restore
  split
  next => exact nofun
  next previous found =>
    exact quiet previous (List.mem_reverse.mp (List.mem_of_find?_eq_some found))

theorem Invariant.quiet {id : Bytes} {s : State} (holds : Invariant id s)
    (elsewhere : ∀ index, s.position ≠ .firing index) : ∀ rs ∈ s.rules, rs.state ≠ .firing := by
  intro rs listed fired
  obtain ⟨index, there⟩ := List.mem_iff_getElem?.mp listed
  exact elsewhere index ((holds.firing index rs there).mp fired)

theorem Invariant.reload {id : Bytes} {s : State} (holds : Invariant id s) {parsed : Option Json}
    (kept : KeptBy id parsed) (here : s.position = .idle) :
    Invariant id { s with rules := loadRules parsed s.rules } := by
  have quiet := holds.quiet (by simp [here])
  unfold loadRules
  cases read : readRules parsed with
  | none => exact holds
  | some configs =>
    obtain ⟨distinct, present⟩ := kept configs read
    refine ⟨?_, ?_, ?_, ?_, holds.fires, holds.history⟩
    · rw [ids_restore]
      exact distinct
    · intro rs listed named
      obtain ⟨cfg, configured, rfl⟩ := List.mem_map.mp listed
      apply holds.restore
      rw [← named]
      unfold AlertRulesEngine.restore
      split <;> rfl
    · intro missing
      rw [ids_restore] at missing
      exact absurd present missing
    · intro index rs there
      obtain ⟨cfg, configured, rfl⟩ := List.mem_map.mp (List.mem_of_getElem? there)
      exact iff_of_false (restore_quiet quiet cfg) (by simp [here])

theorem expire_quiet {rs : AlertRuleState} (quiet : rs.state ≠ .firing) (now : Int) :
    (expire rs now).state ≠ .firing := by
  unfold expire
  split
  next => exact nofun
  next => exact quiet

theorem evaluateRule_rule (cfg : Config) (tsdbs : Tsdbs) {rs : AlertRuleState} {now countNow : Int}
    (quiet : rs.state ≠ .firing) :
    (evaluateRule cfg tsdbs rs now countNow).2.1.rule = rs.rule := by
  rcases evaluateRule_cases cfg tsdbs quiet with ⟨result, -⟩ | ⟨n, -, -, -, result⟩
  · rw [result, expire_rule]
  · rw [result]
    exact expire_rule rs now

theorem evaluateRule_firing {cfg : Config} {tsdbs : Tsdbs} {rs : AlertRuleState} {now countNow : Int}
    (quiet : rs.state ≠ .firing) :
    (evaluateRule cfg tsdbs rs now countNow).2.1.state = .firing ↔
      (evaluateRule cfg tsdbs rs now countNow).2.2.isSome := by
  rcases evaluateRule_cases cfg tsdbs quiet with ⟨result, -⟩ | ⟨n, -, -, -, result⟩
  · rw [result]
    exact iff_of_false (expire_quiet quiet now) (by simp)
  · rw [result]
    exact iff_of_true rfl rfl

theorem pushHistory_rtake (alerts : List FiredAlert) (alert : FiredAlert) :
    pushHistory (alerts.rtake maxHistory) alert = (alerts ++ [alert]).rtake maxHistory :=
  Completion.rtake_snoc alerts alert maxHistory

theorem Invariant.index_eq {id : Bytes} {s : State} (holds : Invariant id s) {i j : Nat}
    {rs other : AlertRuleState} (first : s.rules[i]? = some rs) (second : s.rules[j]? = some other)
    (same : rs.rule.id = other.rule.id) : i = j := by
  have left : (ids s.rules)[i]? = some rs.rule.id := by rw [ids, List.getElem?_map, first]; rfl
  have right : (ids s.rules)[j]? = some rs.rule.id := by
    rw [ids, List.getElem?_map, second, same]
    rfl
  have inside : i < (ids s.rules).length := (List.getElem?_eq_some_iff.mp left).1
  exact (List.getElem?_inj inside holds.distinct).mp (left.trans right.symm)

theorem getElem?_set_cases {rules : List AlertRuleState} {index i : Nat} {rs next : AlertRuleState}
    (there : (rules.set index next)[i]? = some rs) :
    (i = index ∧ rs = next) ∨ (i ≠ index ∧ rules[i]? = some rs) := by
  rw [List.getElem?_set] at there
  by_cases same : index = i
  · rw [if_pos same] at there
    split at there
    next => exact .inl ⟨same.symm, (Option.some.inj there).symm⟩
    next => simp at there
  · rw [if_neg same] at there
    exact .inr ⟨Ne.symm same, there⟩

theorem evaluate_rules (cfg : Config) (s : State) (index : Nat) (rs : AlertRuleState)
    (countNow : Int) : (s.evaluate cfg index rs countNow).rules =
      s.rules.set index (evaluateRule cfg s.tsdbs rs s.clock countNow).2.1 := rfl

theorem evaluate_position (cfg : Config) (s : State) (index : Nat) (rs : AlertRuleState)
    (countNow : Int) (i : Nat) : (s.evaluate cfg index rs countNow).position = .firing i ↔
      (evaluateRule cfg s.tsdbs rs s.clock countNow).2.2.isSome ∧ index = i := by
  have position : (s.evaluate cfg index rs countNow).position =
      if (evaluateRule cfg s.tsdbs rs s.clock countNow).2.2.isSome then .firing index
      else .evaluating (index + 1) := rfl
  rw [position]
  split
  next fired => simp [fired]
  next silent => simp [silent]

theorem evaluate_firedHistory (cfg : Config) (s : State) (index : Nat) (rs : AlertRuleState)
    (countNow : Int) : (s.evaluate cfg index rs countNow).firedHistory =
      (evaluateRule cfg s.tsdbs rs s.clock countNow).2.2.elim s.firedHistory
        (pushHistory s.firedHistory) := by
  unfold State.evaluate
  generalize evaluateRule cfg s.tsdbs rs s.clock countNow = result
  obtain ⟨tsdbs, evaluated, alert⟩ := result
  cases alert <;> rfl

theorem Invariant.evaluate {id : Bytes} {cfg : Config} {s : State} (holds : Invariant id s)
    {index : Nat} {rs : AlertRuleState} {countNow : Int} (here : s.position = .evaluating index)
    (next : s.rules[index]? = some rs) (later : s.clock ≤ countNow) :
    Invariant id (s.evaluate cfg index rs countNow) := by
  have quiet := holds.quiet (by simp [here])
  have listed : rs ∈ s.rules := List.mem_of_getElem? next
  have rule : (evaluateRule cfg s.tsdbs rs s.clock countNow).2.1.rule = rs.rule :=
    evaluateRule_rule cfg s.tsdbs (quiet rs listed)
  have same : ids (s.evaluate cfg index rs countNow).rules = ids s.rules := ids_set next rule
  refine ⟨?_, ?_, ?_, ?_, ?_, ?_⟩
  · rw [same]
    exact holds.distinct
  · intro other there named
    rw [evaluate_rules] at there
    obtain ⟨i, there⟩ := List.mem_iff_getElem?.mp there
    rcases getElem?_set_cases there with ⟨rfl, rfl⟩ | ⟨apart, there⟩
    · have own : rs.rule.id = id := by
        rw [← rule]
        exact named
      exact ((holds.tracks rs listed own).evaluate (quiet rs listed) later).1
    · have tracks := holds.tracks other (List.mem_of_getElem? there) named
      refine (tracks.unfired ?_).later later
      rintro ⟨same, -⟩
      exact apart (holds.index_eq there next same.symm)
  · intro missing e evaluated
    rw [same] at missing
    rcases List.mem_append.mp evaluated with old | new
    · exact holds.absent missing e old
    · rw [List.mem_singleton.mp new]
      rintro rfl
      exact missing (List.mem_map_of_mem listed)
  · intro i other there
    rw [evaluate_rules] at there
    rw [evaluate_position]
    rcases getElem?_set_cases there with ⟨rfl, rfl⟩ | ⟨apart, there⟩
    · rw [evaluateRule_firing (quiet rs listed), and_iff_left rfl]
    · have still := quiet other (List.mem_of_getElem? there)
      exact iff_of_false still fun fired => apart fired.2.symm
  · apply holds.fires.snoc
    intro named
    exact ((holds.tracks rs listed named).evaluate (quiet rs listed) later).2
  · rw [evaluate_firedHistory]
    change _ = ((s.evaluations ++ [evaluation cfg s.tsdbs rs s.clock countNow]).filterMap
      Evaluation.alert).rtake maxHistory
    rw [List.filterMap_append, holds.history]
    cases alert : (evaluateRule cfg s.tsdbs rs s.clock countNow).2.2 with
    | none => simp [evaluation, alert]
    | some fired =>
      simp only [Option.elim_some, pushHistory_rtake, evaluation, List.filterMap_cons, alert,
        List.filterMap_nil]

theorem Invariant.settle {id : Bytes} {s : State} (holds : Invariant id s) {index : Nat}
    {rs : AlertRuleState} (here : s.position = .firing index) (next : s.rules[index]? = some rs) :
    Invariant id { s with
      rules := s.rules.set index { rs with state := .cooldown }
      position := .evaluating (index + 1) } := by
  have listed : rs ∈ s.rules := List.mem_of_getElem? next
  have same : ids (s.rules.set index { rs with state := .cooldown }) = ids s.rules :=
    ids_set next rfl
  refine ⟨?_, ?_, ?_, ?_, holds.fires, holds.history⟩
  · rw [same]
    exact holds.distinct
  · intro other there named
    obtain ⟨i, there⟩ := List.mem_iff_getElem?.mp there
    rcases getElem?_set_cases there with ⟨-, rfl⟩ | ⟨-, there⟩
    · exact (holds.tracks rs listed named).settle ((holds.firing index rs next).mpr here)
    · exact holds.tracks other (List.mem_of_getElem? there) named
  · rw [same]
    exact holds.absent
  · intro i other there
    rcases getElem?_set_cases there with ⟨-, rfl⟩ | ⟨apart, there⟩
    · exact iff_of_false nofun nofun
    · refine iff_of_false ?_ nofun
      intro fired
      have at_i := (holds.firing i other there).mp fired
      rw [here, Position.firing.injEq] at at_i
      exact apart at_i.symm

theorem invariant_step {id : Bytes} {cfg : Config} {s next : State} {label : Label}
    (holds : Invariant id s) (kept : label.Keeps id) (step : Step cfg s label next) :
    Invariant id next := by
  cases step with
  | tick later =>
    refine ⟨holds.distinct, ?_, holds.absent, holds.firing, holds.fires, holds.history⟩
    exact fun rs listed named => (holds.tracks rs listed named).later later
  | tsdb step =>
    exact ⟨holds.distinct, holds.tracks, holds.absent, holds.firing, holds.fires, holds.history⟩
  | reload parsed here => exact holds.reload kept here
  | lock here =>
    have quiet := holds.quiet (by simp [here])
    refine ⟨holds.distinct, holds.tracks, holds.absent, ?_, holds.fires, holds.history⟩
    exact fun index rs there => iff_of_false (quiet rs (List.mem_of_getElem? there)) nofun
  | evaluate here next later => exact holds.evaluate here next later
  | settle here next => exact holds.settle here next
  | unlock here =>
    have quiet := holds.quiet (by simp [here])
    refine ⟨holds.distinct, holds.tracks, holds.absent, ?_, holds.fires, holds.history⟩
    exact fun index rs there => iff_of_false (quiet rs (List.mem_of_getElem? there)) nofun
  | rulesJson free => exact holds

theorem invariant_initial {id : Bytes} {tsdbs : Tsdbs} {parsed : Option Json} {clock : Int}
    (kept : KeptBy id parsed) : Invariant id (initial tsdbs parsed clock) := by
  have nothing : Invariant id { initial tsdbs parsed clock with rules := [] } := by
    refine ⟨List.nodup_nil, nofun, nofun, nofun, ?_, rfl⟩
    intro earlier e later shape
    simp [initial] at shape
  exact nothing.reload kept rfl

theorem Invariant.not_showsFiring {id : Bytes} {s : State} (holds : Invariant id s)
    (free : s.position = .idle) : ¬ShowsFiring (getRulesJson s.rules) := by
  have quiet := holds.quiet (by simp [free])
  rintro ⟨rows, row, shown, listed, firing⟩
  have rows_eq : (getRulesJson s.rules).member (text "rules") =
      some (.array (s.rules.map ruleJson)) := rfl
  rw [rows_eq, Option.some.injEq, Json.array.injEq] at shown
  subst shown
  obtain ⟨rs, there, rfl⟩ := List.mem_map.mp listed
  have state : (ruleJson rs).member (text "state") = some (.string rs.state.toText) := rfl
  rw [state, Option.some.injEq, Json.string.injEq] at firing
  have named : rs.state = .firing := by
    cases known : rs.state with
    | firing => rfl
    | inactive =>
      rw [known] at firing
      exact absurd firing (by decide)
    | cooldown =>
      rw [known] at firing
      exact absurd firing (by decide)
  exact quiet rs there named

/-- In every run whose files have distinct ids and keep a rule, the rule fires exactly when it
should, and its counters, the answers and the history say so. -/
theorem run_alerts {id : Bytes} {cfg : Config} {tsdbs : Tsdbs} {parsed : Option Json} {clock : Int}
    {labels : List Label} {s : State} (first : KeptBy id parsed)
    (kept : ∀ label ∈ labels, label.Keeps id)
    (run : Run (Step cfg) (initial tsdbs parsed clock) labels s) : AsSpecified id labels s := by
  have both : Invariant id s ∧ ∀ json, .rulesJson json ∈ labels → ¬ShowsFiring json := by
    induction run with
    | refl => exact ⟨invariant_initial first, nofun⟩
    | @snoc labels current next label _ step ih =>
      obtain ⟨holds, shown⟩ := ih fun label listed => kept label (List.mem_append_left _ listed)
      have keeps := kept label (List.mem_append_right _ (List.mem_singleton_self label))
      refine ⟨invariant_step holds keeps step, ?_⟩
      intro json listed
      rcases List.mem_append.mp listed with old | new
      · exact shown json old
      · rw [← List.mem_singleton.mp new] at step
        cases step with
        | rulesJson free => exact holds.not_showsFiring free
  obtain ⟨holds, shown⟩ := both
  refine ⟨holds.fires, ?_, ?_, shown, holds.history⟩
  · intro rs listed named
    have tracks := holds.tracks rs listed named
    rw [tracks.counted, named]
  · intro rs listed named
    have tracks := holds.tracks rs listed named
    rw [tracks.lastFired, named]

def oneRule : Json := .array [.object [(text "id", .string (text "rule_001")),
  (text "app", .string (text "myapp")), (text "threshold", .integer 0)]]

def myappStore : Store := Store.empty.insert ⟨text "myapp", text "ERROR", text "down", 900⟩

section Pass
variable (cfg : Config) {s : State} {tsdb : Store} {rs : AlertRuleState} {now : Int}

def verdicts (s : State) : List (Int × Bool) :=
  s.evaluations.map fun e => (e.now, e.alert.isSome)

theorem evaluate_tsdbs (alone : s.tsdbs = .single tsdb) :
    (s.evaluate cfg 0 rs now).tsdbs = .single tsdb := by
  change (evaluateRule cfg s.tsdbs rs s.clock now).1 = .single tsdb
  rw [alone, evaluateRule]
  simp only [resolve]
  split
  · rfl
  · split <;> rfl

theorem verdicts_evaluate (s : State) (rs : AlertRuleState) (now : Int) :
    verdicts (s.evaluate cfg 0 rs now) =
      verdicts s ++ [(s.clock, (evaluateRule cfg s.tsdbs rs s.clock now).2.2.isSome)] := by
  unfold verdicts
  exact List.map_append

theorem evaluate_only (idle : s.position = .idle) (only : s.rules = [rs]) (later : s.clock ≤ now) :
    Run (Step cfg) s [.lock, .evaluate 0 now]
        ({ s with position := .evaluating 0 }.evaluate cfg 0 rs now) ∧
      ({ s with position := .evaluating 0 }.evaluate cfg 0 rs now).rules =
        [(evaluateRule cfg s.tsdbs rs s.clock now).2.1] := by
  constructor
  · have lock : Step cfg s .lock { s with position := .evaluating 0 } := .lock idle
    exact (Run.single lock).snoc (.evaluate rfl (by rw [only]; rfl) later)
  · change s.rules.set 0 (evaluateRule cfg s.tsdbs rs s.clock now).2.1 = _
    rw [only]
    rfl

/-- A pass over the only rule, which fires. -/
theorem pass_fires (alone : s.tsdbs = .single tsdb) (idle : s.position = .idle)
    (only : s.rules = [rs]) (quiet : rs.state ≠ .firing) (later : s.clock ≤ now)
    (fires : (evaluateRule cfg s.tsdbs rs s.clock now).2.2.isSome) :
    ∃ next, Run (Step cfg) s [.lock, .evaluate 0 now, .settle, .unlock] next ∧
      next.tsdbs = .single tsdb ∧ next.position = .idle ∧ next.clock = now ∧
      verdicts next = verdicts s ++ [(s.clock, true)] ∧
      next.rules = [{ rs with
        state := .cooldown
        lastFiredNs := s.clock
        cooldownUntilNs := s.clock + rs.rule.cooldownSeconds.toInt * 1000000000
        fireCount := rs.fireCount + 1 }] := by
  obtain ⟨run, rules⟩ := evaluate_only cfg idle only later
  have firing : ({ s with position := .evaluating 0 }.evaluate cfg 0 rs now).position = .firing 0 :=
    (evaluate_position ..).mpr ⟨fires, rfl⟩
  have settled := run.snoc (.settle firing (by rw [rules]; rfl))
  refine ⟨_, settled.snoc (.unlock (by rw [rules]; rfl)), evaluate_tsdbs cfg alone, rfl, rfl, ?_, ?_⟩
  · have seen := verdicts_evaluate cfg s rs now
    rw [fires] at seen
    exact seen
  · dsimp only
    rw [rules]
    rcases evaluateRule_cases cfg s.tsdbs quiet with ⟨silent, -⟩ | ⟨n, -, -, -, fired⟩
    · rw [silent] at fires
      cases fires
    · simp only [fired, fireAlert, expire_rule, expire_fireCount]
      rfl

/-- A pass over the only rule, which waits. -/
theorem pass_waits (alone : s.tsdbs = .single tsdb) (idle : s.position = .idle)
    (only : s.rules = [rs]) (later : s.clock ≤ now)
    (waits : (expire rs s.clock).state = .cooldown) :
    ∃ next, Run (Step cfg) s [.lock, .evaluate 0 now, .unlock] next ∧
      next.tsdbs = .single tsdb ∧ next.position = .idle ∧ next.clock = now ∧
      verdicts next = verdicts s ++ [(s.clock, false)] ∧ next.rules = [expire rs s.clock] := by
  obtain ⟨run, rules⟩ := evaluate_only cfg idle only later
  have result : evaluateRule cfg s.tsdbs rs s.clock now = (s.tsdbs, expire rs s.clock, none) := by
    unfold evaluateRule
    simp only [waits, if_true]
  have passed : ({ s with position := .evaluating 0 }.evaluate cfg 0 rs now).position =
      .evaluating 1 := by
    change (if (evaluateRule cfg s.tsdbs rs s.clock now).2.2.isSome then Position.firing 0
      else .evaluating 1) = _
    rw [result]
    rfl
  have seen := verdicts_evaluate cfg s rs now
  rw [result] at rules seen
  exact ⟨_, run.snoc (.unlock (by rw [rules]; exact passed)), evaluate_tsdbs cfg alone, rfl, rfl,
    seen, rules⟩

end Pass

def oneRuleEdited : Json := .array [.object [(text "id", .string (text "rule_001")),
  (text "app", .string (text "myapp")), (text "threshold", .integer (-1)),
  (text "cooldown_seconds", .integer 0)]]

def sampleConfig : Config := ⟨fun _ => Store.empty, []⟩

def sampleRule : AlertRuleState :=
  { rule := ⟨text "rule_001", text "myapp", text "ERROR", 0, 60, [], 300, []⟩ }

/-- The rule fires, is edited while it waits, and fires again when the first cooldown is over. -/
theorem run_alerts_edited : ∃ labels, ∃ s : State,
    AsSpecified (text "rule_001") labels s ∧ .reload (some oneRuleEdited) ∈ labels ∧
      verdicts s = [(1000, true), (2000, false), (300000001000, true)] := by
  let start := initial (.single myappStore) (some oneRule) 1000
  let waiting : AlertRuleState := { sampleRule with
    state := .cooldown, lastFiredNs := 1000, cooldownUntilNs := 300000001000, fireCount := 1 }
  let edited : AlertRuleState := { waiting with
    rule := ⟨text "rule_001", text "myapp", text "ERROR", -1, 60, [], 0, []⟩ }
  have fires : (evaluateRule sampleConfig start.tsdbs sampleRule start.clock 1000).2.2.isSome := by
    decide +kernel
  obtain ⟨fired, first, alone, idle, clock, seen, rules⟩ :=
    pass_fires sampleConfig rfl rfl rfl (by decide) (le_refl (1000 : Int)) fires
  have loaded : loadRules (some oneRuleEdited) fired.rules = [edited] := by
    rw [rules]
    rfl
  have reload := first.snoc (.reload (some oneRuleEdited) idle)
  rw [loaded] at reload
  have early := reload.snoc (.tick (clock.le.trans (by decide : (1000 : Int) ≤ 2000)))
  have kept : expire edited 2000 = edited := rfl
  obtain ⟨silent, second, alone, idle, clock, quiet, rules⟩ :=
    pass_waits sampleConfig (s := { fired with rules := [edited], clock := 2000 })
      alone idle rfl (le_refl (2000 : Int)) (congrArg AlertRuleState.state kept)
  rw [kept] at rules
  have late := (early.trans second).snoc
    (.tick (clock.le.trans (by decide : (2000 : Int) ≤ 300000001000)))
  have again : (evaluateRule sampleConfig (.single myappStore) edited 300000001000
      300000001000).2.2.isSome := by
    decide +kernel
  rw [← alone] at again
  obtain ⟨s, third, -, -, -, last, -⟩ :=
    pass_fires sampleConfig (s := { silent with clock := 300000001000 }) alone idle rules
      (by decide) (le_refl (300000001000 : Int)) again
  have whole := late.trans third
  have same : KeptBy (text "rule_001") (some oneRule) := by
    intro configs read
    obtain rfl : _ = configs := Option.some.inj read
    decide
  have edits : KeptBy (text "rule_001") (some oneRuleEdited) := by
    intro configs read
    obtain rfl : _ = configs := Option.some.inj read
    decide
  refine ⟨_, s, run_alerts same ?_ whole, by simp, ?_⟩
  · simpa [Label.Keeps] using edits
  · have before : verdicts silent = [(1000, true), (2000, false)] := by
      rw [quiet]
      exact congrArg (· ++ [(2000, false)]) seen
    exact last.trans (congrArg (· ++ [(300000001000, true)]) before)

end LogMonitor.AlertRulesEngine
