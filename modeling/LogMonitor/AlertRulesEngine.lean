import LogMonitor.TenantManager
import Mathlib.Data.List.DropRight

/-!
The alert rules engine. Its check thread reloads the rules when a reload is
pending and evaluates them in order, under the lock; a firing passes through the
state FIRING before it ends in COOLDOWN. What the engine does is kept as a list
of evaluations, which nothing in the program reads.
-/

namespace LogMonitor.AlertRulesEngine
open Library Library.ByteString Tsdb

inductive AlertState where
  | inactive
  | firing
  | cooldown
deriving DecidableEq

def AlertState.toText : AlertState → Bytes
  | .inactive => text "INACTIVE"
  | .firing => text "FIRING"
  | .cooldown => text "COOLDOWN"

structure AlertRuleConfig where
  id : Bytes
  app : Bytes
  level : Bytes
  threshold : Int32
  windowSeconds : Int32
  notifyUrl : Bytes
  cooldownSeconds : Int32
  /-- The project whose store is counted in; the default project's if empty. -/
  projectId : Bytes

/-- Times are nanoseconds and far from the ends of the 64-bit range. -/
structure AlertRuleState where
  rule : AlertRuleConfig
  state : AlertState := .inactive
  lastFiredNs : Int := 0
  cooldownUntilNs : Int := 0
  fireCount : UInt64 := 0

structure FiredAlert where
  ruleId : Bytes
  app : Bytes
  level : Bytes
  message : Bytes
  notifyUrl : Bytes
  count : Nat
  threshold : Int32
  windowSeconds : Int32
  firedAtNs : Int
  delivered : Bool := false
  deliveryError : Bytes := []

def maxHistory : Nat := 10

/-- The store the engine was built with: one for all rules, or one for each project. -/
inductive Tsdbs where
  | single (tsdb : Store)
  | tenant (manager : TenantManager.State)

structure Config where
  /-- What the file of a project holds when its store is created. -/
  persisted : Bytes → Store
  defaultProjectId : Bytes

/-- The store a rule is counted in, which may be created by the call. -/
def resolve (cfg : Config) (tsdbs : Tsdbs) (rule : AlertRuleConfig) : Tsdbs × Option Store :=
  match tsdbs with
  | .single tsdb => (.single tsdb, some tsdb)
  | .tenant manager =>
    let (manager, tsdb) := TenantManager.getTsdb cfg.persisted manager
      (if rule.projectId = [] then cfg.defaultProjectId else rule.projectId)
    (.tenant manager, tsdb)

def expire (rs : AlertRuleState) (now : Int) : AlertRuleState :=
  if rs.state = .cooldown ∧ rs.cooldownUntilNs ≤ now then { rs with state := .inactive } else rs

/-- `fire_alert` up to the alert; the rule is left in the state FIRING. -/
def fireAlert (rs : AlertRuleState) (count : Nat) (now : Int) : AlertRuleState × FiredAlert :=
  let rule := rs.rule
  ({ rs with
    state := .firing
    lastFiredNs := now
    cooldownUntilNs := now + rule.cooldownSeconds.toInt * 1000000000
    fireCount := rs.fireCount + 1 },
  { ruleId := rule.id
    app := rule.app
    level := rule.level
    message := text "Alert: " ++ rule.app ++ text " " ++ rule.level ++ text " count " ++
      text (toString count) ++ text " exceeded threshold " ++ text (toString rule.threshold) ++
      text " in " ++ text (toString rule.windowSeconds) ++ text "s"
    notifyUrl := rule.notifyUrl
    count := count
    threshold := rule.threshold
    windowSeconds := rule.windowSeconds
    firedAtNs := now })

/-- `evaluate_rule`, which reads the clock, and `getCount`, which reads it again. After an
alert the rule is still FIRING. -/
def evaluateRule (cfg : Config) (tsdbs : Tsdbs) (rs : AlertRuleState) (now countNow : Int) :
    Tsdbs × AlertRuleState × Option FiredAlert :=
  let rs := expire rs now
  if rs.state = .cooldown then (tsdbs, rs, none)
  else
    match resolve cfg tsdbs rs.rule with
    | (tsdbs, none) => (tsdbs, rs, none)
    | (tsdbs, some tsdb) =>
      let rule := rs.rule
      let count := tsdb.getCount countNow rule.app rule.level rule.windowSeconds.toInt
      if rule.threshold.toInt < count then
        let (rs, alert) := fireAlert rs count now
        (tsdbs, rs, some alert)
      else (tsdbs, { rs with state := if rs.state = .firing then .inactive else rs.state }, none)

/-- An element of the file; missing fields get their defaults. -/
def readConfig (item : Json) : Except Json.Error AlertRuleConfig := do
  return {
    id := ← item.valueString (text "id") []
    app := ← item.valueString (text "app") []
    level := ← item.valueString (text "level") (text "ERROR")
    threshold := ← item.valueInt32 (text "threshold") 5
    windowSeconds := ← item.valueInt32 (text "window_seconds") 60
    notifyUrl := ← item.valueString (text "notify_url") []
    cooldownSeconds := ← item.valueInt32 (text "cooldown_seconds") 300
    projectId := ← item.valueString (text "project_id") [] }

/-- The elements of the file that have an id and an app. -/
def readConfigs : List Json → Except Json.Error (List AlertRuleConfig)
  | [] => .ok []
  | item :: rest => do
    let cfg ← readConfig item
    let configs ← readConfigs rest
    return if cfg.id = [] ∨ cfg.app = [] then configs else cfg :: configs

/-- The rules of a file: nothing if it does not open, does not parse, is no array or has an
element of the wrong shape. -/
def readRules (parsed : Option Json) : Option (List AlertRuleConfig) :=
  match parsed with
  | some (.array items) => (readConfigs items).toOption
  | _ => none

/-- A rule of a new file takes over the state of the last rule with its id. -/
def restore (rules : List AlertRuleState) (cfg : AlertRuleConfig) : AlertRuleState :=
  match rules.reverse.find? fun rs => rs.rule.id = cfg.id with
  | none => { rule := cfg }
  | some previous => { previous with rule := cfg }

/-- `load_rules`, on what the JSON reader makes of the file, if anything. -/
def loadRules (parsed : Option Json) (rules : List AlertRuleState) : List AlertRuleState :=
  match readRules parsed with
  | none => rules
  | some configs => configs.map (restore rules)

def ruleJson (rs : AlertRuleState) : Json := .object [
  (text "id", .string rs.rule.id),
  (text "app", .string rs.rule.app),
  (text "level", .string rs.rule.level),
  (text "threshold", .integer rs.rule.threshold.toInt),
  (text "window_seconds", .integer rs.rule.windowSeconds.toInt),
  (text "notify_url", .string rs.rule.notifyUrl),
  (text "cooldown_seconds", .integer rs.rule.cooldownSeconds.toInt),
  (text "state", .string rs.state.toText),
  (text "fire_count", .integer rs.fireCount.toNat),
  (text "last_fired_ns", .integer rs.lastFiredNs)]

def getRulesJson (rules : List AlertRuleState) : Json :=
  .object [(text "rules", .array (rules.map ruleJson))]

/-- Where the check thread is. It holds the lock of the rules unless it is idle. -/
inductive Position where
  | idle
  | evaluating (index : Nat)
  /-- The rule has fired and is not yet in COOLDOWN. -/
  | firing (index : Nat)

/-- One evaluation of a rule: what was in force, the count in its store, and the alert. -/
structure Evaluation where
  ruleId : Bytes
  now : Int
  cooldownSeconds : Int32
  threshold : Int32
  /-- Nothing when the rule has no store. -/
  count : Option Nat
  alert : Option FiredAlert

structure State where
  clock : Int
  tsdbs : Tsdbs
  rules : List AlertRuleState
  /-- What `get_fired_history` returns; its lock is not that of the rules. -/
  firedHistory : List FiredAlert
  position : Position
  evaluations : List Evaluation

def initial (tsdbs : Tsdbs) (parsed : Option Json) (clock : Int) : State where
  clock := clock
  tsdbs := tsdbs
  rules := loadRules parsed []
  firedHistory := []
  position := .idle
  evaluations := []

def pushHistory (history : List FiredAlert) (alert : FiredAlert) : List FiredAlert :=
  (history ++ [alert]).rtake maxHistory

def evaluation (cfg : Config) (tsdbs : Tsdbs) (rs : AlertRuleState) (now countNow : Int) :
    Evaluation where
  ruleId := rs.rule.id
  now := now
  cooldownSeconds := rs.rule.cooldownSeconds
  threshold := rs.rule.threshold
  count := (resolve cfg tsdbs rs.rule).2.map fun tsdb =>
    tsdb.getCount countNow rs.rule.app rs.rule.level rs.rule.windowSeconds.toInt
  alert := (evaluateRule cfg tsdbs rs now countNow).2.2

def State.evaluate (cfg : Config) (s : State) (index : Nat) (rs : AlertRuleState) (countNow : Int) :
    State :=
  let (tsdbs, evaluated, alert) := evaluateRule cfg s.tsdbs rs s.clock countNow
  { clock := countNow
    tsdbs := tsdbs
    rules := s.rules.set index evaluated
    firedHistory := match alert with
      | none => s.firedHistory
      | some alert => pushHistory s.firedHistory alert
    position := if alert.isSome then .firing index else .evaluating (index + 1)
    evaluations := s.evaluations ++ [evaluation cfg s.tsdbs rs s.clock countNow] }

/-- What may happen to the stores besides: inserts, and with projects all that the tenant
manager does. -/
inductive TsdbStep (persisted : Bytes → Store) : Tsdbs → Tsdbs → Prop
  | insert (tsdb : Store) (entry : TsdbEntry) :
      TsdbStep persisted (.single tsdb) (.single (tsdb.insert entry))
  | evict (tsdb : Store) (now : Int) :
      TsdbStep persisted (.single tsdb) (.single (tsdb.evictOldEntries now))
  | tenant {manager next : TenantManager.State} {label : TenantManager.Label}
      (step : TenantManager.Step persisted manager label next) :
      TsdbStep persisted (.tenant manager) (.tenant next)

inductive Label where
  | tick
  | tsdb
  | reload (parsed : Option Json)
  | lock
  | evaluate (index : Nat) (countNow : Int)
  | settle
  | unlock
  /-- A caller of `get_rules_json` gets this. -/
  | rulesJson (json : Json)

inductive Step (cfg : Config) : State → Label → State → Prop
  | tick {s : State} {now : Int} (later : s.clock ≤ now) :
      Step cfg s .tick { s with clock := now }
  | tsdb {s : State} {tsdbs : Tsdbs} (step : TsdbStep cfg.persisted s.tsdbs tsdbs) :
      Step cfg s .tsdb { s with tsdbs := tsdbs }
  | reload {s : State} (parsed : Option Json) (here : s.position = .idle) :
      Step cfg s (.reload parsed) { s with rules := loadRules parsed s.rules }
  | lock {s : State} (here : s.position = .idle) :
      Step cfg s .lock { s with position := .evaluating 0 }
  | evaluate {s : State} {index : Nat} {rs : AlertRuleState} {countNow : Int}
      (here : s.position = .evaluating index) (next : s.rules[index]? = some rs)
      (later : s.clock ≤ countNow) :
      Step cfg s (.evaluate index countNow) (s.evaluate cfg index rs countNow)
  | settle {s : State} {index : Nat} {rs : AlertRuleState} (here : s.position = .firing index)
      (next : s.rules[index]? = some rs) :
      Step cfg s .settle { s with
        rules := s.rules.set index { rs with state := .cooldown }
        position := .evaluating (index + 1) }
  | unlock {s : State} (here : s.position = .evaluating s.rules.length) :
      Step cfg s .unlock { s with position := .idle }
  | rulesJson {s : State} (free : s.position = .idle) :
      Step cfg s (.rulesJson (getRulesJson s.rules)) s

end LogMonitor.AlertRulesEngine
