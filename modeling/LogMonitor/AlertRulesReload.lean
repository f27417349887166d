import LogMonitor.AlertRulesEngine

/-!
The loading of the alert rules, as the loop over the elements of the file that
builds the new list beside the old one. What a file says is stated apart from
that: which elements are of the right types, and what they configure.
-/

namespace LogMonitor.AlertRulesEngine
open Library Library.ByteString

inductive RulesFile where
  | missing
  | malformed (error : Json.Error)
  | parsed (json : Json)

def RulesFile.toOption : RulesFile → Option Json
  | .parsed json => some json
  | _ => none

/-- `prev_states`: of several rules with one id the last is kept. -/
def prevStates (rules : List AlertRuleState) : Bytes → Option AlertRuleState :=
  rules.foldl (fun prev rs => Function.update prev rs.rule.id (some rs)) fun _ => none

def carryOver (prev : Bytes → Option AlertRuleState) (cfg : AlertRuleConfig) : AlertRuleState :=
  match prev cfg.id with
  | none => { rule := cfg }
  | some old =>
    { rule := cfg
      state := old.state
      lastFiredNs := old.lastFiredNs
      cooldownUntilNs := old.cooldownUntilNs
      fireCount := old.fireCount }

/-- The loop over the elements, with the rules built so far. -/
def buildRules (prev : Bytes → Option AlertRuleState) :
    List Json → List AlertRuleState → Except Json.Error (List AlertRuleState)
  | [], newRules => .ok newRules
  | item :: rest, newRules => do
    let cfg ← readConfig item
    if cfg.id = [] ∨ cfg.app = [] then buildRules prev rest newRules
    else buildRules prev rest (newRules ++ [carryOver prev cfg])

/-- The body of the `try`: what `rules_` is when it ends. -/
def loadBody (file : RulesFile) (rules : List AlertRuleState) :
    Except Json.Error (List AlertRuleState) :=
  match file with
  | .missing => .ok rules
  | .malformed error => .error error
  | .parsed (.array items) => buildRules (prevStates rules) items []
  | .parsed _ => .ok rules

/-- An exception is reported, and `rules_` stays as it is. -/
def reload (file : RulesFile) (rules : List AlertRuleState) : List AlertRuleState :=
  match loadBody file rules with
  | .ok rules => rules
  | .error _ => rules

def textKeys : List Bytes :=
  [text "id", text "app", text "level", text "notify_url", text "project_id"]

def numberKeys : List Bytes :=
  [text "threshold", text "window_seconds", text "cooldown_seconds"]

def IsText (json : Json) : Prop := ∃ value, json = .string value

def IsNumber : Json → Prop
  | .boolean _ | .integer _ | .real _ => True
  | _ => False

/-- An object whose fields have the right types as far as they are there. -/
structure WellTyped (item : Json) : Prop where
  object : ∃ members, item = .object members
  texts : ∀ key ∈ textKeys, ∀ value, item.member key = some value → IsText value
  numbers : ∀ key ∈ numberKeys, ∀ value, item.member key = some value → IsNumber value

structure RulesFile.Holds (file : RulesFile) (items : List Json) : Prop where
  array : file = .parsed (.array items)
  typed : ∀ item ∈ items, WellTyped item

def textOf (key fallback : Bytes) (item : Json) : Bytes :=
  match item.member key with
  | some (.string value) => value
  | _ => fallback

def numberOf (key : Bytes) (fallback : Int32) (item : Json) : Int32 :=
  match item.member key with
  | some (.boolean value) => if value then 1 else 0
  | some (.integer value) => Int32.ofInt value
  | some (.real value) => Int32.ofInt (value.num.tdiv value.den)
  | _ => fallback

def configOf (item : Json) : AlertRuleConfig where
  id := textOf (text "id") [] item
  app := textOf (text "app") [] item
  level := textOf (text "level") (text "ERROR") item
  threshold := numberOf (text "threshold") 5 item
  windowSeconds := numberOf (text "window_seconds") 60 item
  notifyUrl := textOf (text "notify_url") [] item
  cooldownSeconds := numberOf (text "cooldown_seconds") 300 item
  projectId := textOf (text "project_id") [] item

def configured (items : List Json) : List AlertRuleConfig :=
  (items.map configOf).filter fun cfg => cfg.id ≠ [] ∧ cfg.app ≠ []

def Distinct (rules : List AlertRuleState) : Prop :=
  (rules.map fun rs => rs.rule.id).Nodup

structure Continues (old rs : AlertRuleState) : Prop where
  state : rs.state = old.state
  lastFiredNs : rs.lastFiredNs = old.lastFiredNs
  cooldownUntilNs : rs.cooldownUntilNs = old.cooldownUntilNs
  fireCount : rs.fireCount = old.fireCount

def fresh (cfg : AlertRuleConfig) : AlertRuleState where
  rule := cfg
  state := .inactive
  lastFiredNs := 0
  cooldownUntilNs := 0
  fireCount := 0

section Fields

variable {members : List (Bytes × Json)} {key : Bytes}

theorem valueString_ok {fallback value : Bytes}
    (read : (Json.object members).valueString key fallback = .ok value) :
    ∀ json, (Json.object members).member key = some json → IsText json := by
  intro json found
  simp only [Json.valueString, found] at read
  cases json with
  | string value => exact ⟨value, rfl⟩
  | _ => exact absurd read nofun

theorem valueString_eq (fallback : Bytes)
    (typed : ∀ json, (Json.object members).member key = some json → IsText json) :
    (Json.object members).valueString key fallback =
      .ok (textOf key fallback (.object members)) := by
  cases found : (Json.object members).member key with
  | none => simp only [Json.valueString, textOf, found]
  | some json =>
    obtain ⟨value, rfl⟩ := typed json found
    simp only [Json.valueString, textOf, found, Json.getString]

theorem valueInt32_ok {fallback value : Int32}
    (read : (Json.object members).valueInt32 key fallback = .ok value) :
    ∀ json, (Json.object members).member key = some json → IsNumber json := by
  intro json found
  simp only [Json.valueInt32, found] at read
  cases json with
  | boolean | integer | real => exact trivial
  | _ => exact absurd read nofun

theorem valueInt32_eq (fallback : Int32)
    (typed : ∀ json, (Json.object members).member key = some json → IsNumber json) :
    (Json.object members).valueInt32 key fallback =
      .ok (numberOf key fallback (.object members)) := by
  cases found : (Json.object members).member key with
  | none => simp only [Json.valueInt32, numberOf, found]
  | some json =>
    have number := typed json found
    cases json with
    | boolean | integer | real => simp only [Json.valueInt32, numberOf, found, Json.getInt32]
    | _ => exact number.elim

end Fields

theorem bind_ok {ε α β : Type} {first : Except ε α} {next : α → Except ε β} {result : β}
    (done : first >>= next = .ok result) :
    ∃ value, first = .ok value ∧ next value = .ok result := by
  cases first with
  | error error => exact absurd done nofun
  | ok value => exact ⟨value, rfl, done⟩

theorem readConfig_eq {item : Json} (typed : WellTyped item) :
    readConfig item = .ok (configOf item) := by
  obtain ⟨⟨members, rfl⟩, texts, numbers⟩ := typed
  have named (key fallback : Bytes) (listed : key ∈ textKeys) :=
    valueString_eq fallback (texts key listed)
  have counted (key : Bytes) (fallback : Int32) (listed : key ∈ numberKeys) :=
    valueInt32_eq fallback (numbers key listed)
  simp only [readConfig, named _ _ (show text "id" ∈ textKeys by decide),
    named _ _ (show text "app" ∈ textKeys by decide),
    named _ _ (show text "level" ∈ textKeys by decide),
    named _ _ (show text "notify_url" ∈ textKeys by decide),
    named _ _ (show text "project_id" ∈ textKeys by decide),
    counted _ _ (show text "threshold" ∈ numberKeys by decide),
    counted _ _ (show text "window_seconds" ∈ numberKeys by decide),
    counted _ _ (show text "cooldown_seconds" ∈ numberKeys by decide)]
  rfl

theorem wellTyped_of_readConfig {item : Json} {cfg : AlertRuleConfig}
    (read : readConfig item = .ok cfg) : WellTyped item := by
  unfold readConfig at read
  obtain ⟨id, readId, read⟩ := bind_ok read
  obtain ⟨app, readApp, read⟩ := bind_ok read
  obtain ⟨level, readLevel, read⟩ := bind_ok read
  obtain ⟨threshold, readThreshold, read⟩ := bind_ok read
  obtain ⟨window, readWindow, read⟩ := bind_ok read
  obtain ⟨url, readUrl, read⟩ := bind_ok read
  obtain ⟨cooldown, readCooldown, read⟩ := bind_ok read
  obtain ⟨project, readProject, -⟩ := bind_ok read
  obtain ⟨members, rfl⟩ : ∃ members, item = .object members := by
    cases item with
    | object members => exact ⟨members, rfl⟩
    | _ => exact absurd readId nofun
  refine ⟨⟨members, rfl⟩, ?_, ?_⟩
  · simp only [textKeys, List.forall_mem_cons]
    exact ⟨valueString_ok readId, valueString_ok readApp, valueString_ok readLevel,
      valueString_ok readUrl, valueString_ok readProject, nofun⟩
  · simp only [numberKeys, List.forall_mem_cons]
    exact ⟨valueInt32_ok readThreshold, valueInt32_ok readWindow, valueInt32_ok readCooldown, nofun⟩

/-- The loop reads every element or fails, and appends what the elements configure. -/
theorem buildRules_eq (prev : Bytes → Option AlertRuleState) {items : List Json}
    (typed : ∀ item ∈ items, WellTyped item) (newRules : List AlertRuleState) :
    buildRules prev items newRules = .ok (newRules ++ (configured items).map (carryOver prev)) := by
  induction items generalizing newRules with
  | nil => simp [buildRules, configured]
  | cons item items ih =>
    have rest := ih fun other inside => typed other (List.mem_cons_of_mem _ inside)
    have read := readConfig_eq (typed item (List.mem_cons_self ..))
    unfold buildRules
    rw [read]
    change (if _ then _ else _) = _
    by_cases skipped : (configOf item).id = [] ∨ (configOf item).app = []
    · have same : configured (item :: items) = configured items := by
        unfold configured
        rw [List.map_cons, List.filter_cons_of_neg]
        rcases skipped with unnamed | unnamed <;> simp [unnamed]
      rw [if_pos skipped, rest, same]
    · have more : configured (item :: items) = configOf item :: configured items := by
        unfold configured
        rw [List.map_cons, List.filter_cons_of_pos]
        rw [not_or] at skipped
        simpa using skipped
      rw [if_neg skipped, rest, more, List.map_cons, List.append_assoc, List.singleton_append]

theorem typed_of_buildRules {prev : Bytes → Option AlertRuleState} {items : List Json}
    {newRules built : List AlertRuleState} (done : buildRules prev items newRules = .ok built) :
    ∀ item ∈ items, WellTyped item := by
  induction items generalizing newRules with
  | nil => simp
  | cons item items ih =>
    unfold buildRules at done
    cases read : readConfig item with
    | error error =>
      rw [read] at done
      exact absurd done nofun
    | ok cfg =>
      rw [read] at done
      change (if _ then _ else _) = _ at done
      refine List.forall_mem_cons.mpr ⟨wellTyped_of_readConfig read, ?_⟩
      split at done
      next => exact ih done
      next => exact ih done

theorem prevStates_eq (rules : List AlertRuleState) (id : Bytes) :
    prevStates rules id = rules.reverse.find? fun rs => rs.rule.id = id := by
  induction rules using List.reverseRecOn with
  | nil => rfl
  | append_singleton rules rs ih =>
    have last : prevStates (rules ++ [rs]) =
        Function.update (prevStates rules) rs.rule.id (some rs) := List.foldl_concat ..
    rw [last, List.reverse_concat, List.find?_cons]
    by_cases same : rs.rule.id = id
    · subst same
      simp
    · rw [Function.update_of_ne (Ne.symm same), ih]
      simp [same]

/-- The loop that builds the list carries over what the list of the configurations restores. -/
theorem carryOver_eq (rules : List AlertRuleState) :
    carryOver (prevStates rules) = restore rules := by
  funext cfg
  have found := prevStates_eq rules cfg.id
  cases kept : rules.reverse.find? fun rs => rs.rule.id = cfg.id with
  | none => simp only [carryOver, restore, found, kept]
  | some old => simp only [carryOver, restore, found, kept]

theorem readConfigs_eq {items : List Json} (typed : ∀ item ∈ items, WellTyped item) :
    readConfigs items = .ok (configured items) := by
  induction items with
  | nil => rfl
  | cons item items ih =>
    have rest := ih fun other inside => typed other (List.mem_cons_of_mem _ inside)
    rw [readConfigs, readConfig_eq (typed item (List.mem_cons_self ..)), rest]
    change Except.ok (if _ then _ else _) = _
    unfold configured
    rw [List.map_cons]
    by_cases skipped : (configOf item).id = [] ∨ (configOf item).app = []
    · rw [if_pos skipped, List.filter_cons_of_neg]
      rcases skipped with unnamed | unnamed <;> simp [unnamed]
    · rw [if_neg skipped, List.filter_cons_of_pos]
      rw [not_or] at skipped
      simpa using skipped

theorem typed_of_readConfigs {items : List Json} {configs : List AlertRuleConfig}
    (read : readConfigs items = .ok configs) : ∀ item ∈ items, WellTyped item := by
  induction items generalizing configs with
  | nil => simp
  | cons item items ih =>
    obtain ⟨cfg, first, read⟩ := bind_ok read
    obtain ⟨rest, others, -⟩ := bind_ok read
    exact List.forall_mem_cons.mpr ⟨wellTyped_of_readConfig first, ih others⟩

section Reload

variable {file : RulesFile} (rules : List AlertRuleState)

theorem reload_holds {items : List Json} (holds : file.Holds items) :
    reload file rules = (configured items).map (restore rules) := by
  obtain ⟨rfl, typed⟩ := holds
  have built := buildRules_eq (prevStates rules) typed []
  rw [List.nil_append, carryOver_eq] at built
  simp only [reload, loadBody, built]

theorem reload_unheld (unheld : ∀ items, ¬file.Holds items) : reload file rules = rules := by
  unfold reload
  cases done : loadBody file rules with
  | error error => rfl
  | ok built =>
    cases file with
    | missing => exact (Except.ok.inj done).symm
    | malformed error => exact absurd done nofun
    | parsed json =>
      cases json with
      | array items =>
        have built : buildRules (prevStates rules) items [] = .ok built := done
        exact absurd ⟨rfl, typed_of_buildRules built⟩ (unheld items)
      | _ => exact (Except.ok.inj done).symm

/-- The loading of the engine's steps is that of the source's loop. -/
theorem reload_eq_loadRules : reload file rules = loadRules file.toOption rules := by
  by_cases held : ∃ items, file.Holds items
  · obtain ⟨items, holds⟩ := held
    rw [reload_holds rules holds]
    obtain ⟨rfl, typed⟩ := holds
    have read : readRules (RulesFile.parsed (.array items)).toOption = some (configured items) := by
      unfold readRules RulesFile.toOption
      simp only [readConfigs_eq typed]
      rfl
    rw [loadRules, read]
  · rw [not_exists] at held
    rw [reload_unheld rules held]
    have unread : readRules file.toOption = none := by
      cases file with
      | missing => rfl
      | malformed error => rfl
      | parsed json =>
        cases json with
        | array items =>
          unfold readRules RulesFile.toOption
          cases read : readConfigs items with
          | error error => simp only [read]; rfl
          | ok configs => exact absurd ⟨rfl, typed_of_readConfigs read⟩ (held items)
        | _ => rfl
    rw [loadRules, unread]

theorem restore_rule (cfg : AlertRuleConfig) : (restore rules cfg).rule = cfg := by
  unfold restore
  split <;> rfl

end Reload

theorem restore_of_mem {rules : List AlertRuleState} (distinct : Distinct rules)
    {old : AlertRuleState} (listed : old ∈ rules) {cfg : AlertRuleConfig}
    (same : old.rule.id = cfg.id) : restore rules cfg = { old with rule := cfg } := by
  have found : rules.reverse.find? (fun rs => rs.rule.id = cfg.id) = some old := by
    cases search : rules.reverse.find? fun rs => rs.rule.id = cfg.id with
    | none =>
      have absent := List.find?_eq_none.mp search old (List.mem_reverse.mpr listed)
      exact absurd (decide_eq_true same) absent
    | some other =>
      have inside := List.mem_reverse.mp (List.mem_of_find?_eq_some search)
      have named : other.rule.id = cfg.id := by simpa using List.find?_some search
      rw [List.inj_on_of_nodup_map distinct inside listed (named.trans same.symm)]
  unfold restore
  rw [found]

theorem restore_of_absent {rules : List AlertRuleState} {cfg : AlertRuleConfig}
    (absent : ∀ old ∈ rules, old.rule.id ≠ cfg.id) : restore rules cfg = fresh cfg := by
  have none : rules.reverse.find? (fun rs => rs.rule.id = cfg.id) = none := by
    apply List.find?_eq_none.mpr
    intro old listed
    simpa using absent old (List.mem_reverse.mp listed)
  unfold restore
  rw [none]
  rfl

theorem restore_self {rules : List AlertRuleState} (distinct : Distinct rules) :
    (rules.map AlertRuleState.rule).map (restore rules) = rules := by
  rw [List.map_map]
  conv_rhs => rw [← List.map_id rules]
  apply List.map_congr_left
  intro rs listed
  exact restore_of_mem distinct listed rfl

/-- A file that does not hold an array of well-typed elements changes no rule; any other makes the
rules those it configures, where a rule that was there goes on from its state and a new one starts
afresh. A file whose rules are in force changes nothing. -/
theorem reload_all_or_nothing (file : RulesFile) (rules : List AlertRuleState) :
    ((∀ items, ¬file.Holds items) → reload file rules = rules) ∧
    ∀ items, file.Holds items →
      (reload file rules).map AlertRuleState.rule = configured items ∧
      (Distinct rules → ∀ rs ∈ reload file rules,
        (∀ old ∈ rules, old.rule.id = rs.rule.id → Continues old rs) ∧
        ((∀ old ∈ rules, old.rule.id ≠ rs.rule.id) → rs = fresh rs.rule)) ∧
      (Distinct rules → rules.map AlertRuleState.rule = configured items →
        reload file rules = rules) := by
  refine ⟨reload_unheld rules, fun items holds => ?_⟩
  rw [reload_holds rules holds]
  refine ⟨?_, ?_, ?_⟩
  · rw [List.map_map]
    conv_rhs => rw [← List.map_id (configured items)]
    exact List.map_congr_left fun cfg _ => restore_rule rules cfg
  · intro distinct rs listed
    obtain ⟨cfg, -, rfl⟩ := List.mem_map.mp listed
    rw [restore_rule]
    refine ⟨fun old inside same => ?_, restore_of_absent⟩
    rw [restore_of_mem distinct inside same]
    exact ⟨rfl, rfl, rfl, rfl⟩
  · intro distinct same
    rw [← same]
    exact restore_self distinct

theorem reload_all_or_nothing_cooldown :
    let item : Json := .object [(text "id", .string (text "r1")), (text "app", .string (text "web"))]
    let fired : AlertRuleState := ⟨configOf item, .cooldown, 5, 300000000005, 1⟩
    reload (.parsed (.array [item])) [fired] = [fired] := by
  intro item fired
  have holds : (RulesFile.parsed (.array [item])).Holds [item] :=
    ⟨rfl, List.forall_mem_singleton.mpr (@wellTyped_of_readConfig item (configOf item) rfl)⟩
  obtain ⟨-, -, unchanged⟩ :=
    (reload_all_or_nothing (.parsed (.array [item])) [fired]).2 [item] holds
  exact unchanged (List.nodup_singleton _) rfl

end LogMonitor.AlertRulesEngine
