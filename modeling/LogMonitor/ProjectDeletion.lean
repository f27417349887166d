import LogMonitor.AccountRestarts
import LogMonitor.ProjectAccess
import LogMonitor.TenantResponses

/-!
What is left of a deleted project. A deletion changes the project store and
nothing else: the tenant manager keeps the store of the project if it has one,
whoever asks for it later gets one, and each of them is saved. So nothing is
left exactly of those projects whose store nobody has asked for.
-/

namespace LogMonitor.ProjectDeletion
open Library Library.ByteString Library.Transition AuthManager ProjectStore Tsdb ProjectRoutes
open AlertRulesEngine (AlertRuleConfig AlertRuleState FiredAlert)

structure Config where
  /-- What its stores read is left to `State.persisted`. -/
  server : ProjectRoutes.Config
  dataDir : Bytes
  defaultProjectId : Bytes
  /-- Which file the system finds under a path. -/
  resolved : Bytes → Bytes
  /-- The JSON reader, on the file of the projects. -/
  parse : Bytes → Option Json

/-- `data_dir_ + "/" + project_id + ".bin"`. -/
def Config.file (cfg : Config) (projectId : Bytes) : Bytes :=
  cfg.resolved (cfg.dataDir ++ text "/" ++ projectId ++ text ".bin")

inductive Handler where
  | project (request : Request) (phase : Phase)
  /-- `route_ingest` before it looks the key up. -/
  | ingest (apiKey : Bytes) (entry : TsdbEntry)
  | routed (projectId : Bytes) (entry : TsdbEntry)

structure State where
  server : ProjectRoutes.State
  files : Bytes → Files
  /-- The number of the next request. -/
  arrived : Nat
  active : Nat → Option Handler
  /-- The answers on the project routes. -/
  served : List Served

def State.tsdbMap (s : State) : Bytes → Option Store := s.server.tenantMgr.tsdbMap

def State.projectStore (s : State) : ProjectStore.State := s.server.tenantMgr.projectStore

/-- What a store of the project finds when it is created. -/
def State.persisted (cfg : Config) (s : State) (load : LoadEnvironment) (projectId : Bytes) :
    Store :=
  loadFromDisk load (s.files (cfg.file projectId)).target

def State.withTenants (s : State) (tenantMgr : TenantManager.State) : State :=
  { s with server := { s.server with tenantMgr := tenantMgr } }

def State.settle (s : State) (thread : Nat) (request : Request)
    (result : ProjectRoutes.State × Progress) : State :=
  match result.2 with
  | .goesOn phase =>
    { s with
      server := result.1
      active := Function.update s.active thread (some (.project request phase)) }
  | .answers response =>
    { s with
      server := result.1
      active := Function.update s.active thread none
      served := s.served ++ [⟨thread, request, response⟩] }

def State.arrive (s : State) (handler : Handler) : State :=
  { s with
    arrived := s.arrived + 1
    active := Function.update s.active s.arrived (some handler) }

/-- The project whose store `evaluate_rule` counts in. -/
def ruleProject (cfg : Config) (rule : AlertRuleConfig) : Bytes :=
  if rule.projectId = [] then cfg.defaultProjectId else rule.projectId

/-- `write_to_disk` of a project's store. -/
def State.save (cfg : Config) (s : State) (projectId : Bytes) (tsdb : Store) (disk : Disk) :
    State :=
  { s with
    files := Function.update s.files (cfg.file projectId)
      (writeToDisk disk (writeBinary tsdb) (s.files (cfg.file projectId))) }

/-- What lives in memory besides the projects and their logs. -/
structure Rest where
  users : UserStore.State
  revoked : Revoked
  rules : Option (List AlertRuleState)
  history : Option (List FiredAlert)

def State.withRest (s : State) (rest : Rest) : State :=
  { s with server := ⟨s.server.tenantMgr, rest.users, rest.revoked, rest.rules, rest.history⟩ }

/-- A process that starts on these files; no request is in flight. -/
def State.started (cfg : Config) (s : State) (projectStore : ProjectStore.State) (rest : Rest)
    (load : LoadEnvironment) : State :=
  let tenantMgr := TenantManager.construct (s.persisted cfg load) projectStore cfg.defaultProjectId
  { s with
    server := ⟨tenantMgr, rest.users, rest.revoked, rest.rules, rest.history⟩
    active := fun _ => none }

inductive Label where
  | arrive (request : Request)
  | arriveIngest (apiKey : Bytes) (entry : TsdbEntry)
  | handle (thread : Nat) (input : Input) (load : LoadEnvironment)
  | lookUp (thread : Nat)
  | ingested (thread : Nat) (load : LoadEnvironment)
  | evaluated (rule : AlertRuleConfig) (load : LoadEnvironment)
  /-- The callback of the pipeline, with the default project. -/
  | tapped (entry : TsdbEntry) (load : LoadEnvironment)
  | evicted (projectId : Bytes) (now : Int)
  /-- By the thread of the store, or in `stop`, which `stop_all` calls for every store. -/
  | saved (projectId : Bytes) (disk : Disk)
  /-- Accounts are registered, tokens revoked, rules reloaded, alerts recorded. -/
  | elsewhere (rest : Rest)
  /-- The process has ended, orderly or not, and another one starts. -/
  | restarted (rest : Rest) (load : LoadEnvironment)

def Label.isRestart : Label → Prop
  | .restarted _ _ => True
  | _ => False

variable (cfg : Config)

inductive Step (s : State) : Label → State → Prop
  | arrive (request : Request) : Step s (.arrive request) (s.arrive (.project request .received))
  | arriveIngest (apiKey : Bytes) (entry : TsdbEntry) :
      Step s (.arriveIngest apiKey entry) (s.arrive (.ingest apiKey entry))
  | handle {thread : Nat} {request : Request} {phase : Phase} (input : Input)
      (load : LoadEnvironment) (here : s.active thread = some (.project request phase)) :
      Step s (.handle thread input load)
        (s.settle thread request
          (advance (cfg.server.reading (s.persisted cfg load)) s.server request phase input))
  | lookUp {thread : Nat} {apiKey : Bytes} {entry : TsdbEntry}
      (here : s.active thread = some (.ingest apiKey entry)) :
      Step s (.lookUp thread)
        { s with
          active := Function.update s.active thread
            ((findByApiKey s.projectStore apiKey).map fun proj => .routed proj.id entry) }
  | ingested {thread : Nat} {projectId : Bytes} {entry : TsdbEntry} (load : LoadEnvironment)
      (here : s.active thread = some (.routed projectId entry)) :
      Step s (.ingested thread load)
        { s.withTenants (TenantManager.ingestToProject (s.persisted cfg load) s.server.tenantMgr
            projectId entry) with
          active := Function.update s.active thread none }
  | evaluated (rule : AlertRuleConfig) (load : LoadEnvironment) :
      Step s (.evaluated rule load)
        (s.withTenants (TenantManager.getTsdb (s.persisted cfg load) s.server.tenantMgr
          (ruleProject cfg rule)).1)
  | tapped (entry : TsdbEntry) (load : LoadEnvironment) :
      Step s (.tapped entry load)
        (s.withTenants (TenantManager.ingestToProject (s.persisted cfg load) s.server.tenantMgr
          cfg.defaultProjectId entry))
  | evicted {projectId : Bytes} {tsdb : Store} (now : Int)
      (present : s.tsdbMap projectId = some tsdb) :
      Step s (.evicted projectId now) (s.withTenants { s.server.tenantMgr with
        tsdbMap := Function.update s.tsdbMap projectId (some (tsdb.evictOldEntries now)) })
  | saved {projectId : Bytes} {tsdb : Store} (disk : Disk)
      (present : s.tsdbMap projectId = some tsdb) :
      Step s (.saved projectId disk) (s.save cfg projectId tsdb disk)
  | elsewhere (rest : Rest) : Step s (.elsewhere rest) (s.withRest rest)
  | restarted {projectStore : ProjectStore.State} (rest : Rest) (load : LoadEnvironment)
      (loaded : reload cfg.parse s.projectStore = some projectStore) :
      Step s (.restarted rest load) (s.started cfg projectStore rest load)

/-- The project whose store a handler asks the tenant manager for with its next step. -/
def Handler.asks : Handler → Option Bytes
  | .project _ (.owned _ id (.read _)) => if cfg.server.hasTenantMgr then some id else none
  | .routed projectId _ => some projectId
  | _ => none

def Label.asks (s : State) : Label → Option Bytes
  | .handle thread _ _ | .ingested thread _ => (s.active thread).bind (Handler.asks cfg)
  | .evaluated rule _ => some (ruleProject cfg rule)
  | .tapped _ _ => some cfg.defaultProjectId
  | .restarted _ _ => do
    let projectStore ← reload cfg.parse s.projectStore
    (findById projectStore cfg.defaultProjectId).map fun _ => cfg.defaultProjectId
  | _ => none

def Label.Writes (file : Bytes) : Label → Prop
  | .saved projectId disk => cfg.file projectId = file ∧ disk.opens = true ∧ disk.renames = true
  | _ => False

def State.Gone (s : State) (projectId : Bytes) : Prop :=
  s.tsdbMap projectId = none ∧ (s.files (cfg.file projectId)).target = none

/-- `DELETE /api/projects/{id}` has answered 200. -/
def State.Deleted (s : State) (projectId : Bytes) : Prop :=
  ∃ answer ∈ s.served, answer.request.route = .project projectId .delete ∧
    answer.response.status = 200

/-- The deletion was answered, and what was in flight then has ended. -/
def Settled (start : State) (labels : List Label) (s : State) (projectId : Bytes) : Prop :=
  ∃ before after middle, labels = before ++ after ∧ Run (Step cfg) start before middle ∧
    Run (Step cfg) middle after s ∧ middle.Deleted projectId ∧
    ∀ thread, (middle.active thread).isSome = true → s.active thread = none

section Steps

variable {cfg}

theorem settle_of_goesOn (s : State) (thread : Nat) (request : Request)
    {result : ProjectRoutes.State × Progress} {phase : Phase} (going : result.2 = .goesOn phase) :
    s.settle thread request result = { s with
      server := result.1
      active := Function.update s.active thread (some (.project request phase)) } := by
  unfold State.settle
  rw [going]

theorem settle_of_answers (s : State) (thread : Nat) (request : Request)
    {result : ProjectRoutes.State × Progress} {response : Response}
    (answered : result.2 = .answers response) :
    s.settle thread request result = { s with
      server := result.1
      active := Function.update s.active thread none
      served := s.served ++ [⟨thread, request, response⟩] } := by
  unfold State.settle
  rw [answered]

theorem settle_tsdbMap (s : State) (thread : Nat) (request : Request)
    (result : ProjectRoutes.State × Progress) :
    (s.settle thread request result).tsdbMap = result.1.tenantMgr.tsdbMap := by
  unfold State.settle
  split <;> rfl

theorem settle_files (s : State) (thread : Nat) (request : Request)
    (result : ProjectRoutes.State × Progress) :
    (s.settle thread request result).files = s.files := by
  unfold State.settle
  split <;> rfl

section Stores

variable (persisted : Bytes → Store) (tenants : TenantManager.State) {project : Bytes}

theorem getTsdb_isSome (named : project ≠ []) (projectId : Bytes) :
    ((TenantManager.getTsdb persisted tenants projectId).1.tsdbMap project).isSome = true ↔
      projectId = project ∨ (tenants.tsdbMap project).isSome = true := by
  rw [TenantManager.getTsdb_tsdbMap]
  by_cases same : projectId = project
  · simp [same, named]
  · simp [same]

theorem ingestToProject_isSome (named : project ≠ []) (projectId : Bytes) (entry : TsdbEntry) :
    ((TenantManager.ingestToProject persisted tenants projectId entry).tsdbMap
        project).isSome = true ↔
      projectId = project ∨ (tenants.tsdbMap project).isSome = true := by
  rw [TenantManager.ingestToProject_tsdbMap]
  by_cases same : projectId = project
  · simp [same, named]
  · simp [same]

theorem construct_isSome (named : project ≠ []) (projectStore : ProjectStore.State)
    (defaultProjectId : Bytes) :
    ((TenantManager.construct persisted projectStore defaultProjectId).tsdbMap
        project).isSome = true ↔
      (findById projectStore defaultProjectId).isSome = true ∧ defaultProjectId = project := by
  unfold TenantManager.construct
  split
  next =>
    split
    next found =>
      simp only [TenantManager.getOrCreateTsdb_eq, Function.update_apply, found, true_and]
      by_cases same : defaultProjectId = project
      · simp [same]
      · simp [same, Ne.symm same]
    next missing => simp [missing]
  next unnamed =>
    have other : defaultProjectId ≠ project := fun same => named (same ▸ not_not.mp unnamed)
    simp [other]

/-- Of the steps of a handler only the one of a read that is past the check of the ownership asks
for a store. -/
theorem advance_isSome (cfg : Config) (s : ProjectRoutes.State) (request : Request) (phase : Phase)
    (input : Input) {project : Bytes} (named : project ≠ []) :
    ((advance (cfg.server.reading persisted) s request phase input).1.tenantMgr.tsdbMap
        project).isSome = true ↔
      (Handler.project request phase).asks cfg = some project ∨
        (s.tenantMgr.tsdbMap project).isSome = true := by
  have stays (quiet : (Handler.project request phase).asks cfg = none)
      (same : (advance (cfg.server.reading persisted) s request phase input).1.tenantMgr.tsdbMap =
        s.tenantMgr.tsdbMap) :
      ((advance (cfg.server.reading persisted) s request phase input).1.tenantMgr.tsdbMap
          project).isSome = true ↔
        (Handler.project request phase).asks cfg = some project ∨
          (s.tenantMgr.tsdbMap project).isSome = true := by
    rw [quiet, same]
    simp only [reduceCtorEq, false_or]
  cases phase with
  | received => exact stays rfl rfl
  | unexpired claims => exact stays rfl rfl
  | authenticated claims =>
    refine stays rfl ?_
    simp only [advance]
    cases request.route with
    | list => rfl
    | create =>
      simp only [handleProjCreate]
      repeat' split
      all_goals rfl
    | project id action =>
      dsimp only
      split <;> rfl
  | owned claims id action =>
    cases action with
    | delete => exact stays rfl rfl
    | rotate => exact stays rfl rfl
    | rules => exact stays rfl rfl
    | history => exact stays rfl rfl
    | read kind =>
      simp only [advance, ProjectRoutes.operate, openTsdb, Handler.asks, Config.reading]
      by_cases configured : cfg.server.hasTenantMgr = true
      · rw [if_pos configured, Option.some.injEq]
        simpa [configured] using getTsdb_isSome persisted s.tenantMgr named id
      · simp [configured]
  | looking id kind looks =>
    refine stays rfl ?_
    simp only [advance]
    split <;> rfl

end Stores

/-- A store is there when somebody asks for it, and until the process ends. -/
theorem step_asked {s next : State} {label : Label} (step : Step cfg s label next) {id : Bytes}
    (named : id ≠ []) :
    (next.tsdbMap id).isSome = true ↔
      label.asks cfg s = some id ∨ (s.tsdbMap id).isSome = true ∧ ¬label.isRestart := by
  cases step with
  | arrive request => simp [Label.asks, Label.isRestart, State.arrive, State.tsdbMap]
  | arriveIngest apiKey entry => simp [Label.asks, Label.isRestart, State.arrive, State.tsdbMap]
  | @handle thread request phase input load here =>
    simp only [settle_tsdbMap, Label.asks, here, Option.bind_some, Label.isRestart,
      not_false_eq_true, and_true]
    exact advance_isSome _ cfg s.server request phase input named
  | lookUp here => simp [Label.asks, Label.isRestart, State.tsdbMap]
  | @ingested thread projectId entry load here =>
    simp only [Label.asks, here, Option.bind_some, Handler.asks, Label.isRestart,
      not_false_eq_true, and_true, Option.some.injEq]
    exact ingestToProject_isSome _ _ named projectId entry
  | evaluated rule load =>
    simp only [Label.asks, Label.isRestart, not_false_eq_true, and_true, Option.some.injEq]
    exact getTsdb_isSome _ _ named _
  | tapped entry load =>
    simp only [Label.asks, Label.isRestart, not_false_eq_true, and_true, Option.some.injEq]
    exact ingestToProject_isSome _ _ named _ entry
  | @evicted projectId tsdb now present =>
    simp only [Label.asks, Label.isRestart, not_false_eq_true, and_true, reduceCtorEq, false_or]
    by_cases same : id = projectId
    · subst same
      rw [present]
      simp [State.withTenants, State.tsdbMap]
    · simp [State.withTenants, State.tsdbMap, Function.update_of_ne same]
  | saved disk present => simp [Label.asks, Label.isRestart, State.save, State.tsdbMap]
  | elsewhere rest => simp [Label.asks, Label.isRestart, State.withRest, State.tsdbMap]
  | @restarted projectStore rest load loaded =>
    simp only [Label.asks, loaded, Label.isRestart, not_true, and_false, or_false,
      Option.bind_eq_bind, Option.bind_some, Option.map_eq_some_iff]
    refine (construct_isSome _ named projectStore cfg.defaultProjectId).trans ?_
    rw [Option.isSome_iff_exists, exists_and_right]

/-- A file is there when a store is saved over it, and for good. -/
theorem step_written {s next : State} {label : Label} (step : Step cfg s label next)
    (file : Bytes) :
    (next.files file).target.isSome = true ↔
      label.Writes cfg file ∨ (s.files file).target.isSome = true ∧ ¬False := by
  rw [not_false_eq_true, and_true]
  cases step with
  | handle input load here => simp only [settle_files, Label.Writes, false_or]
  | @saved projectId tsdb disk present =>
    simp only [State.save, Label.Writes]
    by_cases same : file = cfg.file projectId
    · subst same
      rw [Function.update_self]
      cases opens : disk.opens <;> cases renames : disk.renames <;>
        simp [writeToDisk, Files.openTmp, Files.writeTmp, Files.rename, opens, renames]
    · simp [Function.update_of_ne same, Ne.symm same]
  | _ => exact iff_of_eq (false_or _).symm

end Steps

/-- Nobody has asked for the project's store since the process started, and no file was there at
the start or has been written since. -/
structure Untouched (start : State) (labels : List Label) (s : State) (projectId : Bytes) :
    Prop where
  unasked : ¬Since (Step cfg) start labels s
    (fun m label => label.asks cfg m = some projectId) Label.isRestart
  notOpen : start.tsdbMap projectId = none ∨ ∃ label ∈ labels, label.isRestart
  unwritten : ∀ label ∈ labels, ¬label.Writes cfg (cfg.file projectId)
  noFile : (start.files (cfg.file projectId)).target = none

variable {cfg} {start s : State} {labels : List Label}

theorem tsdbMap_none_iff (run : Run (Step cfg) start labels s) {id : Bytes} (named : id ≠ []) :
    s.tsdbMap id = none ↔
      ¬Since (Step cfg) start labels s (fun m label => label.asks cfg m = some id)
        Label.isRestart ∧
      (start.tsdbMap id = none ∨ ∃ label ∈ labels, label.isRestart) := by
  rw [← Option.not_isSome_iff_eq_none, run.marked_iff (fun m => (m.tsdbMap id).isSome = true)
    fun _ _ _ step => step_asked step named, not_or, not_and_or, Option.not_isSome_iff_eq_none]
  simp only [not_forall, not_not, exists_prop]

theorem since_writes_iff (run : Run (Step cfg) start labels s) (file : Bytes) :
    Since (Step cfg) start labels s (fun _ label => label.Writes cfg file) (fun _ => False) ↔
      ∃ label ∈ labels, label.Writes cfg file := by
  constructor
  · rintro ⟨before, label, after, middle, rfl, -, -, writes, -⟩
    exact ⟨label, by simp, writes⟩
  · rintro ⟨label, inside, writes⟩
    obtain ⟨before, after, rfl⟩ := List.append_of_mem inside
    obtain ⟨middle, first, second⟩ := run.split
    exact ⟨before, label, after, middle, rfl, first, second, writes, fun _ _ => not_false⟩

theorem target_none_iff (run : Run (Step cfg) start labels s) (file : Bytes) :
    (s.files file).target = none ↔
      (∀ label ∈ labels, ¬label.Writes cfg file) ∧ (start.files file).target = none := by
  rw [← Option.not_isSome_iff_eq_none,
    run.marked_iff (fun m => (m.files file).target.isSome = true) fun _ _ _ step =>
      step_written step file,
    since_writes_iff run]
  simp

theorem gone_iff (run : Run (Step cfg) start labels s) {id : Bytes} (named : id ≠ []) :
    s.Gone cfg id ↔ Untouched cfg start labels s id := by
  rw [State.Gone, tsdbMap_none_iff run named, target_none_iff run]
  constructor
  · rintro ⟨⟨unasked, notOpen⟩, unwritten, noFile⟩
    exact ⟨unasked, notOpen, unwritten, noFile⟩
  · rintro ⟨unasked, notOpen, unwritten, noFile⟩
    exact ⟨⟨unasked, notOpen⟩, unwritten, noFile⟩

/-- Where a deletion has been answered and what was in flight has ended, and in every state after
that, nothing is left of the project exactly if its store was never asked for and its file never
written. -/
theorem deleted_gone_iff (run : Run (Step cfg) start labels s) {id : Bytes} (named : id ≠ []) :
    Settled cfg start labels s id → (s.Gone cfg id ↔ Untouched cfg start labels s id) :=
  fun _ => gone_iff run named

section Requests

def Handler.found : Handler → Option Bytes
  | .project _ (.owned _ id _) => some id
  | .routed projectId _ => some projectId
  | _ => none

def State.Unknown (s : State) (id : Bytes) : Prop :=
  findById s.projectStore id = none ∧
    ∀ key p, findByApiKey s.projectStore key = some p → p.id ≠ id

def State.Quiet (s : State) (id : Bytes) : Prop :=
  ∀ thread handler, s.active thread = some handler → handler.found ≠ some id

theorem State.Quiet.update {id : Bytes} (quiet : s.Quiet id) {next : State} {thread : Nat}
    {handler : Option Handler} (active : next.active = Function.update s.active thread handler)
    (harmless : ∀ found, handler = some found → found.found ≠ some id) : next.Quiet id := by
  intro other there here
  rw [active] at here
  by_cases same : other = thread
  · subst other
    rw [Function.update_self] at here
    exact harmless there here
  · rw [Function.update_of_ne same] at here
    exact quiet other there here

/-- Only the check of the ownership leads a handler to a project, which then is there. -/
theorem advance_owned {server : ProjectRoutes.Config} {s : ProjectRoutes.State} {request : Request}
    {phase : Phase} {input : Input} {claims : JwtClaims} {id : Bytes} {action : Action}
    (going : (advance server s request phase input).2 = .goesOn (.owned claims id action)) :
    (findById s.tenantMgr.projectStore id).isSome = true := by
  cases phase with
  | received =>
    simp only [advance, authBearer] at going
    repeat' split at going
    all_goals cases going
  | unexpired read =>
    simp only [advance, finishAuth] at going
    split at going <;> cases going
  | authenticated read =>
    simp only [advance] at going
    cases route : request.route with
    | list =>
      rw [route] at going
      cases going
    | create =>
      rw [route] at going
      cases going
    | project wanted wantedAction =>
      simp only [route] at going
      split at going
      next => cases going
      next passed =>
        cases going
        obtain ⟨p, found, -⟩ := verifyOwnership_none passed
        rw [found]
        rfl
  | owned read wanted wantedAction =>
    cases wantedAction with
    | read kind =>
      simp only [advance, ProjectRoutes.operate, openTsdb] at going
      repeat' split at going
      all_goals cases going
    | delete => cases going
    | rotate => cases going
    | rules => cases going
    | history => cases going
  | looking wanted kind looks =>
    simp only [advance] at going
    split at going <;> cases going

theorem step_quiet {next : State} {label : Label} (step : Step cfg s label next) {id : Bytes}
    (quiet : s.Quiet id) (unknown : s.Unknown id) : next.Quiet id := by
  cases step with
  | arrive request =>
    refine quiet.update rfl fun found same => ?_
    cases same
    exact (Option.some_ne_none id).symm
  | arriveIngest apiKey entry =>
    refine quiet.update rfl fun found same => ?_
    cases same
    exact (Option.some_ne_none id).symm
  | @handle thread request phase input load here =>
    cases progress : (advance (cfg.server.reading (s.persisted cfg load)) s.server request phase
        input).2 with
    | answers response =>
      refine quiet.update (congrArg State.active (settle_of_answers s thread request progress)) ?_
      exact fun _ same => nomatch same
    | goesOn reached =>
      refine quiet.update (congrArg State.active (settle_of_goesOn s thread request progress)) ?_
      intro handler same found
      cases same
      cases reached with
      | owned claims wanted action =>
        cases found
        have there := advance_owned progress
        have missing : findById s.server.tenantMgr.projectStore id = none := unknown.1
        rw [missing] at there
        cases there
      | _ => cases found
  | @lookUp thread apiKey entry here =>
    refine quiet.update rfl ?_
    intro handler routed found
    obtain ⟨proj, keyed, rfl⟩ := Option.map_eq_some_iff.mp routed
    cases found
    exact unknown.2 apiKey proj keyed rfl
  | ingested load here => exact quiet.update rfl fun _ same => nomatch same
  | restarted rest load loaded => exact fun _ _ here => nomatch here
  | _ => exact quiet

theorem Handler.found_of_asks {handler : Handler} {id : Bytes}
    (asks : handler.asks cfg = some id) : handler.found = some id := by
  unfold Handler.asks at asks
  split at asks
  next =>
    split at asks
    next => exact asks
    next => cases asks
  next => exact asks
  next => cases asks

def Label.ofRequest : Label → Prop
  | .handle _ _ _ | .ingested _ _ => True
  | _ => False

/-- As long as the project is not found, requests that have not found it earlier do not bring its
store back. -/
theorem requests_never_ask (run : Run (Step cfg) start labels s) {id : Bytes}
    (quiet : start.Quiet id)
    (unknown : ∀ label, ¬Took (Step cfg) start labels s label fun _ m => ¬m.Unknown id)
    {label : Label} (request : label.ofRequest) :
    ¬Took (Step cfg) start labels s label fun _ m => label.asks cfg m = some id := by
  rintro ⟨before, after, middle, next, rfl, first, taken, second, asks⟩
  have never (other : Label) :
      ¬Took (Step cfg) start before middle other fun _ m => ¬m.Unknown id :=
    fun took => unknown other (took.trans ((Run.single taken).trans second))
  have still : middle.Quiet id :=
    first.invariant_of_never (State.Quiet · id) quiet
      (fun _ _ _ quiet step known => step_quiet step quiet (not_not.mp known)) never
  have asked (thread : Nat) : (middle.active thread).bind (Handler.asks cfg) ≠ some id := by
    intro same
    obtain ⟨handler, here, asks⟩ := Option.bind_eq_some_iff.mp same
    exact still thread handler here (Handler.found_of_asks asks)
  cases label with
  | handle thread input load => exact asked thread asks
  | ingested thread load => exact asked thread asks
  | _ => exact request

end Requests

theorem handle_goesOn {thread : Nat} {request : Request} {phase reached : Phase}
    (here : s.active thread = some (.project request phase)) (input : Input)
    (load : LoadEnvironment) {server : ProjectRoutes.State}
    (going : advance (cfg.server.reading (s.persisted cfg load)) s.server request phase input =
      (server, .goesOn reached)) :
    ∃ next, Step cfg s (.handle thread input load) next ∧ next.server = server ∧
      next.files = s.files ∧
      next.active = Function.update s.active thread (some (.project request reached)) := by
  have step : Step cfg s (.handle thread input load) _ := Step.handle input load here
  rw [going, settle_of_goesOn s thread request rfl] at step
  exact ⟨_, step, rfl, rfl, rfl⟩

section Deletion

variable {server : ProjectRoutes.Config} {request : Request} {claims : JwtClaims} {input : Input}
  {id : Bytes} {p : Project}

theorem advance_received (current : ProjectRoutes.State) (carries : Carries server request claims)
    (unexpired : ¬claims.exp ≤ input.nowSec) :
    advance server current request .received input = (current, .goesOn (.unexpired claims)) := by
  obtain ⟨jwt, token, built, header, signed⟩ := carries
  have starts : bearer <+: request.authorization := header ▸ List.prefix_append bearer token
  have rest : request.authorization.drop bearer.length = token := by
    rw [header, List.drop_left]
  simp only [advance, authBearer, built, starts, not_true, if_false, rest, signed, unexpired]

theorem advance_unexpired {current : ProjectRoutes.State}
    (accepted : (checkRevocation current.revoked claims input.nowSec).1 = true) :
    advance server current request (.unexpired claims) input =
      ({ current with revoked := (checkRevocation current.revoked claims input.nowSec).2 },
        .goesOn (.authenticated claims)) := by
  simp only [advance, finishAuth, accepted, if_true]

theorem advance_authenticated {current : ProjectRoutes.State} {action : Action}
    (route : request.route = .project id action) (configured : server.hasProjectStore = true)
    (found : findById current.tenantMgr.projectStore id = some p) (own : p.ownerId = claims.sub) :
    advance server current request (.authenticated claims) input =
      (current, .goesOn (.owned claims id action)) := by
  have passed : verifyOwnership server current.tenantMgr.projectStore id claims = none := by
    simp [verifyOwnership, configured, found, own]
  simp only [advance, route, passed]

theorem advance_delete {current : ProjectRoutes.State}
    (deleted : (deleteProject current.tenantMgr.projectStore id claims.sub input.env).2 =
      .returned []) :
    ∃ projectStore response, response.status = 200 ∧
      advance server current request (.owned claims id .delete) input =
        (current.withProjects projectStore, .answers response) := by
  rcases result : deleteProject current.tenantMgr.projectStore id claims.sub input.env with
    ⟨projectStore, outcome⟩
  rw [result] at deleted
  have empty : outcome = .returned [] := deleted
  refine ⟨projectStore, ⟨200, text "\x7b\"message\":\"Project deleted\"\x7d"⟩, rfl, ?_⟩
  simp only [advance, ProjectRoutes.operate, handleProjDelete, result, empty, ne_eq, not_true,
    if_false]

/-- A deletion that goes through leaves the store and every file where they are. -/
theorem deletion_keeps {thread : Nat} (load : LoadEnvironment)
    (here : s.active thread = some (.project request .received))
    (route : request.route = .project id .delete) (carries : Carries cfg.server request claims)
    (unexpired : ¬claims.exp ≤ input.nowSec)
    (accepted : (checkRevocation s.server.revoked claims input.nowSec).1 = true)
    (configured : cfg.server.hasProjectStore = true)
    (found : findById s.projectStore id = some p) (own : p.ownerId = claims.sub)
    (deleted : (deleteProject s.projectStore id claims.sub input.env).2 = .returned []) :
    ∃ next, Run (Step cfg) s (List.replicate 4 (.handle thread input load)) next ∧
      next.Deleted id ∧ next.tsdbMap = s.tsdbMap ∧ next.files = s.files ∧
      next.active = Function.update s.active thread none := by
  obtain ⟨first, one, server₁, files₁, active₁⟩ :=
    handle_goesOn here input load (advance_received s.server carries unexpired)
  have here₁ : first.active thread = some (.project request (.unexpired claims)) := by
    rw [active₁, Function.update_self]
  rw [← server₁] at accepted
  obtain ⟨second, two, server₂, files₂, active₂⟩ :=
    handle_goesOn here₁ input load (advance_unexpired accepted)
  have here₂ : second.active thread = some (.project request (.authenticated claims)) := by
    rw [active₂, Function.update_self]
  have tenants : second.server.tenantMgr = s.server.tenantMgr := by rw [server₂, server₁]
  have found₂ : findById second.server.tenantMgr.projectStore id = some p := by
    rw [tenants]
    exact found
  obtain ⟨third, three, server₃, files₃, active₃⟩ :=
    handle_goesOn here₂ input load (advance_authenticated route configured found₂ own)
  have here₃ : third.active thread = some (.project request (.owned claims id .delete)) := by
    rw [active₃, Function.update_self]
  have deleted₃ : (deleteProject third.server.tenantMgr.projectStore id claims.sub input.env).2 =
      .returned [] := by
    rw [server₃, tenants]
    exact deleted
  obtain ⟨projectStore, response, ok, answered⟩ :=
    @advance_delete (cfg.server.reading (third.persisted cfg load)) request _ _ _ _ deleted₃
  have four : Step cfg third (.handle thread input load) _ := Step.handle input load here₃
  rw [answered, settle_of_answers third thread request rfl] at four
  refine ⟨_, ((((Run.single one).snoc two).snoc three).snoc four), ?_, ?_, ?_, ?_⟩
  · exact ⟨⟨thread, request, response⟩, by simp, route, ok⟩
  · change third.server.tenantMgr.tsdbMap = s.server.tenantMgr.tsdbMap
    rw [server₃, tenants]
  · exact files₃.trans (files₂.trans files₁)
  · change Function.update third.active thread none = _
    rw [active₃, active₂, active₁]
    simp only [Function.update_idem]

end Deletion

section Example

def config : Config where
  server := ⟨some TokenRevocation.userJwt, true, true, fun _ => Store.empty, emptied.dump⟩
  dataDir := text "data"
  defaultProjectId := []
  resolved := id
  parse _ := some (.array [])

def userProjects : ProjectStore.State :=
  (ProjectStore.empty ⟨none, none⟩).push { web with ownerId := text "u3" }

def launched : State where
  server := ⟨⟨userProjects, fun _ => none⟩, UserStore.empty ⟨none, none⟩, fun _ => none, none, none⟩
  files _ := ⟨none, none⟩
  arrived := 0
  active _ := none
  served := []

def load : LoadEnvironment := ⟨fun _ _ => 0, false, 0⟩

/-- The user deletes the project, a second after the token was made. -/
theorem user_deletes {s : State} (projects : s.projectStore = userProjects)
    (tokens : s.server.revoked = fun _ => none) (idle : s.active = fun _ => none) :
    ∃ labels next, Run (Step config) s labels next ∧ next.Deleted (text "p1") ∧
      next.tsdbMap = s.tsdbMap ∧ next.files = s.files ∧ next.active = fun _ => none := by
  obtain ⟨token, made⟩ : ∃ token, createToken TokenRevocation.userJwt
      (fun _ => some TokenRevocation.userPayload) TokenRevocation.userClaims.sub
      TokenRevocation.userClaims.email TokenRevocation.userClaims.iat
      (some TokenRevocation.userDraw) = .returned token := ⟨_, rfl⟩
  have signed : signedClaims TokenRevocation.userJwt token =
      .returned (some TokenRevocation.userClaims) := signedClaims_createToken rfl rfl made
  let request : Request :=
    ⟨.project (text "p1") .delete, bearer ++ token, none, none, none, none⟩
  let input : Input := ⟨1700000001, 0, emptied⟩
  have arrived : Step config s (.arrive request) (s.arrive (.project request .received)) :=
    .arrive request
  have here : (s.arrive (.project request .received)).active s.arrived =
      some (.project request .received) := Function.update_self ..
  have accepted : (checkRevocation (s.arrive (.project request .received)).server.revoked
      TokenRevocation.userClaims input.nowSec).1 = true := by
    change (checkRevocation s.server.revoked _ _).1 = true
    rw [tokens]
    rfl
  have found : findById (s.arrive (.project request .received)).projectStore (text "p1") =
      some { web with ownerId := text "u3" } := by
    change findById s.projectStore _ = _
    rw [projects]
    rfl
  have deleted : (deleteProject (s.arrive (.project request .received)).projectStore (text "p1")
      TokenRevocation.userClaims.sub input.env).2 = .returned [] := by
    change (deleteProject s.projectStore _ _ _).2 = _
    rw [projects]
    rfl
  have carries : Carries config.server request TokenRevocation.userClaims :=
    ⟨_, token, rfl, rfl, signed⟩
  have configured : config.server.hasProjectStore = true := rfl
  obtain ⟨next, run, answered, stores, files, active⟩ :=
    deletion_keeps load here rfl carries (by decide) accepted configured found rfl deleted
  refine ⟨_, next, (Run.single arrived).trans run, answered, stores, files, ?_⟩
  rw [active]
  change Function.update (Function.update s.active s.arrived _) s.arrived none = _
  rw [Function.update_idem, idle, Function.update_eq_self_iff]

theorem user_logs : ∃ labels s, Run (Step config) launched labels s ∧
    s.projectStore = userProjects ∧ s.server.revoked = (fun _ => none) ∧
    s.active = (fun _ => none) ∧ (s.tsdbMap (text "p1")).isSome = true := by
  let entry := TenantManager.line
  have looked := (Run.single (@Step.arriveIngest config launched (text "k1") entry)).snoc
    (@Step.lookUp _ _ 0 (text "k1") entry rfl)
  have ingested := looked.snoc (@Step.ingested _ _ 0 (text "p1") entry load rfl)
  refine ⟨_, _, ingested, ?_, rfl, ?_, ?_⟩
  · exact TenantManager.ingestToProject_projectStore ..
  · change Function.update (Function.update (Function.update (fun _ => none) 0 _) 0 _) 0 none = _
    rw [Function.update_idem, Function.update_idem, Function.update_eq_self_iff]
  · have named : text "p1" ≠ [] := by decide
    simp only [State.tsdbMap, State.withTenants, ingestToProject_isSome _ _ named, true_or]

/-- A project with a log is deleted, and its store is stopped after that. -/
theorem logs_stay : ∃ labels s, Run (Step config) launched labels s ∧
    Settled config launched labels s (text "p1") ∧ ¬s.Gone config (text "p1") ∧
    (s.tsdbMap (text "p1")).isSome = true ∧
    (s.files (config.file (text "p1"))).target.isSome = true := by
  obtain ⟨early, logged, run, projects, tokens, idle, asked⟩ := user_logs
  obtain ⟨late, deleted, rest, answered, stores, -, active⟩ := user_deletes projects tokens idle
  rw [← stores] at asked
  obtain ⟨tsdb, present⟩ := Option.isSome_iff_exists.mp asked
  have saved := @Step.saved config deleted (text "p1") tsdb (.sound 100) present
  have written := (step_written saved (config.file (text "p1"))).mpr (.inl ⟨rfl, rfl, rfl⟩)
  have still : ((deleted.save config (text "p1") tsdb (.sound 100)).tsdbMap
      (text "p1")).isSome = true := asked
  refine ⟨_, _, (run.trans rest).snoc saved, ?_, fun gone => ?_, still, written⟩
  · refine ⟨_, _, deleted, rfl, run.trans rest, Run.single saved, answered, fun thread busy => ?_⟩
    rw [active] at busy
    cases busy
  · rw [gone.1] at still
    cases still

theorem deleted_gone_iff_unused : ∃ labels s, Run (Step config) launched labels s ∧
    Settled config launched labels s (text "p1") ∧ s.Gone config (text "p1") ∧
    Untouched config launched labels s (text "p1") := by
  obtain ⟨labels, deleted, run, answered, stores, files, active⟩ :=
    @user_deletes launched rfl rfl rfl
  have gone : deleted.Gone config (text "p1") := by
    rw [State.Gone, stores, files]
    exact ⟨rfl, rfl⟩
  have settled : Settled config launched labels deleted (text "p1") := by
    refine ⟨labels, [], deleted, (List.append_nil _).symm, run, Run.refl, answered, ?_⟩
    intro thread busy
    rw [active] at busy
    cases busy
  exact ⟨labels, deleted, run, settled, gone, (deleted_gone_iff run (by decide) settled).mp gone⟩

end Example

end LogMonitor.ProjectDeletion
