import LogMonitor.ProjectMapDraws
import LogMonitor.Server
import LogMonitor.TsdbEviction

/-!
The tenant manager: one time-series store for each project, created when it is
first asked for, and the routing of a log by the key it carries. Against the map
of projects, every store receives what was sent with the current key of its
project and what was handed to it directly.
-/

namespace LogMonitor.TenantManager
open Library Library.ByteString Library.Transition ProjectStore Tsdb

structure State where
  projectStore : ProjectStore.State
  tsdbMap : Bytes → Option Tsdb.Store

variable (persisted : Bytes → Tsdb.Store)

/-- The store of a project; one that is not there is created and reads its file. -/
def getOrCreateTsdb (s : State) (projectId : Bytes) : State × Tsdb.Store :=
  match s.tsdbMap projectId with
  | some tsdb => (s, tsdb)
  | none =>
    let tsdb := persisted projectId
    ({ s with tsdbMap := Function.update s.tsdbMap projectId (some tsdb) }, tsdb)

/-- The constructor gets the default project's store ready, if that is a project. -/
def construct (projectStore : ProjectStore.State) (defaultProjectId : Bytes) : State :=
  let s : State := ⟨projectStore, fun _ => none⟩
  if defaultProjectId ≠ [] then
    if (findById projectStore defaultProjectId).isSome then
      (getOrCreateTsdb persisted s defaultProjectId).1
    else s
  else s

def ingestToProject (s : State) (projectId : Bytes) (entry : TsdbEntry) : State :=
  if projectId = [] then s
  else
    let (s, tsdb) := getOrCreateTsdb persisted s projectId
    { s with tsdbMap := Function.update s.tsdbMap projectId (some (tsdb.insert entry)) }

def routeIngest (s : State) (apiKey : Bytes) (entry : TsdbEntry) : State × Bool :=
  match findByApiKey s.projectStore apiKey with
  | none => (s, false)
  | some proj => (ingestToProject persisted s proj.id entry, true)

/-- `none` is the source's `nullptr`. -/
def getTsdb (s : State) (projectId : Bytes) : State × Option Tsdb.Store :=
  if projectId = [] then (s, none)
  else
    let (s, tsdb) := getOrCreateTsdb persisted s projectId
    (s, some tsdb)

inductive Label where
  /-- `create_project`, `delete_project` or `rotate_api_key`. -/
  | account (event : Event)
  | routeIngest (apiKey : Bytes) (entry : TsdbEntry) (accepted : Bool)
  | ingestToProject (projectId : Bytes) (entry : TsdbEntry)
  | getTsdb (projectId : Bytes)
  /-- The store of a project evicts what is old. -/
  | evict (projectId : Bytes) (now : Int)

inductive Step : State → Label → State → Prop
  | account {s : State} {event : Event} {next : ProjectStore.State}
      (step : ProjectStore.Step s.projectStore event next) :
      Step s (.account event) { s with projectStore := next }
  | routeIngest (s : State) (apiKey : Bytes) (entry : TsdbEntry) :
      Step s (.routeIngest apiKey entry (routeIngest persisted s apiKey entry).2)
        (routeIngest persisted s apiKey entry).1
  | ingestToProject (s : State) (projectId : Bytes) (entry : TsdbEntry) :
      Step s (.ingestToProject projectId entry) (ingestToProject persisted s projectId entry)
  | getTsdb (s : State) (projectId : Bytes) :
      Step s (.getTsdb projectId) (getTsdb persisted s projectId).1
  | evict {s : State} {projectId : Bytes} {tsdb : Tsdb.Store} (now : Int)
      (present : s.tsdbMap projectId = some tsdb) :
      Step s (.evict projectId now)
        { s with tsdbMap := Function.update s.tsdbMap projectId (some (tsdb.evictOldEntries now)) }

def accountEvents : List Label → List Event
  | [] => []
  | .account event :: rest => event :: accountEvents rest
  | _ :: rest => accountEvents rest

/-- What a call hands to a project, given the map of projects it meets. -/
def Label.passes (m : ProjectMap) (project : Bytes) : Label → List TsdbEntry
  | .routeIngest apiKey entry _ => if m.currentKey project = some apiKey then [entry] else []
  | .ingestToProject projectId entry => if projectId = project then [entry] else []
  | _ => []

/-- What a history hands to a project: directly, or with the key that is current then. -/
def passedTo (project : Bytes) : ProjectMap → List Label → List TsdbEntry
  | _, [] => []
  | m, label :: rest =>
    label.passes m project ++ passedTo project (m.follow (accountEvents [label])) rest

def Label.Concerns (m : ProjectMap) (project : Bytes) : Label → Prop
  | .account _ => False
  | .routeIngest apiKey _ _ => m.currentKey project = some apiKey
  | .ingestToProject projectId _ => projectId = project
  | .getTsdb projectId => projectId = project
  | .evict projectId _ => projectId = project

theorem accountEvents_append (first second : List Label) :
    accountEvents (first ++ second) = accountEvents first ++ accountEvents second := by
  induction first with
  | nil => rfl
  | cons label first ih =>
    cases label with
    | account event => exact congrArg (event :: ·) ih
    | routeIngest apiKey entry accepted => exact ih
    | ingestToProject projectId entry => exact ih
    | getTsdb projectId => exact ih
    | evict projectId now => exact ih

theorem follow_append (m : ProjectMap) (first second : List Event) :
    m.follow (first ++ second) = (m.follow first).follow second :=
  List.foldl_append

theorem passedTo_append (project : Bytes) (m : ProjectMap) (first second : List Label) :
    passedTo project m (first ++ second) =
      passedTo project m first ++ passedTo project (m.follow (accountEvents first)) second := by
  induction first generalizing m with
  | nil => rfl
  | cons label first ih =>
    have events : accountEvents (label :: first) = accountEvents [label] ++ accountEvents first :=
      accountEvents_append [label] first
    rw [List.cons_append, passedTo, passedTo, ih, List.append_assoc, events, follow_append]

/-- The map after a store was entered, which is never done for the project without an id. -/
theorem update_if_named (map : Bytes → Option Tsdb.Store) (tsdb : Bytes → Tsdb.Store)
    (projectId project : Bytes) :
    (if projectId = [] then map else Function.update map projectId (some (tsdb projectId))) project =
      if projectId = project ∧ project ≠ [] then some (tsdb project) else map project := by
  by_cases unnamed : projectId = []
  · rw [if_pos unnamed, if_neg]
    rintro ⟨rfl, named⟩
    exact named unnamed
  · rw [if_neg unnamed]
    by_cases same : projectId = project
    · subst project
      rw [Function.update_self, if_pos ⟨rfl, unnamed⟩]
    · rw [Function.update_of_ne (Ne.symm same), if_neg fun both => same both.1]

section Effects

variable (s : State) (project : Bytes)

theorem getOrCreateTsdb_eq (projectId : Bytes) :
    getOrCreateTsdb persisted s projectId =
      let tsdb := (s.tsdbMap projectId).getD (persisted projectId)
      ({ s with tsdbMap := Function.update s.tsdbMap projectId (some tsdb) }, tsdb) := by
  unfold getOrCreateTsdb
  cases present : s.tsdbMap projectId with
  | none => rfl
  | some tsdb =>
    have same : Function.update s.tsdbMap projectId (some tsdb) = s.tsdbMap := by
      rw [← present, Function.update_eq_self]
    simp only [Option.getD_some, same]

theorem ingestToProject_tsdbMap (projectId : Bytes) (entry : TsdbEntry) :
    (ingestToProject persisted s projectId entry).tsdbMap project =
      if projectId = project ∧ project ≠ [] then
        some (((s.tsdbMap project).getD (persisted project)).insert entry)
      else s.tsdbMap project := by
  rw [← update_if_named s.tsdbMap fun id => ((s.tsdbMap id).getD (persisted id)).insert entry]
  unfold ingestToProject
  split
  next => rfl
  next => simp only [getOrCreateTsdb_eq, Function.update_idem]

theorem getTsdb_tsdbMap (projectId : Bytes) :
    (getTsdb persisted s projectId).1.tsdbMap project =
      if projectId = project ∧ project ≠ [] then
        some ((s.tsdbMap project).getD (persisted project))
      else s.tsdbMap project := by
  rw [← update_if_named s.tsdbMap fun id => (s.tsdbMap id).getD (persisted id)]
  unfold getTsdb
  split
  next => rfl
  next => rw [getOrCreateTsdb_eq]

theorem ingestToProject_projectStore (projectId : Bytes) (entry : TsdbEntry) :
    (ingestToProject persisted s projectId entry).projectStore = s.projectStore := by
  unfold ingestToProject
  split
  next => rfl
  next => rw [getOrCreateTsdb_eq]

theorem getTsdb_projectStore (projectId : Bytes) :
    (getTsdb persisted s projectId).1.projectStore = s.projectStore := by
  unfold getTsdb
  split
  next => rfl
  next => rw [getOrCreateTsdb_eq]

theorem routeIngest_projectStore (apiKey : Bytes) (entry : TsdbEntry) :
    (routeIngest persisted s apiKey entry).1.projectStore = s.projectStore := by
  unfold routeIngest
  split
  next => rfl
  next proj _ => exact ingestToProject_projectStore persisted s proj.id entry

end Effects

/-- The server's insertion is this one, on the server's stores. -/
theorem server_ingestToProject (cfg : Server.Config) (s : Server.State) (projectId : Bytes)
    (entry : TsdbEntry) (origin : Option Bytes) :
    (Server.ingestToProject cfg s projectId entry origin).tsdbMap =
      (ingestToProject cfg.persisted ⟨cfg.projects, s.tsdbMap⟩ projectId entry).tsdbMap := by
  funext project
  rw [ingestToProject_tsdbMap,
    ← update_if_named s.tsdbMap fun id => ((s.tsdbMap id).getD (cfg.persisted id)).insert entry]
  unfold Server.ingestToProject
  split <;> rfl

/-- The key that the server accepts is the key that is routed here. -/
theorem server_routeIngest (cfg : Server.Config) (s : Server.State) (apiKey : Bytes)
    (entry : TsdbEntry) :
    ((Server.routeIngest cfg s apiKey entry).1.tsdbMap,
        (Server.routeIngest cfg s apiKey entry).2.isSome) =
      ((routeIngest cfg.persisted ⟨cfg.projects, s.tsdbMap⟩ apiKey entry).1.tsdbMap,
        (routeIngest cfg.persisted ⟨cfg.projects, s.tsdbMap⟩ apiKey entry).2) := by
  unfold Server.routeIngest routeIngest
  cases findByApiKey cfg.projects apiKey with
  | none => rfl
  | some proj => exact congrArg (·, true) (server_ingestToProject cfg s proj.id entry (some proj.id))

theorem currentKey_eq_some_iff {m : ProjectMap} {project key : Bytes} :
    m.currentKey project = some key ↔ ∃ p ∈ m.items, p.id = project ∧ p.apiKey = key := by
  simp only [ProjectMap.currentKey, Option.map_eq_some_iff, OrderedMap.get_eq_some_iff, and_assoc]

/-- A key that is current leads to its project, and every other key nowhere. -/
theorem routeIngest_cases {s : State} {m : ProjectMap} (related : Simulates s.projectStore m)
    (apiKey : Bytes) (entry : TsdbEntry) :
    ((∀ project, m.currentKey project ≠ some apiKey) ∧
      routeIngest persisted s apiKey entry = (s, false)) ∨
    ∃ projectId, projectId ≠ [] ∧
      (∀ project, m.currentKey project = some apiKey ↔ projectId = project) ∧
      routeIngest persisted s apiKey entry = (ingestToProject persisted s projectId entry, true) := by
  have agrees := related.agrees
  unfold routeIngest
  cases found : findByApiKey s.projectStore apiKey with
  | none =>
    refine .inl ⟨fun project current => ?_, rfl⟩
    obtain ⟨p, inside, _, keyed⟩ := currentKey_eq_some_iff.mp current
    exact (resolves_iff agrees apiKey).mp found p inside keyed
  | some proj =>
    obtain ⟨inside, keyed⟩ := (agrees.byApiKey apiKey proj).mp found
    refine .inr ⟨proj.id, ?_, fun project => ?_, rfl⟩
    · simpa [Project.live] using (related.mem_items.mp inside).2
    · rw [currentKey_eq_some_iff]
      constructor
      · rintro ⟨q, there, rfl, same⟩
        have again := (agrees.byApiKey apiKey q).mpr ⟨there, same⟩
        rw [found, Option.some.injEq] at again
        rw [again]
      · rintro rfl
        exact ⟨proj, inside, rfl, keyed⟩

theorem run_projectStore {s t : State} {labels : List Label} (run : Run (Step persisted) s labels t) :
    Run ProjectStore.Step s.projectStore (accountEvents labels) t.projectStore := by
  apply Run.invariant
    (fun labels t => Run ProjectStore.Step s.projectStore (accountEvents labels) t.projectStore)
    Run.refl _ run
  intro labels current label next _ earlier step
  rw [accountEvents_append]
  cases step with
  | account step => exact earlier.snoc step
  | routeIngest apiKey entry =>
    rw [routeIngest_projectStore]
    simpa only [accountEvents, List.append_nil] using earlier
  | ingestToProject projectId entry =>
    rw [ingestToProject_projectStore]
    simpa only [accountEvents, List.append_nil] using earlier
  | getTsdb projectId =>
    rw [getTsdb_projectStore]
    simpa only [accountEvents, List.append_nil] using earlier
  | evict now present => simpa only [accountEvents, List.append_nil] using earlier

theorem ingestToProject_passes (s : State) (projectId : Bytes) (entry : TsdbEntry) {project : Bytes}
    (named : project ≠ []) :
    let t := ingestToProject persisted s projectId entry
    (¬projectId = project → t.tsdbMap project = s.tsdbMap project) ∧
      ∀ entries, Rebuilds (persisted project) entries (s.tsdbMap project) →
        Rebuilds (persisted project) (entries ++ if projectId = project then [entry] else [])
          (t.tsdbMap project) := by
  simp only [ingestToProject_tsdbMap]
  by_cases mine : projectId = project
  · refine ⟨fun other => absurd mine other, fun entries rebuilds => ?_⟩
    rw [if_pos mine, if_pos ⟨mine, named⟩]
    exact rebuilds.insert entry
  · refine ⟨fun _ => if_neg fun both => mine both.1, fun entries rebuilds => ?_⟩
    rwa [if_neg mine, if_neg fun both => mine both.1, List.append_nil]

theorem step_tsdbMap {s t : State} {label : Label} {m : ProjectMap}
    (related : Simulates s.projectStore m) (step : Step persisted s label t) {project : Bytes}
    (named : project ≠ []) :
    (¬label.Concerns m project → t.tsdbMap project = s.tsdbMap project) ∧
      ∀ entries, Rebuilds (persisted project) entries (s.tsdbMap project) →
        Rebuilds (persisted project) (entries ++ label.passes m project) (t.tsdbMap project) := by
  cases step with
  | @account event next step =>
    refine ⟨fun _ => rfl, fun entries rebuilds => ?_⟩
    have nothing : Label.passes m project (.account event) = [] := rfl
    rwa [nothing, List.append_nil]
  | routeIngest apiKey entry =>
    rcases routeIngest_cases persisted related apiKey entry with
      ⟨nobody, refused⟩ | ⟨projectId, _, current, routed⟩
    · rw [refused]
      refine ⟨fun _ => rfl, fun entries rebuilds => ?_⟩
      rwa [Label.passes, if_neg (nobody project), List.append_nil]
    · rw [routed]
      simp only [Label.Concerns, Label.passes, current]
      exact ingestToProject_passes persisted s projectId entry named
  | ingestToProject projectId entry =>
    simp only [Label.Concerns, Label.passes]
    exact ingestToProject_passes persisted s projectId entry named
  | getTsdb projectId =>
    simp only [Label.Concerns, Label.passes, getTsdb_tsdbMap, List.append_nil]
    by_cases mine : projectId = project
    · refine ⟨fun other => absurd mine other, fun entries rebuilds => ?_⟩
      rw [if_pos ⟨mine, named⟩]
      exact rebuilds.create
    · refine ⟨fun _ => if_neg fun both => mine both.1, fun entries rebuilds => ?_⟩
      rwa [if_neg fun both => mine both.1]
  | @evict projectId tsdb now present =>
    simp only [Label.Concerns, Label.passes, List.append_nil]
    by_cases mine : projectId = project
    · subst project
      rw [Function.update_self]
      refine ⟨fun other => absurd rfl other, fun entries rebuilds => ?_⟩
      rw [present] at rebuilds
      exact rebuilds.evict now
    · rw [Function.update_of_ne (Ne.symm mine)]
      exact ⟨fun _ => rfl, fun entries rebuilds => rebuilds⟩

theorem construct_tsdbMap (projectStore : ProjectStore.State) (defaultProjectId project : Bytes) :
    Rebuilds (persisted project) []
      ((construct persisted projectStore defaultProjectId).tsdbMap project) := by
  unfold construct
  split
  next =>
    split
    next =>
      simp only [getOrCreateTsdb_eq]
      by_cases same : project = defaultProjectId
      · subst project
        simp only [Function.update_self]
        exact ⟨[], rfl, rfl⟩
      · simp only [Function.update_of_ne same]
        rfl
    next => rfl
  next => rfl

theorem construct_projectStore (projectStore : ProjectStore.State) (defaultProjectId : Bytes) :
    (construct persisted projectStore defaultProjectId).projectStore = projectStore := by
  unfold construct
  split
  next =>
    split
    next => simp only [getOrCreateTsdb_eq]
    next => rfl
  next => rfl

/-- The project store of a run simulates the map that its account calls lead to. -/
theorem run_simulates_map {projectStore : ProjectStore.State} {defaultProjectId : Bytes}
    {m : ProjectMap} (related : Simulates projectStore m) {labels : List Label} {s : State}
    (run : Run (Step persisted) (construct persisted projectStore defaultProjectId) labels s)
    (fresh : AlwaysNew m (accountEvents labels)) :
    Simulates s.projectStore (m.follow (accountEvents labels)) := by
  have projected := run_projectStore persisted run
  rw [construct_projectStore] at projected
  exact (run_simulates_saving related projected fresh).1

theorem run_rebuilds {projectStore : ProjectStore.State} {defaultProjectId : Bytes} {m : ProjectMap}
    (related : Simulates projectStore m) {labels : List Label} {s : State}
    (run : Run (Step persisted) (construct persisted projectStore defaultProjectId) labels s)
    (fresh : AlwaysNew m (accountEvents labels)) {project : Bytes} (named : project ≠ []) :
    Rebuilds (persisted project) (passedTo project m labels) (s.tsdbMap project) := by
  revert fresh
  apply Run.invariant (fun labels s => AlwaysNew m (accountEvents labels) →
    Rebuilds (persisted project) (passedTo project m labels) (s.tsdbMap project)) _ _ run
  · intro _
    exact construct_tsdbMap persisted projectStore defaultProjectId project
  · intro labels current label next earlier ih step fresh
    rw [accountEvents_append] at fresh
    have now := run_simulates_map persisted related earlier fresh.left
    have last : passedTo project (m.follow (accountEvents labels)) [label] =
        label.passes (m.follow (accountEvents labels)) project := List.append_nil _
    rw [passedTo_append, last]
    exact (step_tsdbMap persisted now step named).2 _ (ih fresh.left)

/-- Whatever calls are made, with saves that may fail: the store of every project has received
what was handed to it and what came with the key that was current then, in order; `route_ingest`
says `true` for the current keys and touches nothing for the others; and no operation changes the
store of a project that it does not concern. -/
theorem run_routes {parsed : Option Json} {files : Files} {projectStore : ProjectStore.State}
    (loaded : load parsed files = .ok projectStore)
    (ownId : (projectStore.projects.map Project.id).Nodup)
    (ownKey : (projectStore.projects.map Project.apiKey).Nodup) {defaultProjectId : Bytes}
    {labels : List Label} {s : State}
    (run : Run (Step persisted) (construct persisted projectStore defaultProjectId) labels s)
    (fresh : AlwaysNew ⟨projectStore.projects, ownId⟩ (accountEvents labels)) :
    let loadedMap : ProjectMap := ⟨projectStore.projects, ownId⟩
    (∀ project, project ≠ [] → Rebuilds (persisted project) (passedTo project loadedMap labels)
        (s.tsdbMap project)) ∧
      ∀ before label after first second, labels = before ++ label :: after →
        Run (Step persisted) (construct persisted projectStore defaultProjectId) before first →
        Step persisted first label second →
        let m := loadedMap.follow (accountEvents before)
        (∀ apiKey entry accepted, label = .routeIngest apiKey entry accepted →
          (accepted = true ↔ ∃ project, m.currentKey project = some apiKey) ∧
            (accepted = false → second = first)) ∧
        ∀ project, project ≠ [] → ¬label.Concerns m project →
          second.tsdbMap project = first.tsdbMap project := by
  intro loadedMap
  have related : Simulates projectStore loadedMap := load_simulates loaded ownId ownKey
  refine ⟨fun project named => run_rebuilds persisted related run fresh named, ?_⟩
  intro before label after first second shape earlier step m
  rw [shape, accountEvents_append] at fresh
  have now : Simulates first.projectStore m := run_simulates_map persisted related earlier fresh.left
  refine ⟨fun apiKey entry accepted same => ?_, fun project named other =>
    (step_tsdbMap persisted now step named).1 other⟩
  subst same
  cases step with
  | routeIngest =>
    rcases routeIngest_cases persisted now apiKey entry with
      ⟨nobody, refused⟩ | ⟨projectId, _, current, routed⟩
    · rw [refused]
      simp [nobody]
    · rw [routed]
      simp only [true_iff, reduceCtorEq, false_implies, and_true]
      exact ⟨projectId, (current projectId).mpr rfl⟩

def failedRotation : Event where
  call := .rotate (text "p1") (text "alice")
  env := ⟨some (Vector.replicate 8 0), some (Vector.replicate 16 0), 0, .sound 0, fun _ => none⟩
  outcome := .threw

def line : TsdbEntry := ⟨text "web", text "ERROR", text "down", 5⟩

theorem run_routes_rotation :
    ∃ s, Rebuilds Tsdb.Store.empty [line] (s.tsdbMap (text "p1")) ∧
      Run (Step fun _ => Tsdb.Store.empty) (construct (fun _ => Tsdb.Store.empty) webStore [])
        [.routeIngest (text "k1") line true, .account failedRotation,
          .routeIngest (text "k1") line false] s := by
  have first := @Step.routeIngest (fun _ => Tsdb.Store.empty)
    (construct (fun _ => Tsdb.Store.empty) webStore []) (text "k1") line
  have rotate : ProjectStore.Step webStore failedRotation
      (perform webStore failedRotation.call failedRotation.env).1 := rfl
  have run := ((Run.single first).snoc (.account rotate)).snoc
    (@Step.routeIngest (fun _ => Tsdb.Store.empty) _ (text "k1") line)
  refine ⟨_, ?_, run⟩
  have fresh : AlwaysNew ⟨[web], List.nodup_singleton _⟩ [failedRotation] := by
    constructor
    · intro event inside
      rw [List.mem_singleton.mp inside]
      exact ⟨rfl, rfl⟩
    · exact List.nodup_singleton _
    · intro value inside p member
      rw [List.mem_singleton.mp inside, List.mem_singleton.mp member]
      decide
  exact (run_routes (fun _ => Tsdb.Store.empty) load_web (List.nodup_singleton _)
    (List.nodup_singleton _) run fresh).1 (text "p1") (by decide)

end LogMonitor.TenantManager
