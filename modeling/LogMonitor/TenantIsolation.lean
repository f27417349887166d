import LogMonitor.ProjectStoreRun
import LogMonitor.Server
import LogMonitor.TsdbRestart

/-!
Where a message can get to. A handler stores it under the project of its key;
the tap stores it under the default project, whatever its key was.
-/

namespace LogMonitor.Server
open Library Library.ByteString Library.Transition ProjectStore Tsdb

def IsProject (cfg : Config) (id : Bytes) : Prop :=
  ∃ p ∈ cfg.projects.projects, p.live ∧ p.id = id

def OwnsKey (cfg : Config) (id : Bytes) : Prop :=
  ∃ key p, key ≠ [] ∧ findByApiKey cfg.projects key = some p ∧ p.id = id

def Leaked (cfg : Config) (insertion : Insertion) : Prop :=
  ∃ a, insertion.origin = some a ∧ insertion.project ≠ a ∧ IsProject cfg insertion.project

def Isolated (cfg : Config) (s : State) : Prop :=
  ∀ insertion ∈ s.inserted, ¬Leaked cfg insertion

/-- The default project is none, or it is the only one whose key can be used. -/
def DefaultAlone (cfg : Config) : Prop :=
  IsProject cfg cfg.defaultProjectId → ∀ id, OwnsKey cfg id → id = cfg.defaultProjectId

section Fields
variable (cfg : Config) (s : State) (projectId : Bytes) (entry : TsdbEntry)
  (origin : Option Bytes)

@[simp] theorem ingestToProject_routed :
    (ingestToProject cfg s projectId entry origin).routed = s.routed := by
  unfold ingestToProject
  split <;> rfl

@[simp] theorem ingestToProject_ring :
    (ingestToProject cfg s projectId entry origin).ring = s.ring := by
  unfold ingestToProject
  split <;> rfl

@[simp] theorem ingestToProject_tasks :
    (ingestToProject cfg s projectId entry origin).tasks = s.tasks := by
  unfold ingestToProject
  split <;> rfl

@[simp] theorem ingestToProject_running :
    (ingestToProject cfg s projectId entry origin).running = s.running := by
  unfold ingestToProject
  split <;> rfl

theorem mem_ingestToProject {insertion : Insertion}
    (inside : insertion ∈ (ingestToProject cfg s projectId entry origin).inserted) :
    insertion ∈ s.inserted ∨ insertion = ⟨projectId, entry, origin⟩ := by
  unfold ingestToProject at inside
  split at inside
  · exact .inl inside
  · exact (List.mem_append.mp inside).imp_right List.mem_singleton.mp

end Fields

/-- What a request asks to have stored: the client's texts, and its timestamp or the clock. -/
def Request.entry (request : Request) (clocks : Clocks) : Option TsdbEntry := do
  let body ← request.body
  let (app, level, message, tsClient) ← (readFields body).toOption
  return ⟨app, level, message, if 0 < tsClient then tsClient * 1000000000 else clocks.systemNs⟩

/-- A request is refused with only its bucket changed, or its message is stored as it was
sent, under the project of its key. -/
theorem handleIngest_outcome (cfg : Config) (s : State) (request : Request) (clocks : Clocks) :
    ((handleIngest cfg s request clocks).2 ≠ .routed ∧
      ∃ buckets, (handleIngest cfg s request clocks).1 = { s with rateBuckets := buckets }) ∨
    (handleIngest cfg s request clocks).2 = .routed ∧
      ∃ buckets p entry, request.apiKey ≠ [] ∧ request.entry clocks = some entry ∧
        findByApiKey cfg.projects request.apiKey = some p ∧
        (handleIngest cfg s request clocks).1 =
          { ingestToProject cfg { s with rateBuckets := buckets } p.id entry (some p.id) with
            routed := s.routed ++
              [⟨pipelineEntry entry.appName entry.message clocks, some p.id⟩] } := by
  have unchanged : ∃ buckets, s = { s with rateBuckets := buckets } := ⟨s.rateBuckets, rfl⟩
  unfold handleIngest
  cases parsed : request.body with
  | none => exact .inl ⟨nofun, unchanged⟩
  | some body =>
    simp only
    split
    · exact .inl ⟨nofun, unchanged⟩
    cases read : readFields body with
    | error error => exact .inl ⟨nofun, unchanged⟩
    | ok fields =>
      obtain ⟨app, level, message, tsClient⟩ := fields
      have sent : request.entry clocks = some ⟨app, level, message,
          if 0 < tsClient then tsClient * 1000000000 else clocks.systemNs⟩ := by
        simp [Request.entry, parsed, read, Except.toOption]
      simp only
      by_cases unkeyed : request.apiKey = []
      · simp only [if_pos unkeyed]
        exact .inl ⟨nofun, unchanged⟩
      simp only [if_neg unkeyed]
      split
      · exact .inl ⟨nofun, _, rfl⟩
      cases found : findByApiKey cfg.projects request.apiKey with
      | none =>
        simp only [routeIngest, found]
        exact .inl ⟨nofun, _, rfl⟩
      | some p =>
        simp only [routeIngest, found, ingestToProject_routed]
        exact .inr ⟨trivial, _, p, _, unkeyed, sent, rfl, rfl⟩

/-- A request is answered with only its bucket changed, or its message is stored under the
project of its key and goes on with that project's mark. -/
theorem handleIngest_cases (cfg : Config) (s : State) (request : Request) (clocks : Clocks) :
    (∃ buckets, (handleIngest cfg s request clocks).1 = { s with rateBuckets := buckets }) ∨
    ∃ buckets p entry line, request.apiKey ≠ [] ∧
      findByApiKey cfg.projects request.apiKey = some p ∧
      (handleIngest cfg s request clocks).1 =
        { ingestToProject cfg { s with rateBuckets := buckets } p.id entry (some p.id) with
          routed := s.routed ++ [⟨line, some p.id⟩] } := by
  rcases handleIngest_outcome cfg s request clocks with
    ⟨_, refused⟩ | ⟨_, buckets, p, entry, keyed, _, found, stored⟩
  · exact .inl refused
  · exact .inr ⟨buckets, p, entry, _, keyed, found, stored⟩

/-- The mark of an entry is a project whose key a request carried. -/
def Marked (cfg : Config) (origin : Option Bytes) : Prop :=
  ∀ a, origin = some a → OwnsKey cfg a

def State.onTheWay (s : State) : List Tagged := s.routed ++ s.ring ++ s.tasks ++ s.running

/-- What is on its way is marked, and a marked message is inserted under its project or under
the default project. -/
structure Traced (cfg : Config) (s : State) : Prop where
  onTheWay : ∀ tagged ∈ s.onTheWay, Marked cfg tagged.origin
  inserted : ∀ insertion ∈ s.inserted, ∀ a, insertion.origin = some a →
    OwnsKey cfg a ∧ (insertion.project = a ∨ insertion.project = cfg.defaultProjectId)

theorem mem_onTheWay {s : State} {tagged : Tagged} : tagged ∈ s.onTheWay ↔
    tagged ∈ s.routed ∨ tagged ∈ s.ring ∨ tagged ∈ s.tasks ∨ tagged ∈ s.running := by
  simp only [State.onTheWay, List.mem_append, or_assoc]

theorem mem_push {s : State} {new tagged : Tagged} {accepted : Bool}
    (inside : tagged ∈ (s.push new accepted).onTheWay) : tagged ∈ s.onTheWay ∨ tagged = new := by
  cases accepted with
  | false => exact .inl inside
  | true =>
    rw [mem_onTheWay] at inside ⊢
    simp only [State.push, if_true, List.mem_append, List.mem_singleton] at inside
    tauto

theorem push_inserted (s : State) (new : Tagged) (accepted : Bool) :
    (s.push new accepted).inserted = s.inserted := by
  cases accepted <;> rfl

inductive Arrives (cfg : Config) : Label → Tagged → Prop
  | ingest {request : Request} {clocks : Clocks} {p : Project} {entry : TsdbEntry}
      (keyed : request.apiKey ≠ []) (found : findByApiKey cfg.projects request.apiKey = some p)
      (sent : request.entry clocks = some entry) :
      Arrives cfg (.ingest request clocks)
        ⟨pipelineEntry entry.appName entry.message clocks, some p.id⟩
  | source (entry : LogEntry) (accepted : Bool) : Arrives cfg (.source entry accepted) ⟨entry, none⟩

def tapped (cfg : Config) (tagged : Tagged) (nowNs : Int64) : TsdbEntry where
  appName := if tagged.entry.serviceName = [] then tagged.entry.source else tagged.entry.serviceName
  level := ((cfg.matchRule tagged.entry.line).map Severity.toText).getD (text "INFO")
  message := tagged.entry.line
  timestampNs := nowNs

inductive Inserts (cfg : Config) (s : State) : Label → Insertion → Prop
  | ingest {request : Request} {clocks : Clocks} {p : Project} {entry : TsdbEntry}
      (keyed : request.apiKey ≠ []) (found : findByApiKey cfg.projects request.apiKey = some p)
      (sent : request.entry clocks = some entry) :
      Inserts cfg s (.ingest request clocks) ⟨p.id, entry, some p.id⟩
  | finish {index : Nat} {tagged : Tagged} (nowNs : Int64) (chosen : s.running[index]? = some tagged) :
      Inserts cfg s (.finish index nowNs)
        ⟨cfg.defaultProjectId, tapped cfg tagged nowNs, tagged.origin⟩

theorem processEntry_queues (cfg : Config) (s : State) (tagged : Tagged) (nowNs : Int64) :
    (processEntry cfg s tagged nowNs).routed = s.routed ∧
      (processEntry cfg s tagged nowNs).ring = s.ring ∧
      (processEntry cfg s tagged nowNs).tasks = s.tasks ∧
      (processEntry cfg s tagged nowNs).running = s.running := by
  unfold processEntry entryCallback
  simp only
  split
  · simp
  · exact ⟨rfl, rfl, rfl, rfl⟩

/-- The tap inserts under the default project, if there is one. -/
theorem processEntry_inserted (cfg : Config) (s : State) (tagged : Tagged) (nowNs : Int64) :
    (processEntry cfg s tagged nowNs).inserted = s.inserted ++
      if cfg.defaultProjectId = [] then []
      else [⟨cfg.defaultProjectId, tapped cfg tagged nowNs, tagged.origin⟩] := by
  by_cases unset : cfg.defaultProjectId = []
  · simp [processEntry, entryCallback, unset]
  · simp only [processEntry, entryCallback, if_pos unset, if_neg unset, ingestToProject]
    rfl

section Moves
variable {cfg : Config} {s t : State} {label : Label}

theorem onTheWay_step (step : Step cfg s label t) {tagged : Tagged} (inside : tagged ∈ t.onTheWay) :
    tagged ∈ s.onTheWay ∨ Arrives cfg label tagged := by
  cases step with
  | ingest request clocks =>
    rcases handleIngest_outcome cfg s request clocks with
      ⟨_, buckets, same⟩ | ⟨_, buckets, p, entry, keyed, sent, found, stored⟩
    · rw [same] at inside
      exact .inl inside
    · rw [stored] at inside
      simp only [mem_onTheWay, ingestToProject_ring, ingestToProject_tasks,
        ingestToProject_running, List.mem_append, List.mem_singleton] at inside ⊢
      by_cases new : tagged = ⟨pipelineEntry entry.appName entry.message clocks, some p.id⟩
      · subst tagged
        exact .inr (.ingest keyed found sent)
      · tauto
  | @tryPush index new accepted next room =>
    left
    have pushed : tagged ∈ (s.push new accepted).onTheWay ∨ tagged ∈ s.routed := by
      simp only [mem_onTheWay] at inside ⊢
      have old := List.mem_of_mem_eraseIdx (a := tagged) (l := s.routed) (i := index)
      tauto
    rcases pushed with pushed | old
    · rcases mem_push pushed with old | rfl
      · exact old
      · exact mem_onTheWay.mpr (.inl (List.mem_of_getElem? next))
    · exact mem_onTheWay.mpr (.inl old)
  | @source entry accepted room =>
    rcases mem_push inside with old | rfl
    · exact .inl old
    · exact .inr (.source entry accepted)
  | consume popped =>
    left
    simp only [mem_onTheWay, popped, List.mem_append, List.mem_cons, List.not_mem_nil] at inside ⊢
    tauto
  | take popped idle =>
    left
    simp only [mem_onTheWay, popped, List.mem_append, List.mem_cons, List.not_mem_nil] at inside ⊢
    tauto
  | @finish index chosenTagged nowNs chosen =>
    left
    obtain ⟨routed, ring, tasks, -⟩ := processEntry_queues cfg s chosenTagged nowNs
    simp only [mem_onTheWay, routed, ring, tasks] at inside ⊢
    have old := List.mem_of_mem_eraseIdx (a := tagged) (l := s.running) (i := index)
    tauto
  | drain popped =>
    left
    simp only [mem_onTheWay, popped, List.mem_cons] at inside ⊢
    tauto
  | evict now loaded => exact .inl inside

theorem inserted_step (step : Step cfg s label t) {insertion : Insertion}
    (inside : insertion ∈ t.inserted) : insertion ∈ s.inserted ∨ Inserts cfg s label insertion := by
  cases step with
  | ingest request clocks =>
    rcases handleIngest_outcome cfg s request clocks with
      ⟨_, buckets, same⟩ | ⟨_, buckets, p, entry, keyed, sent, found, stored⟩
    · rw [same] at inside
      exact .inl inside
    · rw [stored] at inside
      rcases mem_ingestToProject _ _ _ _ _ inside with old | rfl
      · exact .inl old
      · exact .inr (.ingest keyed found sent)
  | @tryPush index new accepted next room => exact .inl (push_inserted s new accepted ▸ inside)
  | @source entry accepted room => exact .inl (push_inserted s _ accepted ▸ inside)
  | @finish index tagged nowNs chosen =>
    have all : insertion ∈ (processEntry cfg s tagged nowNs).inserted := inside
    rw [processEntry_inserted, List.mem_append] at all
    refine all.imp_right fun new => ?_
    split at new
    · exact absurd new List.not_mem_nil
    · obtain rfl := List.mem_singleton.mp new
      exact .finish nowNs chosen
  | consume => exact .inl inside
  | take => exact .inl inside
  | drain => exact .inl inside
  | evict => exact .inl inside

end Moves

theorem traced_step {cfg : Config} {s t : State} {label : Label} (traced : Traced cfg s)
    (step : Step cfg s label t) : Traced cfg t := by
  constructor
  · intro tagged inside
    rcases onTheWay_step step inside with old | new
    · exact traced.onTheWay tagged old
    · cases new with
      | ingest keyed found sent =>
        intro a same
        cases same
        exact ⟨_, _, keyed, found, rfl⟩
      | source => exact fun a same => nomatch same
  · intro insertion inside a same
    rcases inserted_step step inside with old | new
    · exact traced.inserted insertion old a same
    · cases new with
      | ingest keyed found sent =>
        cases same
        exact ⟨⟨_, _, keyed, found, rfl⟩, .inl rfl⟩
      | finish nowNs chosen =>
        have taken := mem_onTheWay.mpr (.inr (.inr (.inr (List.mem_of_getElem? chosen))))
        exact ⟨traced.onTheWay _ taken a same, .inr rfl⟩

theorem traced_initial (cfg : Config) (tsdb : Tsdb.Store) : Traced cfg (initial cfg tsdb) := by
  constructor <;> simp [State.onTheWay, initial]

theorem traced_run {cfg : Config} {tsdb : Tsdb.Store} {s : State} {labels : List Label}
    (run : Run (Step cfg) (initial cfg tsdb) labels s) : Traced cfg s := by
  apply Run.invariant (fun _ s => Traced cfg s) (traced_initial cfg tsdb) _ run
  intro _ _ _ _ _ traced step
  exact traced_step traced step

theorem Traced.isolated {cfg : Config} {s : State} (traced : Traced cfg s)
    (alone : DefaultAlone cfg) : Isolated cfg s := by
  rintro insertion inside ⟨a, mark, foreign, project⟩
  obtain ⟨owner, own | default⟩ := traced.inserted insertion inside a mark
  · exact foreign own
  · rw [default] at project foreign
    exact foreign (alone project a owner).symm

def body : Json := .object [
  (text "app", .string (text "web")),
  (text "level", .string (text "ERROR")),
  (text "message", .string (text "secret"))]

def clocks : Clocks := ⟨1, 1⟩

/-- One message all the way: routed, pushed, popped, taken and handed to the tap. -/
def through (key : Bytes) : List Label :=
  [.ingest ⟨some body, key⟩ clocks, .tryPush 0 true, .consume, .take, .finish 0 1]

theorem ingest_through {cfg : Config} (tsdb : Tsdb.Store) {key : Bytes} {p : Project}
    (keyed : key ≠ []) (found : findByApiKey cfg.projects key = some p) :
    ∃ s entry tagged, handleIngest cfg (initial cfg tsdb) ⟨some body, key⟩ clocks = (s, .routed) ∧
      Request.entry ⟨some body, key⟩ clocks = some entry ∧ tagged.origin = some p.id ∧
      s.routed = [tagged] ∧ s.ring = [] ∧ s.tasks = [] ∧ s.running = [] ∧
      s.inserted = if p.id = [] then [] else [⟨p.id, entry, some p.id⟩] := by
  have complete : (!body.contains (text "app") || !body.contains (text "level") ||
      !body.contains (text "message")) = false := by decide
  have read : readFields body = .ok (text "web", text "ERROR", text "secret", 0) := rfl
  have routed : (handleIngest cfg (initial cfg tsdb) ⟨some body, key⟩ clocks).2 = .routed := by
    cases drawn : ((initial cfg tsdb).rateBuckets key).consume clocks.steadyNs with
    | mk allowed bucket =>
      obtain rfl : allowed = true := by
        rw [← TokenBucket.consume_new clocks.steadyNs]
        exact (congrArg Prod.fst drawn).symm
      simp only [handleIngest, complete, read, if_neg keyed, drawn, routeIngest, found]
      rfl
  obtain ⟨_, buckets, q, entry, _, sent, foundToo, stored⟩ :=
    (handleIngest_outcome cfg (initial cfg tsdb) ⟨some body, key⟩ clocks).resolve_left
      fun refused => refused.1 routed
  obtain rfl : p = q := Option.some.inj (found.symm.trans foundToo)
  refine ⟨_, entry, ⟨pipelineEntry entry.appName entry.message clocks, some p.id⟩,
    Prod.ext stored routed, sent, rfl, ?_⟩
  by_cases unnamed : p.id = []
  · simp [initial, ingestToProject, unnamed]
  · simp [initial, ingestToProject, unnamed]

theorem pipeline_through {cfg : Config} {s : State} {tagged : Tagged} (waiting : s.routed = [tagged])
    (noRing : s.ring = []) (noTasks : s.tasks = []) (noRunning : s.running = []) :
    ∃ next, Run (Step cfg) s [.tryPush 0 true, .consume, .take, .finish 0 1] next ∧
      next.onTheWay = [] ∧ next.inserted = s.inserted ++
        if cfg.defaultProjectId = [] then []
        else [⟨cfg.defaultProjectId, tapped cfg tagged 1, tagged.origin⟩] := by
  obtain ⟨pushed, push, noRouted, inRing, stillNoTasks, stillNoRunning, same⟩ :
      ∃ t, Step cfg s (.tryPush 0 true) t ∧ t.routed = [] ∧ t.ring = [tagged] ∧ t.tasks = [] ∧
        t.running = [] ∧ t.inserted = s.inserted := by
    have next : s.routed[0]? = some tagged := by rw [waiting]; rfl
    have room : true → s.ring.length < ringCapacity := fun _ => by rw [noRing]; decide
    exact ⟨_, .tryPush next room, by simp [waiting], by simp [State.push, noRing], noTasks,
      noRunning, push_inserted s tagged true⟩
  let queued : State := { pushed with ring := [], tasks := [tagged] }
  have consume : Step cfg pushed .consume queued := by
    have step : Step cfg pushed .consume _ := .consume inRing
    rwa [stillNoTasks, List.nil_append] at step
  let taken : State := { queued with tasks := [], running := [tagged] }
  have take : Step cfg queued .take taken := by
    have idle : queued.running = [] := stillNoRunning
    have free : queued.running.length < cfg.workers := by
      rw [idle]
      exact cfg.someWorker
    have step : Step cfg queued .take _ := .take rfl free
    rwa [idle] at step
  have finish : Step cfg taken (.finish 0 1) _ := .finish 1 rfl
  have inserted := processEntry_inserted cfg taken tagged 1
  obtain ⟨routed, ring, tasks, -⟩ := processEntry_queues cfg taken tagged 1
  have run := (((Run.single push).snoc consume).snoc take).snoc finish
  refine ⟨_, run, ?_, ?_⟩
  · simp only [State.onTheWay, routed, ring, tasks]
    simp [taken, queued, noRouted]
  · rw [← same]
    exact inserted

theorem exists_run_through {cfg : Config} (tsdb : Tsdb.Store) {key : Bytes} {p : Project}
    (keyed : key ≠ []) (found : findByApiKey cfg.projects key = some p)
    (set : cfg.defaultProjectId ≠ []) :
    ∃ s insertion, Run (Step cfg) (initial cfg tsdb) (through key) s ∧
      insertion ∈ s.inserted ∧ insertion.origin = some p.id ∧
        insertion.project = cfg.defaultProjectId := by
  obtain ⟨routed, entry, tagged, handled, _, mark, waiting, noRing, noTasks, noRunning, _⟩ :=
    ingest_through tsdb keyed found
  have ingest : Step cfg (initial cfg tsdb) (.ingest ⟨some body, key⟩ clocks) routed := by
    have step : Step cfg (initial cfg tsdb) (.ingest ⟨some body, key⟩ clocks) _ := .ingest _ _ _
    rwa [handled] at step
  obtain ⟨s, run, _, inserted⟩ := pipeline_through waiting noRing noTasks noRunning
  rw [if_neg set] at inserted
  refine ⟨s, ⟨cfg.defaultProjectId, tapped cfg tagged 1, tagged.origin⟩,
    (Run.single ingest).trans run, ?_, mark, rfl⟩
  rw [inserted]
  exact List.mem_append_right _ (List.mem_singleton_self _)

/-- Every run keeps the tenants apart if and only if no project but the default one can send. -/
theorem isolated_iff (cfg : Config) (tsdb : Tsdb.Store) :
    (∀ labels s, Run (Step cfg) (initial cfg tsdb) labels s → Isolated cfg s) ↔
      DefaultAlone cfg := by
  constructor
  · rintro isolated ⟨p, inside, alive, named⟩ id ⟨key, q, keyed, found, rfl⟩
    by_contra foreign
    have set : cfg.defaultProjectId ≠ [] := by
      rw [← named]
      simpa [Project.live] using alive
    obtain ⟨s, insertion, run, stored, mark, project⟩ :=
      exists_run_through tsdb keyed found set
    apply isolated (through key) s run insertion stored
    refine ⟨q.id, mark, ?_, ⟨p, inside, alive, named.trans project.symm⟩⟩
    rw [project]
    exact Ne.symm foreign
  · intro alone labels s run
    exact (traced_run run).isolated alone

def twoTenants : Config where
  projects := webStore.push ⟨text "p2", text "ops", text "bob", text "k2", 0⟩
  defaultProjectId := text "p2"
  matchRule := fun _ => none
  persisted := fun _ => Tsdb.Store.empty
  workers := 4
  someWorker := by decide

/-- Bob can read what alice's program sent with her key. -/
theorem twoTenants_leak :
    ∃ labels s, Run (Step twoTenants) (initial twoTenants Tsdb.Store.empty) labels s ∧
      ¬Isolated twoTenants s := by
  have found : findByApiKey twoTenants.projects (text "k1") = some web := by decide
  obtain ⟨s, insertion, run, stored, mark, project⟩ :=
    exists_run_through Tsdb.Store.empty (by decide) found (by decide)
  refine ⟨_, s, run, ?_⟩
  intro isolated
  apply isolated insertion stored
  refine ⟨text "p1", mark, ?_, ?_⟩
  · rw [project]
    decide
  · rw [project]
    exact ⟨⟨text "p2", text "ops", text "bob", text "k2", 0⟩, by decide, by decide, rfl⟩

/-- The entries of an app in the store of a project, as a query finds them. -/
def entriesOf (s : State) (project app : Bytes) : List TsdbEntry :=
  match s.tsdbMap project with
  | none => []
  | some store => (store.data.lookup app).getD []

/-- Everything in the store of a project was read from its file or inserted there. -/
def Accounted (cfg : Config) (s : State) : Prop :=
  ∀ project app, ∀ entry ∈ entriesOf s project app,
    entry ∈ ((cfg.persisted project).data.lookup app).getD [] ∨
      ∃ insertion ∈ s.inserted, insertion.project = project ∧ insertion.entry = entry

theorem accounted_initial (cfg : Config) (tsdb : Tsdb.Store) : Accounted cfg (initial cfg tsdb) := by
  intro project app entry inside
  left
  simp only [entriesOf, initial] at inside
  split at inside
  · simp at inside
  next store present =>
    split at present
    · by_cases same : project = cfg.defaultProjectId
      · subst project
        rw [Function.update_self, Option.some.injEq] at present
        rwa [present]
      · simp [Function.update_of_ne same] at present
    · cases present

theorem Accounted.of_same {cfg : Config} {s t : State} (accounted : Accounted cfg s)
    (stores : t.tsdbMap = s.tsdbMap) (inserted : t.inserted = s.inserted) : Accounted cfg t := by
  intro project app e inside
  rw [inserted]
  apply accounted project app e
  rwa [entriesOf, ← stores]

theorem Accounted.ingestToProject {cfg : Config} {s : State} (accounted : Accounted cfg s)
    (projectId : Bytes) (entry : TsdbEntry) (origin : Option Bytes) :
    Accounted cfg (ingestToProject cfg s projectId entry origin) := by
  unfold Server.ingestToProject
  split
  · exact accounted
  intro project app e inside
  have before : e ∈ entriesOf s project app →
      e ∈ ((cfg.persisted project).data.lookup app).getD [] ∨
        ∃ insertion ∈ s.inserted ++ [⟨projectId, entry, origin⟩],
          insertion.project = project ∧ insertion.entry = e := by
    intro old
    refine (accounted project app e old).imp_right ?_
    rintro ⟨insertion, earlier, same⟩
    exact ⟨insertion, List.mem_append_left _ earlier, same⟩
  by_cases same : project = projectId
  · subst project
    simp only [entriesOf, Function.update_self] at inside
    rcases Tsdb.mem_insert inside with rfl | old
    · exact .inr ⟨_, List.mem_append_right _ (List.mem_singleton.mpr rfl), rfl, rfl⟩
    · cases present : s.tsdbMap projectId with
      | none =>
        rw [present] at old
        exact .inl old
      | some store =>
        rw [present] at old
        apply before
        simp only [entriesOf, present]
        exact old
  · apply before
    simpa only [entriesOf, Function.update_of_ne same] using inside

theorem accounted_step {cfg : Config} {s t : State} {label : Label} (accounted : Accounted cfg s)
    (step : Step cfg s label t) : Accounted cfg t := by
  cases step with
  | ingest request clocks =>
    rcases handleIngest_cases cfg s request clocks with
      ⟨buckets, same⟩ | ⟨buckets, p, entry, line, _, _, stored⟩
    · rw [same]
      exact accounted.of_same rfl rfl
    · rw [stored]
      have refilled : Accounted cfg { s with rateBuckets := buckets } := accounted.of_same rfl rfl
      exact (refilled.ingestToProject p.id entry (some p.id)).of_same rfl rfl
  | @tryPush index new accepted next room =>
    refine accounted.of_same ?_ (push_inserted s new accepted)
    cases accepted <;> rfl
  | @source entry accepted room =>
    refine accounted.of_same ?_ (push_inserted s _ accepted)
    cases accepted <;> rfl
  | consume popped => exact accounted.of_same rfl rfl
  | take popped idle => exact accounted.of_same rfl rfl
  | @finish index tagged nowNs chosen =>
    have tapped : Accounted cfg (processEntry cfg s tagged nowNs) := by
      unfold processEntry entryCallback
      simp only
      split
      · exact (accounted.ingestToProject _ _ _).of_same rfl rfl
      · exact accounted.of_same rfl rfl
    exact tapped.of_same rfl rfl
  | drain popped => exact accounted.of_same rfl rfl
  | @evict evicted store now loaded =>
    intro project app e inside
    apply accounted project app e
    by_cases same : project = evicted
    · subst project
      simp only [entriesOf, Function.update_self] at inside
      simp only [entriesOf, loaded]
      rw [evictOldEntries_lookup] at inside
      exact List.mem_of_mem_filter inside
    · simpa only [entriesOf, Function.update_of_ne same] using inside

theorem accounted_run {cfg : Config} {tsdb : Tsdb.Store} {s : State} {labels : List Label}
    (run : Run (Step cfg) (initial cfg tsdb) labels s) : Accounted cfg s := by
  apply Run.invariant (fun _ s => Accounted cfg s) (accounted_initial cfg tsdb) _ run
  intro _ _ _ _ _ accounted step
  exact accounted_step accounted step

/-- With the default project alone, everything that can be read in the store of a project was
read from its file, or inserted there without a key, or sent with a key of that project. -/
theorem run_reads {cfg : Config} {tsdb : Tsdb.Store} {s : State} {labels : List Label}
    (run : Run (Step cfg) (initial cfg tsdb) labels s) (alone : DefaultAlone cfg) {project : Bytes}
    (exists_project : IsProject cfg project) {app : Bytes} {entry : TsdbEntry}
    (inside : entry ∈ entriesOf s project app) :
    entry ∈ ((cfg.persisted project).data.lookup app).getD [] ∨
      ∃ insertion ∈ s.inserted, insertion.project = project ∧ insertion.entry = entry ∧
        ∀ a, insertion.origin = some a → a = project := by
  refine (accounted_run run project app entry inside).imp_right ?_
  rintro ⟨insertion, stored, rfl, same⟩
  refine ⟨insertion, stored, rfl, same, ?_⟩
  intro a mark
  by_contra foreign
  exact (traced_run run).isolated alone insertion stored
    ⟨a, mark, fun own => foreign own.symm, exists_project⟩

end LogMonitor.Server
