import LogMonitor.TenantIsolation
import LogMonitor.TsdbEviction

/-!
How often an accepted message is stored. The handler inserts it under the
project of its key; if that is the default project, the tap inserts it again.
Beside the state, a run records which requests were answered with success.
-/

namespace LogMonitor.Server
open Library Library.ByteString Library.Transition ProjectStore Tsdb

/-- A request that was answered with success: the project of its key and what it sent. -/
structure Accepted where
  project : Bytes
  entry : TsdbEntry

def accepts (cfg : Config) (s : State) : Label → List Accepted
  | .ingest request clocks =>
    match (handleIngest cfg s request clocks).2, findByApiKey cfg.projects request.apiKey,
      request.entry clocks with
    | .routed, some p, some entry => [⟨p.id, entry⟩]
    | _, _, _ => []
  | _ => []

structure Record where
  state : State
  accepted : List Accepted

def Recorded (cfg : Config) (r : Record) (label : Label) (next : Record) : Prop :=
  Step cfg r.state label next.state ∧ next.accepted = r.accepted ++ accepts cfg r.state label

def startRecord (cfg : Config) (tsdb : Tsdb.Store) : Record := ⟨initial cfg tsdb, []⟩

/-- The pipeline has nothing left to do. -/
def State.Quiet (s : State) : Prop := s.onTheWay = []

/-- What requests with a key of the project have brought into its store. -/
def State.storedFor (s : State) (project : Bytes) : List TsdbEntry :=
  (s.inserted.filter fun insertion =>
    insertion.project = project ∧ insertion.origin = some project).map Insertion.entry

def Record.acceptedFor (r : Record) (project : Bytes) : List TsdbEntry :=
  (r.accepted.filter fun accepted => accepted.project = project).map Accepted.entry

/-- The requests accepted for a project are stored in it each once, as they were sent. -/
def StoredOnce (r : Record) : Prop :=
  ∀ project, r.state.storedFor project = r.acceptedFor project

/-- No request can carry a key of the default project, nor of a project without an id. -/
def DefaultKeyless (cfg : Config) : Prop :=
  ∀ id, OwnsKey cfg id → id ≠ [] ∧ id ≠ cfg.defaultProjectId

theorem accepts_refused {cfg : Config} {s : State} {request : Request} {clocks : Clocks}
    (refused : (handleIngest cfg s request clocks).2 ≠ .routed) :
    accepts cfg s (.ingest request clocks) = [] := by
  simp only [accepts]
  split
  next routed _ _ => exact absurd routed refused
  next => rfl

theorem accepts_routed {cfg : Config} {s : State} {request : Request} {clocks : Clocks} {p : Project}
    {entry : TsdbEntry} (routed : (handleIngest cfg s request clocks).2 = .routed)
    (found : findByApiKey cfg.projects request.apiKey = some p)
    (sent : request.entry clocks = some entry) :
    accepts cfg s (.ingest request clocks) = [⟨p.id, entry⟩] := by
  simp only [accepts, routed, found, sent]

theorem storedFor_congr {s t : State} (same : t.inserted = s.inserted) (project : Bytes) :
    t.storedFor project = s.storedFor project := by
  unfold State.storedFor
  rw [same]

theorem ingestToProject_storedFor {cfg : Config} {s : State} {projectId : Bytes} (entry : TsdbEntry)
    (origin : Option Bytes) (set : projectId ≠ []) (project : Bytes) :
    (ingestToProject cfg s projectId entry origin).storedFor project =
      s.storedFor project ++
        if projectId = project ∧ origin = some project then [entry] else [] := by
  unfold ingestToProject State.storedFor
  rw [if_neg set]
  simp only [List.filter_append, List.map_append]
  by_cases mine : projectId = project ∧ origin = some project
  · rw [if_pos mine, List.filter_cons_of_pos (by simpa using mine)]
    rfl
  · rw [if_neg mine, List.filter_cons_of_neg (by simpa using mine)]
    rfl

/-- What the tap does is nothing to any project, as the default one has no key. -/
theorem processEntry_storedFor {cfg : Config} {s : State} (keyless : DefaultKeyless cfg)
    {tagged : Tagged} (marked : Marked cfg tagged.origin) (nowNs : Int64) (project : Bytes) :
    (processEntry cfg s tagged nowNs).storedFor project = s.storedFor project := by
  unfold processEntry entryCallback
  simp only
  by_cases unset : cfg.defaultProjectId = []
  · rw [if_neg (not_not_intro unset)]
    rfl
  rw [if_pos unset]
  refine (ingestToProject_storedFor _ tagged.origin unset project).trans ?_
  rw [if_neg, List.append_nil]
  rintro ⟨rfl, mark⟩
  exact (keyless _ (marked _ mark)).2 rfl

theorem storedOnce_step {cfg : Config} (keyless : DefaultKeyless cfg) {r next : Record}
    {label : Label} (traced : Traced cfg r.state) (once : StoredOnce r)
    (step : Recorded cfg r label next) : StoredOnce next := by
  obtain ⟨move, recorded⟩ := step
  obtain ⟨s, accepted⟩ := r
  obtain ⟨t, acceptedAfter⟩ := next
  simp only at move recorded traced
  subst recorded
  intro project
  have before : s.storedFor project = Record.acceptedFor ⟨s, accepted⟩ project := once project
  -- only a request that is accepted and a worker that is through can change what is stored
  have quietly (stored : t.storedFor project = s.storedFor project)
      (nothing : accepts cfg s label = []) :
      t.storedFor project = Record.acceptedFor ⟨t, accepted ++ accepts cfg s label⟩ project := by
    rw [stored, nothing, List.append_nil]
    exact before
  cases move with
  | ingest request clocks =>
    rcases handleIngest_outcome cfg s request clocks with
      ⟨refused, buckets, same⟩ | ⟨routed, buckets, p, entry, keyed, sent, found, stored⟩
    · apply quietly _ (accepts_refused refused)
      rw [same]
      rfl
    · have named : p.id ≠ [] := (keyless p.id ⟨request.apiKey, p, keyed, found, rfl⟩).1
      rw [accepts_routed routed found sent, stored]
      refine (ingestToProject_storedFor entry (some p.id) named project).trans ?_
      have refilled : State.storedFor { s with rateBuckets := buckets } project =
          Record.acceptedFor ⟨s, accepted⟩ project := before
      rw [refilled]
      unfold Record.acceptedFor
      simp only [List.filter_append, List.map_append]
      by_cases mine : p.id = project
      · rw [if_pos ⟨mine, by rw [mine]⟩, List.filter_cons_of_pos (by simpa using mine)]
        rfl
      · rw [if_neg fun both => mine both.1, List.filter_cons_of_neg (by simpa using mine)]
        rfl
  | @tryPush index new pushed there room =>
    exact quietly (storedFor_congr (push_inserted s new pushed) project) rfl
  | @source entry pushed room =>
    exact quietly (storedFor_congr (push_inserted s _ pushed) project) rfl
  | consume popped => exact quietly rfl rfl
  | take popped idle => exact quietly rfl rfl
  | @finish index tagged nowNs chosen =>
    have marked : Marked cfg tagged.origin :=
      traced.onTheWay tagged (mem_onTheWay.mpr (.inr (.inr (.inr (List.mem_of_getElem? chosen)))))
    exact quietly (processEntry_storedFor keyless marked nowNs project) rfl
  | drain popped => exact quietly rfl rfl
  | evict now loaded => exact quietly rfl rfl

/-- With a default project that no request can name, everything accepted is stored once. -/
theorem storedOnce_run {cfg : Config} {tsdb : Tsdb.Store} (keyless : DefaultKeyless cfg)
    {labels : List Label} {r : Record} (run : Run (Recorded cfg) (startRecord cfg tsdb) labels r) :
    StoredOnce r := by
  have both : Traced cfg r.state ∧ StoredOnce r := by
    apply Run.invariant (fun _ r => Traced cfg r.state ∧ StoredOnce r) _ _ run
    · exact ⟨traced_initial cfg tsdb, fun _ => rfl⟩
    · intro _ current label next _ holds step
      exact ⟨traced_step holds.1 step.1, storedOnce_step keyless holds.1 holds.2 step⟩
  exact both.2

theorem recorded_step {cfg : Config} {s t : State} {label : Label} (accepted : List Accepted)
    (step : Step cfg s label t) (noRequest : ∀ request clocks, label ≠ .ingest request clocks) :
    Recorded cfg ⟨s, accepted⟩ label ⟨t, accepted⟩ := by
  refine ⟨step, ?_⟩
  have nothing : accepts cfg s label = [] := by
    cases step with
    | ingest request clocks => exact absurd rfl (noRequest request clocks)
    | _ => rfl
  rw [nothing, List.append_nil]

theorem recorded_run {cfg : Config} {s t : State} {labels : List Label} (accepted : List Accepted)
    (run : Run (Step cfg) s labels t)
    (noRequest : ∀ request clocks, .ingest request clocks ∉ labels) :
    Run (Recorded cfg) ⟨s, accepted⟩ labels ⟨t, accepted⟩ := by
  induction run with
  | refl => exact .refl
  | @snoc labels current next label earlier last ih =>
    have before := ih fun request clocks listed =>
      noRequest request clocks (List.mem_append_left _ listed)
    refine before.snoc (recorded_step accepted last fun request clocks same => ?_)
    exact noRequest request clocks (List.mem_append_right _ (List.mem_singleton.mpr same.symm))

/-- The first message under a key, from the handler to the tap: it is accepted once, and
inserted under its project and under the default one. -/
theorem exists_recorded_through {cfg : Config} (tsdb : Tsdb.Store) {key : Bytes} {p : Project}
    (keyed : key ≠ []) (found : findByApiKey cfg.projects key = some p) :
    ∃ r entry tapped, Run (Recorded cfg) (startRecord cfg tsdb) (through key) r ∧ r.state.Quiet ∧
      r.accepted = [⟨p.id, entry⟩] ∧
      r.state.inserted = (if p.id = [] then [] else [⟨p.id, entry, some p.id⟩]) ++
        if cfg.defaultProjectId = [] then [] else [⟨cfg.defaultProjectId, tapped, some p.id⟩] := by
  obtain ⟨routed, entry, tagged, handled, sent, mark, waiting, noRing, noTasks, noRunning, stored⟩ :=
    ingest_through tsdb keyed found
  have accepted : accepts cfg (initial cfg tsdb) (.ingest ⟨some body, key⟩ clocks) =
      [⟨p.id, entry⟩] := accepts_routed (congrArg Prod.snd handled) found sent
  have ingest : Recorded cfg (startRecord cfg tsdb) (.ingest ⟨some body, key⟩ clocks)
      ⟨routed, [⟨p.id, entry⟩]⟩ := by
    refine ⟨?_, accepted.symm⟩
    have step : Step cfg (initial cfg tsdb) (.ingest ⟨some body, key⟩ clocks) _ := .ingest _ _ _
    rwa [handled] at step
  obtain ⟨s, run, quiet, inserted⟩ := pipeline_through waiting noRing noTasks noRunning
  have recorded := (Run.single ingest).trans (recorded_run [⟨p.id, entry⟩] run (by simp))
  refine ⟨⟨s, [⟨p.id, entry⟩]⟩, entry, tapped cfg tagged 1, recorded, quiet, rfl, ?_⟩
  rw [mark, stored] at inserted
  exact inserted

/-- Every run stores what it accepts exactly once, as soon as the pipeline is through, if and
only if no request can carry a key of the default project. -/
theorem storedOnce_iff (cfg : Config) (tsdb : Tsdb.Store) :
    (∀ labels r, Run (Recorded cfg) (startRecord cfg tsdb) labels r → r.state.Quiet →
      StoredOnce r) ↔ DefaultKeyless cfg := by
  constructor
  · rintro always id ⟨key, p, keyed, found, rfl⟩
    obtain ⟨r, entry, tapped, run, quiet, accepted, inserted⟩ :=
      exists_recorded_through tsdb keyed found
    have once := congrArg List.length (always (through key) r run quiet p.id)
    simp only [State.storedFor, Record.acceptedFor, inserted, accepted, List.length_map] at once
    by_cases unnamed : p.id = []
    · by_cases unset : cfg.defaultProjectId = []
      · simp [unnamed, unset] at once
      · simp [unnamed, unset] at once
    · refine ⟨unnamed, fun same => ?_⟩
      rw [← same] at once
      simp [unnamed] at once
  · intro keyless labels r run _
    exact storedOnce_run keyless run

def aliceDefault : Config where
  projects := webStore
  defaultProjectId := text "p1"
  matchRule := fun _ => none
  persisted := fun _ => Tsdb.Store.empty
  workers := twoTenants.workers
  someWorker := twoTenants.someWorker

/-- What alice's program sends once is stored twice. -/
theorem aliceDefault_twice :
    ∃ labels r, Run (Recorded aliceDefault) (startRecord aliceDefault Tsdb.Store.empty) labels r ∧
      r.state.Quiet ∧ ¬StoredOnce r := by
  have found : findByApiKey aliceDefault.projects (text "k1") = some web := by decide
  obtain ⟨r, entry, tapped, run, quiet, accepted, inserted⟩ :=
    exists_recorded_through Tsdb.Store.empty (by decide) found
  refine ⟨_, r, run, quiet, fun once => ?_⟩
  have lengths := congrArg List.length (once (text "p1"))
  simp only [State.storedFor, Record.acceptedFor, inserted, accepted, List.length_map] at lengths
  have named : web.id ≠ [] := by decide
  have set : aliceDefault.defaultProjectId ≠ [] := by decide
  rw [if_neg named, if_neg set] at lengths
  simp [web, aliceDefault] at lengths

def State.insertedInto (s : State) (project : Bytes) : List TsdbEntry :=
  (s.inserted.filter fun insertion => insertion.project = project).map Insertion.entry

/-- The store of a project is what its insertions and evictions have made of its file. -/
def Rebuilt (cfg : Config) (s : State) (project : Bytes) : Prop :=
  Rebuilds (cfg.persisted project) (s.insertedInto project) (s.tsdbMap project)

theorem Rebuilt.of_same {cfg : Config} {s t : State} {project : Bytes}
    (rebuilt : Rebuilt cfg s project) (stores : t.tsdbMap = s.tsdbMap)
    (inserted : t.inserted = s.inserted) : Rebuilt cfg t project := by
  unfold Rebuilt State.insertedInto at rebuilt ⊢
  rwa [stores, inserted]

theorem Rebuilt.ingestToProject {cfg : Config} {s : State} {project : Bytes}
    (rebuilt : Rebuilt cfg s project) (projectId : Bytes) (entry : TsdbEntry) (origin : Option Bytes) :
    Rebuilt cfg (ingestToProject cfg s projectId entry origin) project := by
  unfold Server.ingestToProject
  split
  · exact rebuilt
  unfold Rebuilt State.insertedInto at rebuilt ⊢
  simp only [List.filter_append, List.map_append]
  by_cases same : project = projectId
  · subst project
    rw [Function.update_self, List.filter_cons_of_pos (by simp)]
    exact rebuilt.insert entry
  · rw [Function.update_of_ne same, List.filter_cons_of_neg (by simpa using Ne.symm same)]
    simpa using rebuilt

theorem rebuilt_step {cfg : Config} {s t : State} {label : Label} {project : Bytes}
    (rebuilt : Rebuilt cfg s project) (step : Step cfg s label t) : Rebuilt cfg t project := by
  cases step with
  | ingest request clocks =>
    rcases handleIngest_cases cfg s request clocks with
      ⟨buckets, same⟩ | ⟨buckets, p, entry, line, _, _, stored⟩
    · rw [same]
      exact rebuilt.of_same rfl rfl
    · rw [stored]
      have refilled : Rebuilt cfg { s with rateBuckets := buckets } project := rebuilt.of_same rfl rfl
      exact (refilled.ingestToProject p.id entry (some p.id)).of_same rfl rfl
  | @tryPush index new accepted next room =>
    refine rebuilt.of_same ?_ (push_inserted s new accepted)
    cases accepted <;> rfl
  | @source entry accepted room =>
    refine rebuilt.of_same ?_ (push_inserted s _ accepted)
    cases accepted <;> rfl
  | consume popped => exact rebuilt.of_same rfl rfl
  | take popped idle => exact rebuilt.of_same rfl rfl
  | @finish index tagged nowNs chosen =>
    have tapped : Rebuilt cfg (processEntry cfg s tagged nowNs) project := by
      unfold processEntry entryCallback
      simp only
      split
      · exact (rebuilt.ingestToProject _ _ _).of_same rfl rfl
      · exact rebuilt.of_same rfl rfl
    exact tapped.of_same rfl rfl
  | drain popped => exact rebuilt.of_same rfl rfl
  | @evict evicted store now loaded =>
    unfold Rebuilt at rebuilt ⊢
    by_cases same : project = evicted
    · subst project
      rw [loaded] at rebuilt
      simp only [Function.update_self]
      exact rebuilt.evict now
    · simp only [Function.update_of_ne same]
      exact rebuilt

/-- In every run the store of a project holds what was inserted into it, as far as its
evictions have left it. -/
theorem rebuilt_run {cfg : Config} {tsdb : Tsdb.Store} {labels : List Label} {s : State}
    (run : Run (Step cfg) (initial cfg tsdb) labels s) (project : Bytes) : Rebuilt cfg s project := by
  apply Run.invariant (fun _ s => Rebuilt cfg s project) _ _ run
  · unfold Rebuilt initial
    by_cases known : cfg.defaultProjectId ≠ [] ∧
        (findById cfg.projects cfg.defaultProjectId).isSome
    · by_cases same : project = cfg.defaultProjectId
      · subst project
        simp only [if_pos known, Function.update_self]
        exact ⟨[], rfl, rfl⟩
      · simp only [if_pos known, Function.update_of_ne same]
        rfl
    · simp only [if_neg known]
      rfl
  · intro _ _ _ _ _ rebuilt step
    exact rebuilt_step rebuilt step

end LogMonitor.Server
