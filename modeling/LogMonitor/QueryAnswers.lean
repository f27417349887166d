import LogMonitor.Library.JsonText
import LogMonitor.TenantIsolation
import LogMonitor.TsdbEviction
import LogMonitor.TsdbJson

/-!
Whether a query of the store is answered. The writer of the answer throws on
text that is not UTF-8, and nothing on the way into the store looks at that: one
line of other bytes makes every query that finds it fail.
-/

namespace LogMonitor.Tsdb
open Library Library.ByteString

section Entries

def TsdbEntry.Readable (e : TsdbEntry) : Prop := Utf8 e.appName ∧ Utf8 e.level ∧ Utf8 e.message

theorem entryJson_writable (e : TsdbEntry) : (entryJson e).Writable ↔ e.Readable := by
  have app : Utf8 (text "app") := by decide
  have level : Utf8 (text "level") := by decide
  have message : Utf8 (text "message") := by decide
  have time : Utf8 (text "timestamp_ns") := by decide
  simp [entryJson, TsdbEntry.Readable, app, level, message, time]

theorem entryJson_row (e : TsdbEntry) : ∃ row, entryJson e = .object row ∧ Json.Row row := by
  refine ⟨_, rfl, ⟨?_, ?_⟩⟩
  · change [text "app", text "level", text "message", text "timestamp_ns"].Pairwise (· < ·)
    decide
  · have number : Json.Scalar (.integer e.timestampNs.toInt) :=
      .integer _ ⟨e.timestampNs.le_toInt, e.timestampNs.toInt_lt⟩
    simp [Json.Scalar.string, number]

theorem entries_tabular (entries : List TsdbEntry) :
    (Json.array (entries.map entryJson)).Tabular := by
  apply Json.tabular_array
  intro json listed
  obtain ⟨e, -, rfl⟩ := List.mem_map.mp listed
  exact entryJson_row e

theorem entries_writable (entries : List TsdbEntry) :
    (Json.array (entries.map entryJson)).Writable ↔ ∀ e ∈ entries, e.Readable := by
  simp [entryJson_writable]

end Entries

def Look.Answers (look : Look) (dump : Json → Option Bytes) (parse : Bytes → Option Json)
    (app level : Bytes) (lastNSeconds : Int) : Prop :=
  ∃ bytes, dump (look.queryToJson app level lastNSeconds) = some bytes ∧
    parse bytes =
      some (.array ((look.tsdb.getLogs look.now app level lastNSeconds).map entryJson))

def Look.Readable (look : Look) (app level : Bytes) (lastNSeconds : Int) : Prop :=
  ∀ e ∈ look.tsdb.vector app,
    matchesQuery (windowStart look.now lastNSeconds) level e → e.Readable

theorem Look.readable_iff (look : Look) (app level : Bytes) (lastNSeconds : Int) :
    (∀ e ∈ look.tsdb.getLogs look.now app level lastNSeconds, e.Readable) ↔
      look.Readable app level lastNSeconds := by
  rw [getLogs_eq]
  exact ⟨fun all e stored found => all e (List.mem_filter.mpr ⟨stored, found⟩),
    fun all e listed => all e (List.mem_filter.mp listed).1 (List.mem_filter.mp listed).2⟩

theorem Look.answers_iff {dump : Json → Option Bytes} {parse : Bytes → Option Json}
    (form : Json.TextForm dump parse) (look : Look) (app level : Bytes) (lastNSeconds : Int) :
    look.Answers dump parse app level lastNSeconds ↔ look.Readable app level lastNSeconds := by
  refine (form.read_iff (entries_tabular _)).trans ?_
  rw [entries_writable, look.readable_iff]

def Store.Readable (store : Store) : Prop := ∀ app, ∀ e ∈ store.vector app, e.Readable

theorem Store.Readable.insert {store : Store} (readable : store.Readable) {entry : TsdbEntry}
    (new : entry.Readable) : (store.insert entry).Readable := by
  intro app e inside
  rcases mem_insert inside with rfl | old
  · exact new
  · exact readable app e old

end LogMonitor.Tsdb

namespace LogMonitor.Server
open Library Library.ByteString Library.Transition ProjectStore Tsdb

def Readable (entry : LogEntry) : Prop :=
  Utf8 entry.line ∧ Utf8 entry.source ∧ Utf8 entry.serviceName

/-- What a step brings in is UTF-8. The reader of the bodies of requests sees to that itself, the
sources do not. -/
def Label.Readable : Label → Prop
  | .ingest request _ => ∀ body, request.body = some body → body.Writable
  | .source entry _ => Server.Readable entry
  | _ => True

structure Legible (s : State) : Prop where
  onTheWay : ∀ tagged ∈ s.onTheWay, Readable tagged.entry
  inserted : ∀ insertion ∈ s.inserted, insertion.entry.Readable
  dashboard : s.tsdb.Readable

theorem readFields_utf8 {body : Json} (writable : body.Writable) {app level message : Bytes}
    {tsClient : Int64} (read : readFields body = .ok (app, level, message, tsClient)) :
    Utf8 app ∧ Utf8 level ∧ Utf8 message := by
  unfold readFields at read
  simp only [bind, Except.bind, pure, Except.pure] at read
  cases first : ((body.member (text "app")).getD .null).getString with
  | error error =>
    rw [first] at read
    exact nomatch read
  | ok one =>
    cases second : ((body.member (text "level")).getD .null).getString with
    | error error =>
      rw [first, second] at read
      exact nomatch read
    | ok two =>
      cases third : ((body.member (text "message")).getD .null).getString with
      | error error =>
        rw [first, second, third] at read
        exact nomatch read
      | ok three =>
        rw [first, second, third] at read
        simp only at read
        split at read
        · exact nomatch read
        · cases read
          exact ⟨writable.getString first, writable.getString second, writable.getString third⟩

theorem Request.entry_readable {request : Request} {clocks : Clocks} {entry : TsdbEntry}
    (writable : ∀ body, request.body = some body → body.Writable)
    (sent : request.entry clocks = some entry) : entry.Readable := by
  unfold Request.entry at sent
  cases parsed : request.body with
  | none => simp [parsed] at sent
  | some body =>
    cases read : readFields body with
    | error error => simp [parsed, read, Except.toOption] at sent
    | ok fields =>
      obtain ⟨app, level, message, tsClient⟩ := fields
      simp only [parsed, read, Except.toOption, bind, Option.bind, pure, Option.some.injEq] at sent
      rw [← sent]
      exact readFields_utf8 (writable body parsed) read

theorem pipelineEntry_readable {entry : TsdbEntry} (readable : entry.Readable) (clocks : Clocks) :
    Readable (pipelineEntry entry.appName entry.message clocks) := by
  have http : Utf8 (text "http:") := by decide
  exact ⟨readable.2.2, http.append readable.1, readable.1⟩

theorem tapped_readable {cfg : Config} {tagged : Tagged} (readable : Readable tagged.entry)
    (nowNs : Int64) : (tapped cfg tagged nowNs).Readable := by
  obtain ⟨line, source, serviceName⟩ := readable
  refine ⟨?_, ?_, line⟩
  · unfold tapped
    dsimp only
    split
    · exact source
    · exact serviceName
  · have named (severity : Severity) : Utf8 severity.toText := by cases severity <;> decide
    have info : Utf8 (text "INFO") := by decide
    unfold tapped
    cases cfg.matchRule tagged.entry.line with
    | none => exact info
    | some severity => exact named severity

/-- Only a worker that is through changes the store of the dashboard. -/
theorem tsdb_step {cfg : Config} {s t : State} {label : Label} (step : Step cfg s label t) :
    t.tsdb = s.tsdb ∨
      ∃ tagged ∈ s.running, ∃ nowNs, t.tsdb = s.tsdb.insert (tapped cfg tagged nowNs) := by
  have kept (s : State) (project : Bytes) (entry : TsdbEntry) (origin : Option Bytes) :
      (ingestToProject cfg s project entry origin).tsdb = s.tsdb := by
    unfold ingestToProject
    split <;> rfl
  cases step with
  | ingest request clocks =>
    left
    rcases handleIngest_outcome cfg s request clocks with
      ⟨_, buckets, same⟩ | ⟨_, buckets, p, entry, _, _, _, stored⟩
    · rw [same]
    · rw [stored]
      exact kept _ _ _ _
  | @tryPush index new accepted next room => cases accepted <;> exact .inl rfl
  | @source entry accepted room => cases accepted <;> exact .inl rfl
  | @finish index tagged nowNs chosen =>
    refine .inr ⟨tagged, List.mem_of_getElem? chosen, nowNs, ?_⟩
    change (processEntry cfg s tagged nowNs).tsdb = _
    unfold processEntry entryCallback
    split
    · exact congrArg (Store.insert · _) (kept _ _ _ _)
    · rfl
  | consume => exact .inl rfl
  | take => exact .inl rfl
  | drain => exact .inl rfl
  | evict => exact .inl rfl

theorem legible_step {cfg : Config} {s t : State} {label : Label} (legible : Legible s)
    (readable : label.Readable) (step : Step cfg s label t) : Legible t := by
  constructor
  · intro tagged inside
    rcases onTheWay_step step inside with old | new
    · exact legible.onTheWay tagged old
    · cases new with
      | ingest keyed found sent =>
        exact pipelineEntry_readable (Request.entry_readable readable sent) _
      | source entry accepted => exact readable
  · intro insertion inside
    rcases inserted_step step inside with old | new
    · exact legible.inserted insertion old
    · cases new with
      | ingest keyed found sent => exact Request.entry_readable readable sent
      | finish nowNs chosen =>
        have taken := mem_onTheWay.mpr (.inr (.inr (.inr (List.mem_of_getElem? chosen))))
        exact tapped_readable (legible.onTheWay _ taken) nowNs
  · rcases tsdb_step step with same | ⟨tagged, running, nowNs, stored⟩
    · rw [same]
      exact legible.dashboard
    · have taken := mem_onTheWay.mpr (.inr (.inr (.inr running)))
      rw [stored]
      exact legible.dashboard.insert (tapped_readable (legible.onTheWay _ taken) nowNs)

def State.Holds (s : State) (store : Tsdb.Store) : Prop :=
  s.tsdb = store ∨ ∃ project, s.tsdbMap project = some store

/-- A run from stores of UTF-8 that takes in nothing else stores nothing else. -/
theorem readable_run {cfg : Config} {tsdb : Tsdb.Store} {s : State} {labels : List Label}
    (run : Run (Step cfg) (initial cfg tsdb) labels s) (dashboard : tsdb.Readable)
    (persisted : ∀ project, (cfg.persisted project).Readable)
    (readable : ∀ label ∈ labels, label.Readable) {store : Tsdb.Store} (held : s.Holds store) :
    store.Readable := by
  have start : Legible (initial cfg tsdb) := ⟨nofun, nofun, dashboard⟩
  have legible : Legible s := by
    refine Run.invariant (fun labels s => (∀ label ∈ labels, label.Readable) → Legible s)
      (fun _ => start) ?_ run readable
    intro labels current label next _ ih step all
    have before := ih fun other listed => all other (List.mem_append_left _ listed)
    exact legible_step before (all label (by simp)) step
  rcases held with rfl | ⟨project, held⟩
  · exact legible.dashboard
  · intro app e inside
    have found : e ∈ entriesOf s project app := by
      rw [entriesOf, held]
      exact inside
    rcases accounted_run run project app e found with old | ⟨insertion, listed, -, rfl⟩
    · exact persisted project app e old
    · exact legible.inserted insertion listed

/-- A query is answered if and only if what it finds is UTF-8. So every query of every store is,
in a run that takes in nothing else. -/
theorem queries_answered {dump : Json → Option Bytes} {parse : Bytes → Option Json}
    (form : Json.TextForm dump parse) :
    (∀ (look : Look) (app level : Bytes) (lastNSeconds : Int),
      look.Answers dump parse app level lastNSeconds ↔ look.Readable app level lastNSeconds) ∧
    ∀ cfg tsdb labels s, Run (Step cfg) (initial cfg tsdb) labels s → tsdb.Readable →
      (∀ project, (cfg.persisted project).Readable) → (∀ label ∈ labels, label.Readable) →
      ∀ store, s.Holds store → ∀ now app level lastNSeconds,
        (Look.mk store now).Answers dump parse app level lastNSeconds := by
  refine ⟨fun look => look.answers_iff form, ?_⟩
  intro cfg tsdb labels s run dashboard persisted readable store held now app level lastNSeconds
  have all := readable_run run dashboard persisted readable held
  apply (Look.answers_iff form ⟨store, now⟩ app level lastNSeconds).mpr
  exact fun e inside _ => all app e inside

/-- A store with one entry of ASCII text, and the text that is written for it. -/
def greeting : TsdbEntry := ⟨text "web", text "INFO", text "hello", 5⟩

def greetingText : Bytes :=
  text "[\x7b\"app\":\"web\",\"level\":\"INFO\",\"message\":\"hello\",\"timestamp_ns\":5\x7d]"

/-- A line of a file in Latin-1. -/
def latin1 : LogEntry := ⟨[0x63, 0x61, 0x66, 0xE9], text "/var/log/app.log", [], 0, 1⟩

/-- A line goes through the whole pipeline into the store of the default project. -/
theorem line_through {cfg : Config} (set : cfg.defaultProjectId ≠ []) (tsdb : Tsdb.Store)
    (entry : LogEntry) :
    ∃ s, Run (Step cfg) (initial cfg tsdb) [.source entry true, .consume, .take, .finish 0 1] s ∧
      s.tsdbMap cfg.defaultProjectId =
        some ((((initial cfg tsdb).tsdbMap cfg.defaultProjectId).getD
          (cfg.persisted cfg.defaultProjectId)).insert (tapped cfg ⟨entry, none⟩ 1)) := by
  let start := initial cfg tsdb
  let pushed : State := { start with ring := [⟨entry, none⟩] }
  let queued : State := { start with tasks := [⟨entry, none⟩] }
  let taken : State := { start with running := [⟨entry, none⟩] }
  have room : start.ring.length < ringCapacity := Nat.succ_pos _
  have source : Step cfg start (.source entry true) pushed := .source entry fun _ => room
  have consume : Step cfg pushed .consume queued := .consume rfl
  have take : Step cfg queued .take taken := .take rfl cfg.someWorker
  have finish : Step cfg taken (.finish 0 1) _ := .finish 1 rfl
  refine ⟨_, (((Run.single source).snoc consume).snoc take).snoc finish, ?_⟩
  unfold processEntry entryCallback ingestToProject
  simp only [if_pos set, if_neg set, Function.update_self]
  rfl

/-- The same line in UTF-8. -/
def cafe : LogEntry := ⟨[0x63, 0x61, 0x66, 0xC3, 0xA9], text "/var/log/app.log", [], 0, 1⟩

/-- A store with one entry is queried, and one that a line of a file has reached. -/
theorem queries_answered_cafe : ∃ dump parse, Json.TextForm dump parse ∧
    dump (.array [entryJson greeting]) = some greetingText ∧
    (Look.mk (Store.empty.insert greeting) 5).Answers dump parse (text "web") [] 3600 ∧
    ∃ labels s store, Run (Step twoTenants) (initial twoTenants Store.empty) labels s ∧
      s.tsdbMap twoTenants.defaultProjectId = some store ∧
      tapped twoTenants ⟨cafe, none⟩ 1 ∈ store.vector (text "/var/log/app.log") ∧
      (Look.mk store 1).Answers dump parse (text "/var/log/app.log") [] 3600 := by
  have readable : greeting.Readable := ⟨by decide, by decide, by decide⟩
  have writable : (Json.array [entryJson greeting]).Writable :=
    (entries_writable [greeting]).mpr fun e listed => List.mem_singleton.mp listed ▸ readable
  obtain ⟨dump, parse, form, written⟩ := Json.TextForm.exists_writing writable greetingText
  obtain ⟨each, always⟩ := queries_answered form
  have empty : Store.empty.Readable := by
    intro app e inside
    cases inside
  have all := empty.insert readable
  have first := (each ⟨Store.empty.insert greeting, 5⟩ (text "web") [] 3600).mpr
    fun e inside _ => all _ e inside
  have set : twoTenants.defaultProjectId ≠ [] := by decide
  obtain ⟨s, run, stored⟩ := line_through set Store.empty cafe
  have line : Readable cafe := ⟨by decide, by decide, by decide⟩
  have sources : ∀ label ∈ [Label.source cafe true, .consume, .take, .finish 0 1],
      label.Readable := by
    simp [line, Label.Readable]
  have second := always twoTenants Store.empty _ s run empty (fun _ => empty) sources _
    (.inr ⟨_, stored⟩) 1 (text "/var/log/app.log") [] 3600
  refine ⟨dump, parse, form, written, first, _, s, _, run, stored, ?_, second⟩
  have own : text "/var/log/app.log" = (tapped twoTenants ⟨cafe, none⟩ 1).appName := rfl
  rw [own]
  change _ ∈ (Store.empty.insert (tapped twoTenants ⟨cafe, none⟩ 1)).vector _
  rw [insert_vector, if_pos rfl]
  exact List.mem_singleton_self _

/-- It is stored for the default project, and its app cannot be queried. -/
theorem latin1_unanswered : ∃ labels s store,
    Run (Step twoTenants) (initial twoTenants Store.empty) labels s ∧
    s.tsdbMap twoTenants.defaultProjectId = some store ∧
    (∃ dump parse, Json.TextForm dump parse) ∧
    ∀ dump parse, Json.TextForm dump parse →
      ¬(Look.mk store 1).Answers dump parse (text "/var/log/app.log") [] 3600 := by
  have set : twoTenants.defaultProjectId ≠ [] := by decide
  obtain ⟨s, run, stored⟩ := line_through set Store.empty latin1
  obtain ⟨dump, parse, form, -⟩ := Json.TextForm.exists_writing (Json.writable_integer 0) []
  refine ⟨_, s, _, run, stored, ⟨dump, parse, form⟩, fun dump parse form answers => ?_⟩
  have readable := (Look.answers_iff form _ _ _ _).mp answers
  have inside : tapped twoTenants ⟨latin1, none⟩ 1 ∈
      (Store.empty.insert (tapped twoTenants ⟨latin1, none⟩ 1)).vector
        (text "/var/log/app.log") := by
    have own : text "/var/log/app.log" = (tapped twoTenants ⟨latin1, none⟩ 1).appName := rfl
    rw [insert_vector, if_pos own]
    exact List.mem_singleton_self _
  have line := (readable _ inside (by decide)).2.2
  exact absurd line (by decide)

end LogMonitor.Server
