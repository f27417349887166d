import LogMonitor.TsdbBinary
import LogMonitor.SaveFile

/-!
A clean restart: `stop` writes the store, the constructor reads it back and
evicts. For windows of at most a day the eviction is invisible, and so only the
reduction of the levels can be seen in the answers.
-/

namespace LogMonitor.Tsdb
open Library Library.ByteString Library.BinaryStream

/-- What happens around one load: the values of uninitialised fields, whether some
allocation on the way throws, and the clock reading of the eviction. -/
structure LoadEnvironment where
  garbage : Nat → Nat → Int64
  outOfMemory : Bool
  now : Int

/-- The constructor's load; every exception ends in the empty store. -/
def loadFromDisk (env : LoadEnvironment) (file : Option Bytes) : Store :=
  match file with
  | none => Store.empty
  | some bytes =>
    if env.outOfMemory then Store.empty
    else
      match readBinary env.garbage ⟨bytes, false⟩ Store.empty with
      | none => Store.empty
      | some (store, _) => store.evictOldEntries env.now

inductive Operation where
  | insert (entry : TsdbEntry)
  | evictOldEntries (now : Int)

def Store.apply (store : Store) : Operation → Store
  | .insert entry => store.insert entry
  | .evictOldEntries now => store.evictOldEntries now

theorem Keyed.evictOldEntries {store : Store} (keyed : Keyed store) (now : Int) :
    Keyed (store.evictOldEntries now) := by
  intro app kept present e inside
  simp only [Store.evictOldEntries, Table.lookup_filterMap, Option.bind_eq_some_iff] at present
  obtain ⟨vec, there, keeping⟩ := present
  simp only [keepRecent, Option.ite_none_left_eq_some, Option.some.injEq] at keeping
  rw [← keeping.2] at inside
  exact keyed app vec there e (List.mem_of_mem_filter inside)

theorem keyed_operations (operations : List Operation) {store : Store} (keyed : Keyed store) :
    Keyed (operations.foldl Store.apply store) := by
  induction operations generalizing store with
  | nil => exact keyed
  | cons operation operations ih =>
    rw [List.foldl_cons]
    cases operation with
    | insert entry => exact ih (keyed.insert entry)
    | evictOldEntries now => exact ih (keyed.evictOldEntries now)

/-- The store with every level reduced to what the file format can tell. -/
def Store.normalised (store : Store) : Store where
  data := store.data.filterMap fun vec =>
    some (vec.map fun e => { e with level := storedLevel e.level })
  lastSeen := store.lastSeen

/-- The entries a clean restart leaves to one app. -/
theorem restart_lookup {store : Store} (keyed : Keyed store) (fits : Fits store)
    {env : LoadEnvironment} (memory : env.outOfMemory = false) (files : Files) (app : Bytes) :
    ((loadFromDisk env (writeToDisk (.sound (writeBinary store).length) (writeBinary store)
      files).target).data.lookup app).getD [] =
      ((store.normalised.data.lookup app).getD []).filter fun entry =>
        env.now - evictionAgeNs ≤ entry.timestampNs.toInt := by
  have read := readBinary_whole env.garbage fits []
  rw [List.append_nil] at read
  rw [writeToDisk_sound]
  simp only [loadFromDisk, memory, Bool.false_eq_true, if_false, read, evictOldEntries_lookup,
    reloaded_lookup, Store.normalised, Table.lookup_filterMap]
  cases present : store.data.lookup app with
  | none => rfl
  | some vec =>
    simp only [Option.map_some, Option.bind_some, Option.getD_some, keyed.map_persisted present]

/-- Within a day, the eviction at load time is invisible. -/
theorem restart_getLogs {store : Store} (keyed : Keyed store) (fits : Fits store)
    {env : LoadEnvironment} (memory : env.outOfMemory = false) (files : Files) {now : Int}
    (later : env.now ≤ now) (app level : Bytes) {lastNSeconds : Int} (day : lastNSeconds ≤ 86400) :
    (loadFromDisk env (writeToDisk (.sound (writeBinary store).length) (writeBinary store)
      files).target).getLogs now app level lastNSeconds =
      store.normalised.getLogs now app level lastNSeconds := by
  rw [getLogs_eq, getLogs_eq, restart_lookup keyed fits memory, List.filter_filter]
  apply List.filter_congr
  intro entry _
  by_cases recent : windowStart now lastNSeconds ≤ entry.timestampNs.toInt
  · have kept : env.now - evictionAgeNs ≤ entry.timestampNs.toInt := by
      unfold windowStart at recent
      unfold evictionAgeNs
      omega
    simp [kept]
  · simp [matchesQuery, recent]

def codedLevels : List Bytes := [text "INFO", text "WARN", text "ERROR", text "CRITICAL"]

theorem storedLevel_coded {level : Bytes} (coded : level ∈ codedLevels) :
    storedLevel level = level := by
  unfold storedLevel
  split
  next => rfl
  next other =>
    rcases List.mem_cons.mp coded with rfl | loud
    · rfl
    · exact absurd loud other

theorem mem_insert {store : Store} {entry e : TsdbEntry} {app : Bytes}
    (inside : e ∈ ((store.insert entry).data.lookup app).getD []) :
    e = entry ∨ e ∈ (store.data.lookup app).getD [] := by
  by_cases same : app = entry.appName
  · subst same
    simp only [Store.insert, Store.see, AList.lookup_insert, Option.getD_some] at inside
    exact mem_insertSorted inside
  · simp only [Store.insert, Store.see, AList.lookup_insert_ne same] at inside
    exact .inr inside

theorem mem_operations (operations : List Operation) {store : Store} {app : Bytes} {e : TsdbEntry}
    (inside : e ∈ ((operations.foldl Store.apply store).data.lookup app).getD []) :
    .insert e ∈ operations ∨ e ∈ (store.data.lookup app).getD [] := by
  induction operations generalizing store with
  | nil => exact .inr inside
  | cons operation operations ih =>
    rw [List.foldl_cons] at inside
    rcases ih inside with later | now
    · exact .inl (List.mem_cons_of_mem _ later)
    · cases operation with
      | insert entry =>
        rcases mem_insert now with rfl | old
        · exact .inl (List.mem_cons_self ..)
        · exact .inr old
      | evictOldEntries t =>
        rw [Store.apply, evictOldEntries_lookup] at now
        exact .inr (List.mem_of_mem_filter now)

theorem normalised_getLogs {store : Store} {app : Bytes}
    (coded : ∀ e ∈ (store.data.lookup app).getD [], e.level ∈ codedLevels) (now : Int)
    (level : Bytes) (lastNSeconds : Int) :
    store.normalised.getLogs now app level lastNSeconds =
      store.getLogs now app level lastNSeconds := by
  rw [getLogs_eq, getLogs_eq, Store.normalised, Table.lookup_filterMap]
  cases present : store.data.lookup app with
  | none => rfl
  | some vec =>
    rw [present] at coded
    have same : vec.map (fun e => { e with level := storedLevel e.level }) = vec.map id :=
      List.map_congr_left fun e inside => by rw [storedLevel_coded (coded e inside)]; rfl
    rw [Option.bind_some, same, List.map_id]

structure SameAnswers (first second : Store) (now : Int) (app level : Bytes) (lastNSeconds : Int) :
    Prop where
  logs : first.getLogs now app level lastNSeconds = second.getLogs now app level lastNSeconds
  count : first.getCount now app level lastNSeconds = second.getCount now app level lastNSeconds
  counts : first.getCountsByLevel now app lastNSeconds = second.getCountsByLevel now app lastNSeconds

theorem SameAnswers.of_logs {first second : Store} {now : Int} {app : Bytes} {lastNSeconds : Int}
    (same : ∀ level, first.getLogs now app level lastNSeconds =
      second.getLogs now app level lastNSeconds) (level : Bytes) :
    SameAnswers first second now app level lastNSeconds where
  logs := same level
  count := by rw [getCount_eq, getCount_eq, same]
  counts := by rw [getCountsByLevel_eq, getCountsByLevel_eq, same]

/-- What `stop` and the constructor make of a store, when the disk has room. -/
def Store.restarted (store : Store) (env : LoadEnvironment) (files : Files) : Store :=
  loadFromDisk env
    (writeToDisk (.sound (writeBinary store).length) (writeBinary store) files).target

/-- After a clean restart the store answers as before, except that a level the format has no
code for has become `INFO`; with coded levels only, nothing has changed. -/
theorem restart_answers (operations : List Operation)
    (fits : Fits (operations.foldl Store.apply Store.empty)) (env : LoadEnvironment)
    (memory : env.outOfMemory = false) (files : Files) (now : Int) (later : env.now ≤ now)
    (app level : Bytes) (lastNSeconds : Int) (day : lastNSeconds ≤ 86400) :
    let store := operations.foldl Store.apply Store.empty
    SameAnswers (store.restarted env files) store.normalised now app level lastNSeconds ∧
      ((∀ entry, .insert entry ∈ operations → entry.level ∈ codedLevels) →
        SameAnswers (store.restarted env files) store now app level lastNSeconds) := by
  intro store
  have keyed : Keyed store := keyed_operations operations keyed_empty
  have logs := fun level => restart_getLogs keyed fits memory files later app level day
  refine ⟨.of_logs logs level, fun coded => .of_logs (fun level => ?_) level⟩
  rw [Store.restarted, logs]
  apply normalised_getLogs
  intro e inside
  rcases mem_operations operations inside with inserted | none
  · exact coded e inserted
  · simp [Store.empty] at none

theorem restart_answers_coded :
    let store := [Operation.insert ⟨text "web", text "ERROR", text "down", 5⟩].foldl Store.apply
      Store.empty
    SameAnswers (store.restarted ⟨fun _ _ => 0, false, 5⟩ ⟨none, none⟩) store 5 (text "web")
      (text "ERROR") 60 := by
  have only : ([Operation.insert ⟨text "web", text "ERROR", text "down", 5⟩].foldl Store.apply
      Store.empty).data.entries = [⟨text "web", [⟨text "web", text "ERROR", text "down", 5⟩]⟩] := rfl
  have fits : Fits ([Operation.insert ⟨text "web", text "ERROR", text "down", 5⟩].foldl Store.apply
      Store.empty) := by
    constructor <;> rw [only] <;> simp [text]
  refine (restart_answers _ fits ⟨fun _ _ => 0, false, 5⟩ rfl ⟨none, none⟩ 5 le_rfl (text "web")
    (text "ERROR") 60 (by decide)).2 ?_
  intro entry inserted
  obtain rfl := Operation.insert.inj (List.mem_singleton.mp inserted)
  decide

/-- An entry with another level is no longer counted under it. -/
theorem restart_forgets_level :
    let store := [Operation.insert ⟨text "web", text "DEBUG", text "ready", 5⟩].foldl Store.apply
      Store.empty
    store.getCount 5 (text "web") (text "DEBUG") 60 = 1 ∧
      (store.restarted ⟨fun _ _ => 0, false, 5⟩ ⟨none, none⟩).getCount 5 (text "web")
        (text "DEBUG") 60 = 0 := by
  have restarted := restart_getLogs oneEntry_keyed oneEntry_fits
    (show (⟨fun _ _ => 0, false, 5⟩ : LoadEnvironment).outOfMemory = false from rfl) ⟨none, none⟩
    (show (5 : Int) ≤ 5 from le_rfl) (text "web") (text "DEBUG") (show (60 : Int) ≤ 86400 by decide)
  refine ⟨rfl, ?_⟩
  rw [getCount_eq]
  exact (congrArg List.length restarted).trans rfl

end LogMonitor.Tsdb
