import LogMonitor.TsdbEviction
import LogMonitor.Library.Transition
import Mathlib.Data.List.DropRight
import Mathlib.Order.Bounds.Basic

/-!
The store over many processes: insertions, evictions and restarts in any order.
What is stored is what was inserted less what some later eviction dropped, the
vectors stay ordered although loading does not sort them, and `last_seen_`
remembers what its process has seen, evicted or not.
-/

namespace LogMonitor.Tsdb
open Library Library.ByteString Library.SortedList Library.BinaryStream Library.Transition

/-- What happens to a store; a restart also has the clock of its load and the files it meets. -/
inductive Happening where
  | insert (entry : TsdbEntry)
  | evictOldEntries (now : Int)
  | restart (env : LoadEnvironment) (files : Files)

/-- A restart is one that the file format and the memory can take. -/
inductive Step : Store → Happening → Store → Prop
  | insert (store : Store) (entry : TsdbEntry) : Step store (.insert entry) (store.insert entry)
  | evictOldEntries (store : Store) (now : Int) :
      Step store (.evictOldEntries now) (store.evictOldEntries now)
  | restart {store : Store} {env : LoadEnvironment} (files : Files) (fits : Fits store)
      (memory : env.outOfMemory = false) : Step store (.restart env files) (store.restarted env files)

/-- The cutoff of the eviction it runs, if it runs one. -/
def Happening.cutoff : Happening → Option Int
  | .insert _ => none
  | .evictOldEntries now => some (now - evictionAgeNs)
  | .restart env _ => some (env.now - evictionAgeNs)

def Happening.isRestart : Happening → Bool
  | .restart _ _ => true
  | _ => false

def Happening.keeps (happening : Happening) (entry : TsdbEntry) : Bool :=
  happening.cutoff.all (· ≤ entry.time)

def normalise (entry : TsdbEntry) : TsdbEntry := { entry with level := storedLevel entry.level }

def afterwards (later : List Happening) (entry : TsdbEntry) : TsdbEntry :=
  if later.any Happening.isRestart then normalise entry else entry

/-- The entries inserted for an app that no later eviction has dropped. -/
def survivors (app : Bytes) : List Happening → List TsdbEntry
  | [] => []
  | .insert entry :: later =>
    if entry.appName = app ∧ later.all (·.keeps entry) then
      afterwards later entry :: survivors app later
    else survivors app later
  | .evictOldEntries _ :: later => survivors app later
  | .restart _ _ :: later => survivors app later

def Happening.insertedFor (app : Bytes) : Happening → Option Int
  | .insert entry => if entry.appName = app then some entry.time else none
  | _ => none

/-- The timestamps that the running process has seen for an app: those of the file it
loaded, which has what survived until then, and those inserted since. -/
def seenSinceStart (app : Bytes) (history : List Happening) : List Int :=
  let before := (history.rdropWhile fun happening => !happening.isRestart).dropLast
  let since := history.rtakeWhile fun happening => !happening.isRestart
  (survivors app before).map TsdbEntry.time ++ since.filterMap (Happening.insertedFor app)

@[simp] theorem afterwards_time (later : List Happening) (entry : TsdbEntry) :
    (afterwards later entry).time = entry.time := by
  unfold afterwards
  split <;> rfl

theorem normalise_afterwards (later : List Happening) (entry : TsdbEntry) :
    normalise (afterwards later entry) = normalise entry := by
  have again : storedLevel (storedLevel entry.level) = storedLevel entry.level := by
    apply storedLevel_coded
    unfold storedLevel
    split
    next loud => exact List.mem_cons_of_mem _ loud
    next => exact List.mem_cons_self ..
  unfold afterwards
  split
  next => simp only [normalise, again]
  next => rfl

theorem afterwards_append (earlier later : List Happening) (entry : TsdbEntry) :
    afterwards (earlier ++ later) entry = afterwards later (afterwards earlier entry) := by
  unfold afterwards
  rw [List.any_append]
  by_cases first : earlier.any Happening.isRestart
  · by_cases second : later.any Happening.isRestart
    · have again := normalise_afterwards earlier entry
      simp only [afterwards, first, if_true] at again
      simp only [first, second, Bool.or_true, if_true, again]
    · simp [first, second]
  · simp [first]

section History

variable (app : Bytes) (history : List Happening)

theorem survivors_insert (entry : TsdbEntry) :
    survivors app (history ++ [.insert entry]) =
      survivors app history ++ if entry.appName = app then [entry] else [] := by
  induction history with
  | nil => simp [survivors, afterwards]
  | cons first history ih =>
    cases first with
    | insert old =>
      have kept : (history ++ [Happening.insert entry]).all (·.keeps old) =
          history.all (·.keeps old) := by
        rw [List.all_append]
        exact Bool.and_true _
      have same : afterwards (history ++ [.insert entry]) old = afterwards history old :=
        afterwards_append history [.insert entry] old
      simp only [List.cons_append, survivors, ih, kept, same]
      split
      next => rfl
      next => rfl
    | evictOldEntries now => exact ih
    | restart env files => exact ih

/-- An eviction, alone or in a restart, takes its share of the survivors. -/
theorem survivors_snoc {happening : Happening} (other : ∀ entry, happening ≠ .insert entry) :
    survivors app (history ++ [happening]) =
      ((survivors app history).filter happening.keeps).map (afterwards [happening]) := by
  induction history with
  | nil =>
    cases happening with
    | insert entry => exact absurd rfl (other entry)
    | evictOldEntries now => rfl
    | restart env files => rfl
  | cons first history ih =>
    cases first with
    | insert old =>
      have time : happening.keeps (afterwards history old) = happening.keeps old := by
        simp only [Happening.keeps, afterwards_time]
      simp only [List.cons_append, survivors, ih, afterwards_append, List.all_append, List.all_cons,
        List.all_nil, Bool.and_true]
      by_cases mine : old.appName = app ∧ history.all (·.keeps old)
      · by_cases kept : happening.keeps old = true
        · rw [if_pos ⟨mine.1, by rw [mine.2, kept]; rfl⟩, if_pos mine,
            List.filter_cons_of_pos (time.trans kept), List.map_cons]
        · rw [if_neg fun both => kept (Bool.and_eq_true_iff.mp both.2).2, if_pos mine,
            List.filter_cons_of_neg (by rwa [time])]
      · rw [if_neg fun both => mine ⟨both.1, (Bool.and_eq_true_iff.mp both.2).1⟩, if_neg mine]
    | evictOldEntries now => exact ih
    | restart env files => exact ih

end History

section SeenSinceStart

variable (app : Bytes) (history : List Happening)

theorem seenSinceStart_snoc {happening : Happening} (running : happening.isRestart = false) :
    seenSinceStart app (history ++ [happening]) =
      seenSinceStart app history ++ (happening.insertedFor app).toList := by
  have here : (!happening.isRestart) = true := by rw [running]; rfl
  simp only [seenSinceStart,
    List.rdropWhile_concat_pos (fun happening => !happening.isRestart) history happening here,
    List.rtakeWhile_concat_pos (fun happening => !happening.isRestart) history happening here,
    List.filterMap_append, List.append_assoc]
  cases inserted : happening.insertedFor app with
  | none => simp [inserted]
  | some time => simp [inserted]

theorem seenSinceStart_restart (env : LoadEnvironment) (files : Files) :
    seenSinceStart app (history ++ [.restart env files]) =
      (survivors app history).map TsdbEntry.time := by
  have stops : ¬(!(Happening.restart env files).isRestart) = true := by simp [Happening.isRestart]
  simp only [seenSinceStart,
    List.rdropWhile_concat_neg (fun happening => !happening.isRestart) history _ stops,
    List.rtakeWhile_concat_neg (fun happening => !happening.isRestart) history _ stops,
    List.dropLast_concat, List.filterMap_nil, List.append_nil]

end SeenSinceStart

structure Represents (history : List Happening) (store : Store) : Prop where
  nonempty : ∀ app vec, store.data.lookup app = some vec → vec ≠ []
  sorted : Sorted store
  keyed : Keyed store
  stored : ∀ app, (store.vector app).Perm (survivors app history)
  lastSeen : ∀ app, IsGreatest {time | time = 0 ∨ time ∈ seenSinceStart app history}
    (store.getLastSeen app).toInt

/-- What is read back is ordered as it was written. -/
theorem reloaded_vector (store : Store) (app : Bytes) :
    store.reloaded.vector app = (store.vector app).map (persisted app) := by
  unfold Store.vector
  rw [reloaded_lookup]
  cases store.data.lookup app with
  | none => rfl
  | some vec => rfl

theorem restarted_eq {store : Store} (fits : Fits store) {env : LoadEnvironment}
    (memory : env.outOfMemory = false) (files : Files) :
    store.restarted env files = store.reloaded.evictOldEntries env.now := by
  have read := readBinary_whole env.garbage fits []
  rw [List.append_nil] at read
  rw [Store.restarted, writeToDisk_sound]
  simp only [loadFromDisk, memory, Bool.false_eq_true, if_false, read]

theorem Keyed.persisted_eq {store : Store} (keyed : Keyed store) {app : Bytes} {entry : TsdbEntry}
    (inside : entry ∈ store.vector app) : persisted app entry = normalise entry := by
  unfold Store.vector at inside
  cases present : store.data.lookup app with
  | none => simp [present] at inside
  | some vec =>
    rw [present] at inside
    rw [persisted, ← keyed app vec present entry inside, normalise]

theorem evictOldEntries_nonempty {store : Store} {now : Int} {app : Bytes} {kept : List TsdbEntry}
    (present : (store.evictOldEntries now).data.lookup app = some kept) : kept ≠ [] := by
  simp only [Store.evictOldEntries, Table.lookup_filterMap, Option.bind_eq_some_iff] at present
  obtain ⟨vec, _, keeping⟩ := present
  simp only [keepRecent, Option.ite_none_left_eq_some, Option.some.injEq] at keeping
  rw [← keeping.2]
  exact keeping.1

theorem insertSorted_ne_nil (vec : List TsdbEntry) (entry : TsdbEntry) :
    insertSorted vec entry ≠ [] := by
  unfold insertSorted
  split
  next => simp
  next =>
    split
    next => simp
    next => simp

theorem represents_empty : Represents [] Store.empty where
  nonempty app vec present := by simp [Store.empty] at present
  sorted := sorted_empty
  keyed app vec present := by simp [Store.empty] at present
  stored app := List.Perm.refl _
  lastSeen app := by
    constructor
    · exact .inl rfl
    · intro time seen
      rcases seen with rfl | inside
      · exact le_rfl
      · simp [seenSinceStart, survivors] at inside

theorem Represents.insert {history : List Happening} {store : Store}
    (represents : Represents history store) (entry : TsdbEntry) :
    Represents (history ++ [.insert entry]) (store.insert entry) where
  nonempty app vec present := by
    by_cases same : app = entry.appName
    · subst same
      simp only [Store.insert, Store.see, AList.lookup_insert, Option.some.injEq] at present
      rw [← present]
      exact insertSorted_ne_nil _ entry
    · simp only [Store.insert, Store.see, AList.lookup_insert_ne same] at present
      exact represents.nonempty app vec present
  sorted := represents.sorted.insert entry
  keyed := represents.keyed.insert entry
  stored app := by
    rw [insert_vector, survivors_insert]
    by_cases same : entry.appName = app
    · rw [if_pos same.symm, if_pos same, insertSorted_eq (represents.sorted app)]
      calc insertOrdered TsdbEntry.time entry (store.vector app)
        List.Perm _ (entry :: store.vector app) := perm_insertOrdered entry _
        List.Perm _ (entry :: survivors app history) := (represents.stored app).cons entry
        List.Perm _ (survivors app history ++ [entry]) := (List.perm_append_singleton entry _).symm
    · rw [if_neg (Ne.symm same), if_neg same, List.append_nil]
      exact represents.stored app
  lastSeen app := by
    rw [seenSinceStart_snoc app history rfl]
    have before := represents.lastSeen app
    by_cases same : entry.appName = app
    · have seen : (store.insert entry).getLastSeen app =
          latest (store.getLastSeen app) entry.timestampNs := by
        simp [Store.getLastSeen, Store.insert, Store.see, same]
      have enlarged : {time | time = 0 ∨ time ∈ seenSinceStart app history ++ [entry.time]} =
          Insert.insert entry.time {time | time = 0 ∨ time ∈ seenSinceStart app history} := by
        ext time
        simp only [Set.mem_ofPred_eq, Set.mem_insert_iff, List.mem_append, List.mem_singleton]
        tauto
      rw [seen, latest_toInt, Happening.insertedFor, if_pos same, Option.toList_some, enlarged,
        max_comm]
      exact before.insert entry.time
    · have seen : (store.insert entry).getLastSeen app = store.getLastSeen app := by
        simp [Store.getLastSeen, Store.insert, Store.see, Function.update_of_ne (Ne.symm same)]
      rw [seen, Happening.insertedFor, if_neg same, Option.toList_none, List.append_nil]
      exact before

theorem Represents.evictOldEntries {history : List Happening} {store : Store}
    (represents : Represents history store) (now : Int) :
    Represents (history ++ [.evictOldEntries now]) (store.evictOldEntries now) where
  nonempty app vec present := evictOldEntries_nonempty present
  sorted := represents.sorted.evictOldEntries now
  keyed := represents.keyed.evictOldEntries now
  stored app := by
    rw [evictOldEntries_vector, survivors_snoc app history fun _ => Happening.noConfusion]
    have same : afterwards [.evictOldEntries now] = id := rfl
    rw [same, List.map_id]
    exact (represents.stored app).filter _
  lastSeen app := by
    have none : (Happening.evictOldEntries now).insertedFor app = none := rfl
    rw [seenSinceStart_snoc app history rfl, none, Option.toList_none, List.append_nil]
    exact represents.lastSeen app

theorem Represents.restart {history : List Happening} {store : Store}
    (represents : Represents history store) (fits : Fits store) {env : LoadEnvironment}
    (memory : env.outOfMemory = false) (files : Files) :
    Represents (history ++ [.restart env files]) (store.restarted env files) := by
  rw [restarted_eq fits memory files]
  have reloadedKeyed : Keyed store.reloaded := by
    intro app vec present entry inside
    rw [reloaded_lookup] at present
    obtain ⟨old, _, rfl⟩ := Option.map_eq_some_iff.mp present
    obtain ⟨origin, _, rfl⟩ := List.mem_map.mp inside
    rfl
  have reloadedSorted : Sorted store.reloaded := by
    intro app
    rw [reloaded_vector]
    exact List.Pairwise.map _ (fun _ _ less => less) (represents.sorted app)
  refine ⟨fun _ _ => evictOldEntries_nonempty, reloadedSorted.evictOldEntries env.now,
    reloadedKeyed.evictOldEntries env.now, fun app => ?_, fun app => ?_⟩
  · rw [evictOldEntries_vector, reloaded_vector, survivors_snoc app history fun _ => Happening.noConfusion,
      List.map_congr_left fun _ inside => represents.keyed.persisted_eq inside, List.filter_map]
    exact ((represents.stored app).filter _).map _
  · rw [seenSinceStart_restart]
    have times : ∀ time, time ∈ (survivors app history).map TsdbEntry.time ↔
        ∃ entry ∈ store.vector app, time = entry.timestampNs.toInt := by
      intro time
      simp only [List.mem_map, ← (represents.stored app).mem_iff, eq_comm]
      rfl
    simp only [times]
    cases present : store.data.lookup app with
    | none =>
      have absent : (store.data.lookup app).getD [] = [] := by rw [present]; rfl
      have unseen := reloaded_unseen store absent
      simp only [Store.getLastSeen, Store.evictOldEntries, unseen, Store.vector, present,
        Option.getD_none, List.not_mem_nil, false_and, exists_false, or_false]
      exact isGreatest_singleton
    | some vec =>
      obtain ⟨seen, found, greatest⟩ :=
        reloaded_lastSeen store present (represents.nonempty app vec present)
      simp only [Store.getLastSeen, Store.evictOldEntries, found, Store.vector, present,
        Option.getD_some]
      exact greatest

theorem Represents.step {history : List Happening} {store next : Store} {happening : Happening}
    (represents : Represents history store) (step : Step store happening next) :
    Represents (history ++ [happening]) next := by
  cases step with
  | insert entry => exact represents.insert entry
  | evictOldEntries now => exact represents.evictOldEntries now
  | restart files fits memory => exact represents.restart fits memory files

/-- After every history: each listed app has entries, in the order of their timestamps and
under its own name; what is stored is what survived; `last_seen_` is the latest seen. -/
theorem run_represents (history : List Happening) (store : Store)
    (run : Run Step Store.empty history store) : Represents history store :=
  run.invariant Represents represents_empty fun _ _ _ _ _ represents step => represents.step step

theorem run_represents_restart :
    ∃ store, Represents [.insert ⟨text "web", text "DEBUG", text "ready", 5⟩,
        .restart ⟨fun _ _ => 0, false, 5⟩ ⟨none, none⟩] store ∧
      (store.getLastSeen (text "web")).toInt = 5 := by
  have run : Run Step Store.empty ([] ++ [.insert ⟨text "web", text "DEBUG", text "ready", 5⟩] ++
      [.restart ⟨fun _ _ => 0, false, 5⟩ ⟨none, none⟩]) _ :=
    (Run.refl.snoc (.insert Store.empty ⟨text "web", text "DEBUG", text "ready", 5⟩)).snoc
      (.restart ⟨none, none⟩ oneEntry_fits rfl)
  have represents := run_represents _ _ run
  refine ⟨_, represents, represents.lastSeen (text "web") |>.unique ?_⟩
  constructor
  · exact .inr (List.mem_singleton.mpr rfl)
  · intro time seen
    rcases seen with rfl | inside
    · decide
    · exact (List.mem_singleton.mp inside).le

/-- The four bytes of the length wrap around. -/
theorem writeString_overlong {s : Bytes} (size : s.length = 2 ^ 32) :
    writeString s = writeString [] := by
  have zero : encode 4 (2 ^ 32) = encode 4 0 := by decide
  unfold writeString
  rw [size, zero, Nat.mod_self, List.take_zero]
  rfl

theorem restarted_overlong {message : Bytes} (size : message.length = 2 ^ 32)
    (env : LoadEnvironment) (files : Files) :
    (Store.empty.insert ⟨text "web", text "INFO", message, 5⟩).restarted env files =
      (Store.empty.insert ⟨text "web", text "INFO", [], 5⟩).restarted env files := by
  have content : ∀ message : Bytes,
      (Store.empty.insert ⟨text "web", text "INFO", message, 5⟩).data.entries =
        [⟨text "web", [⟨text "web", text "INFO", message, 5⟩]⟩] := fun _ => rfl
  have same : writeBinary (Store.empty.insert ⟨text "web", text "INFO", message, 5⟩) =
      writeBinary (Store.empty.insert ⟨text "web", text "INFO", [], 5⟩) := by
    unfold writeBinary
    simp only [content, writeApps, writeApp, writeEntry, List.map_cons, List.map_nil,
      writeString_overlong size]
    rfl
  unfold Store.restarted
  rw [same]

theorem overlong_lost {message : Bytes} (size : message.length = 2 ^ 32) :
    ¬(((Store.empty.insert ⟨text "web", text "INFO", message, 5⟩).restarted
        ⟨fun _ _ => 0, false, 5⟩ ⟨none, none⟩).vector (text "web")).Perm
      (survivors (text "web") [.insert ⟨text "web", text "INFO", message, 5⟩,
        .restart ⟨fun _ _ => 0, false, 5⟩ ⟨none, none⟩]) := by
  intro same
  have fits : Fits (Store.empty.insert ⟨text "web", text "INFO", [], 5⟩) := by
    have only : (Store.empty.insert ⟨text "web", text "INFO", [], 5⟩).data.entries =
        [⟨text "web", [⟨text "web", text "INFO", [], 5⟩]⟩] := rfl
    constructor <;> rw [only] <;> simp [text]
  have lost : ((Store.empty.insert ⟨text "web", text "INFO", message, 5⟩).restarted
      ⟨fun _ _ => 0, false, 5⟩ ⟨none, none⟩).vector (text "web") =
        [⟨text "web", text "INFO", [], 5⟩] := by
    rw [restarted_overlong size, restarted_eq fits rfl, evictOldEntries_vector, reloaded_vector]
    rfl
  have kept : survivors (text "web") [.insert ⟨text "web", text "INFO", message, 5⟩,
      .restart ⟨fun _ _ => 0, false, 5⟩ ⟨none, none⟩] =
        [⟨text "web", text "INFO", message, 5⟩] := rfl
  rw [lost, kept, List.perm_singleton, List.singleton_inj] at same
  have empty : [] = message := congrArg TsdbEntry.message same
  rw [← empty] at size
  exact absurd size (by decide)

/-- A message of 2^32 bytes does not survive a restart. -/
theorem overlong_message_lost :
    let entry : TsdbEntry := ⟨text "web", text "INFO", List.replicate (2 ^ 32) 0, 5⟩
    let env : LoadEnvironment := ⟨fun _ _ => 0, false, 5⟩
    ¬(((Store.empty.insert entry).restarted env ⟨none, none⟩).vector (text "web")).Perm
      (survivors (text "web") [.insert entry, .restart env ⟨none, none⟩]) :=
  overlong_lost List.length_replicate

end LogMonitor.Tsdb
