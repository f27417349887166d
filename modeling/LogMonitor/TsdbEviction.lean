import LogMonitor.Library.SortedList
import LogMonitor.TsdbRestart

/-!
The vectors stay in the order of their timestamps, so an insertion treats what
a window of at most a day can see alike whether or not older entries are still
there: the background eviction cannot be told from the answers.
-/

namespace LogMonitor.Tsdb
open Library Library.ByteString Library.SortedList

/-- The key of the vectors. -/
def TsdbEntry.time (entry : TsdbEntry) : Int := entry.timestampNs.toInt

/-- The halving search ends at the partition point of an ordered vector. -/
theorem lowerBound_point {vec : List TsdbEntry} (ordered : Ordered TsdbEntry.time vec) (ts : Int64)
    (first len : Nat) (fits : first + len ≤ vec.length)
    (before : ∀ (index : Nat) (inside : index < vec.length), index < first →
      vec[index].time < ts.toInt)
    (after : ∀ (index : Nat) (inside : index < vec.length), first + len ≤ index →
      ts.toInt ≤ vec[index].time) :
    PartitionPoint (fun entry => decide (entry.time < ts.toInt)) vec
      (lowerBound vec ts first len) := by
  induction first, len using lowerBound.induct vec ts with
  | case1 first =>
    rw [lowerBound, if_pos rfl]
    exact .of_indices (fun index inside less => by simpa using before index inside less)
      fun index inside more => by simpa using after index inside more
  | case2 first len nonempty half outside =>
    have beyond := List.getElem?_eq_none_iff.mp outside
    omega
  | case3 first len nonempty half middle found below ih =>
    obtain ⟨bound, rfl⟩ := List.getElem?_eq_some_iff.mp found
    have here : vec[first + len / 2]? = some vec[first + half] := found
    rw [lowerBound, if_neg nonempty]
    simp only [here, below, if_true]
    refine ih (by omega) (fun index inside less => ?_) fun index inside more =>
      after index inside (by omega)
    exact lt_of_le_of_lt (ordered.getElem_le _ bound (by omega)) below
  | case4 first len nonempty half middle found notBelow ih =>
    obtain ⟨bound, rfl⟩ := List.getElem?_eq_some_iff.mp found
    have here : vec[first + len / 2]? = some vec[first + half] := found
    rw [lowerBound, if_neg nonempty]
    simp only [here, notBelow, if_false]
    refine ih (by omega) before fun index inside more => ?_
    exact (not_lt.mp notBelow).trans (ordered.getElem_le _ inside more)

/-- On an ordered vector the two ways of inserting come to one. -/
theorem insertSorted_eq {vec : List TsdbEntry} (ordered : Ordered TsdbEntry.time vec)
    (entry : TsdbEntry) : insertSorted vec entry = insertOrdered TsdbEntry.time entry vec := by
  unfold insertSorted insertOrdered
  cases ends : vec.getLast? with
  | none => rw [List.getLast?_eq_none_iff.mp ends]; rfl
  | some back =>
    by_cases last : back.timestampNs.toInt ≤ entry.timestampNs.toInt
    · have all : ∀ other ∈ vec, other.time ≤ entry.time := fun other inside =>
        (ordered.le_getLast ends inside).trans last
      simp only [if_pos last, if_pos all]
    · have some : ¬∀ other ∈ vec, other.time ≤ entry.time := fun all =>
        last (all back (List.mem_of_getLast? ends))
      have point := lowerBound_point ordered entry.timestampNs 0 vec.length (by omega)
        (fun index inside less => by omega) (fun index inside more => by omega)
      simp only [if_neg last, if_neg some, point.take, point.drop]
      rfl

/-- What `data_[app]` gives, without the vector it would create. -/
def Store.vector (store : Store) (app : Bytes) : List TsdbEntry := (store.data.lookup app).getD []

theorem insert_vector (store : Store) (entry : TsdbEntry) (app : Bytes) :
    (store.insert entry).vector app =
      if app = entry.appName then insertSorted (store.vector app) entry else store.vector app := by
  unfold Store.vector
  by_cases same : app = entry.appName
  · subst same
    simp only [Store.insert, Store.see, AList.lookup_insert, Option.getD_some, if_true]
  · simp only [Store.insert, Store.see, AList.lookup_insert_ne same, if_neg same]

theorem evictOldEntries_vector (store : Store) (now : Int) (app : Bytes) :
    (store.evictOldEntries now).vector app =
      (store.vector app).filter fun entry => now - evictionAgeNs ≤ entry.time :=
  evictOldEntries_lookup store now app

def Sorted (store : Store) : Prop := ∀ app, Ordered TsdbEntry.time (store.vector app)

theorem sorted_empty : Sorted Store.empty := fun _ => List.Pairwise.nil

theorem Sorted.insert {store : Store} (sorted : Sorted store) (entry : TsdbEntry) :
    Sorted (store.insert entry) := by
  intro app
  rw [insert_vector]
  split
  next =>
    rw [insertSorted_eq (sorted app)]
    exact (sorted app).insertOrdered entry
  next => exact sorted app

theorem Sorted.evictOldEntries {store : Store} (sorted : Sorted store) (now : Int) :
    Sorted (store.evictOldEntries now) := by
  intro app
  rw [evictOldEntries_vector]
  exact (sorted app).filter _

theorem Sorted.apply {store : Store} (sorted : Sorted store) (operation : Operation) :
    Sorted (store.apply operation) := by
  cases operation with
  | insert entry => exact sorted.insert entry
  | evictOldEntries now => exact sorted.evictOldEntries now

def Store.recent (store : Store) (cutoff : Int) (app : Bytes) : List TsdbEntry :=
  (store.vector app).filter fun entry => cutoff ≤ entry.time

/-- The recent part after an insertion depends on the recent part before it only. -/
theorem insert_recent {store : Store} (sorted : Sorted store) (entry : TsdbEntry) (cutoff : Int)
    (app : Bytes) :
    (store.insert entry).recent cutoff app =
      if app = entry.appName ∧ cutoff ≤ entry.time then
        insertOrdered TsdbEntry.time entry (store.recent cutoff app)
      else store.recent cutoff app := by
  unfold Store.recent
  rw [insert_vector]
  by_cases same : app = entry.appName
  · rw [if_pos same, insertSorted_eq (sorted app), filter_insertOrdered]
    by_cases young : cutoff ≤ entry.time
    · rw [if_pos young, if_pos ⟨same, young⟩]
    · rw [if_neg young, if_neg fun both => young both.2]
  · rw [if_neg same, if_neg fun both => same both.1]

/-- An eviction cannot reach what is recent at a later time. -/
theorem evictOldEntries_recent (store : Store) {time cutoff : Int}
    (later : time - evictionAgeNs ≤ cutoff) (app : Bytes) :
    (store.evictOldEntries time).recent cutoff app = store.recent cutoff app := by
  unfold Store.recent
  rw [evictOldEntries_vector, List.filter_filter]
  apply List.filter_congr
  intro entry _
  by_cases young : cutoff ≤ entry.time
  · simp [young, later.trans young]
  · simp [young]

def inserts : List Operation → List TsdbEntry
  | [] => []
  | .insert entry :: operations => entry :: inserts operations
  | .evictOldEntries _ :: operations => inserts operations

/-- The recent part of a store as a function of what was inserted alone. -/
theorem operations_recent (operations : List Operation) {store : Store} (sorted : Sorted store)
    {cutoff : Int}
    (clock : ∀ time, .evictOldEntries time ∈ operations → time - evictionAgeNs ≤ cutoff)
    (app : Bytes) :
    (operations.foldl Store.apply store).recent cutoff app =
      (inserts operations).foldl (fun recent entry =>
        if app = entry.appName ∧ cutoff ≤ entry.time then
          insertOrdered TsdbEntry.time entry recent
        else recent) (store.recent cutoff app) := by
  induction operations generalizing store with
  | nil => rfl
  | cons operation operations ih =>
    have rest := ih (sorted.apply operation) fun time inside =>
      clock time (List.mem_cons_of_mem _ inside)
    rw [List.foldl_cons, rest]
    cases operation with
    | insert entry => rw [Store.apply, insert_recent sorted, inserts, List.foldl_cons]
    | evictOldEntries time =>
      rw [Store.apply, inserts, evictOldEntries_recent store (clock time (List.mem_cons_self ..))]

theorem getLogs_recent (store : Store) (now : Int) (app level : Bytes) {lastNSeconds : Int}
    (day : lastNSeconds ≤ 86400) :
    store.getLogs now app level lastNSeconds =
      (store.recent (now - evictionAgeNs) app).filter
        (matchesQuery (windowStart now lastNSeconds) level) := by
  rw [getLogs_eq, Store.recent, List.filter_filter]
  apply List.filter_congr
  intro entry _
  by_cases seen : windowStart now lastNSeconds ≤ entry.timestampNs.toInt
  · have young : now - evictionAgeNs ≤ entry.time := by
      unfold windowStart at seen
      unfold evictionAgeNs TsdbEntry.time
      omega
    simp [young]
  · simp [matchesQuery, seen]

/-- Two runs from the same store with the same insertions answer alike, wherever the
evictions stand in them, as long as none read a later clock than the query. -/
theorem eviction_invisible (store : Store) (sorted : Sorted store) (first second : List Operation)
    (same : inserts first = inserts second) (now : Int)
    (firstClock : ∀ time, .evictOldEntries time ∈ first → time ≤ now)
    (secondClock : ∀ time, .evictOldEntries time ∈ second → time ≤ now)
    (app level : Bytes) (lastNSeconds : Int) (day : lastNSeconds ≤ 86400) :
    SameAnswers (first.foldl Store.apply store) (second.foldl Store.apply store) now app level
      lastNSeconds := by
  refine SameAnswers.of_logs (fun level => ?_) level
  rw [getLogs_recent _ _ _ _ day, getLogs_recent _ _ _ _ day,
    operations_recent first sorted fun time inside => by have := firstClock time inside; omega,
    operations_recent second sorted fun time inside => by have := secondClock time inside; omega,
    same]

/-- The theorem at an entry that one run evicts and the other keeps. -/
theorem eviction_invisible_once :
    let entry : TsdbEntry := ⟨text "web", text "ERROR", text "down", 5⟩
    let later := 5 + evictionAgeNs + 1
    SameAnswers ([.insert entry, .evictOldEntries later].foldl Store.apply Store.empty)
      ([.insert entry].foldl Store.apply Store.empty) later (text "web") (text "ERROR") 86400 := by
  intro entry later
  refine eviction_invisible Store.empty sorted_empty [.insert entry, .evictOldEntries later]
    [.insert entry] rfl later ?_ ?_ (text "web") (text "ERROR") 86400 le_rfl
  · intro time inside
    simp only [List.mem_cons, reduceCtorEq, Operation.evictOldEntries.injEq, List.not_mem_nil,
      or_false, false_or] at inside
    exact inside.le
  · intro time inside
    simp at inside

theorem inserts_append (first second : List Operation) :
    inserts (first ++ second) = inserts first ++ inserts second := by
  induction first with
  | nil => rfl
  | cons operation first ih =>
    cases operation with
    | insert entry => exact congrArg (entry :: ·) ih
    | evictOldEntries now => exact ih

/-- A store, if it is there, is what inserting the entries has made of its file, with
evictions now and then. -/
def Rebuilds (file : Store) (entries : List TsdbEntry) : Option Store → Prop
  | none => entries = []
  | some store => ∃ operations : List Operation,
      store = operations.foldl Store.apply file ∧ inserts operations = entries

section Rebuilds

variable {file : Store} {entries : List TsdbEntry} {current : Option Store}

theorem Rebuilds.create (rebuilds : Rebuilds file entries current) :
    Rebuilds file entries (some (current.getD file)) := by
  cases current with
  | none => exact ⟨[], rfl, rebuilds.symm⟩
  | some store => exact rebuilds

theorem Rebuilds.apply (rebuilds : Rebuilds file entries current) (operation : Operation) :
    Rebuilds file (entries ++ inserts [operation])
      (some ((current.getD file).apply operation)) := by
  obtain ⟨operations, shape, inserted⟩ := rebuilds.create
  refine ⟨operations ++ [operation], ?_, ?_⟩
  · rw [List.foldl_append, ← shape]
    rfl
  · rw [inserts_append, inserted]

theorem Rebuilds.insert (rebuilds : Rebuilds file entries current) (entry : TsdbEntry) :
    Rebuilds file (entries ++ [entry]) (some ((current.getD file).insert entry)) :=
  rebuilds.apply (.insert entry)

theorem Rebuilds.evict {store : Store} (rebuilds : Rebuilds file entries (some store)) (now : Int) :
    Rebuilds file entries (some (store.evictOldEntries now)) := by
  have evicted := rebuilds.apply (.evictOldEntries now)
  rwa [inserts, inserts, List.append_nil] at evicted

end Rebuilds

end LogMonitor.Tsdb
