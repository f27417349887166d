import LogMonitor.Library.ByteString
import LogMonitor.Library.Table
import Mathlib.Logic.Function.Basic

/-!
The time-series store: one vector of entries for each app, kept in the order of
their timestamps, with the queries over a time window and the eviction of what
is older than a day. Times are nanoseconds; the clock reading is an argument.
-/

namespace LogMonitor.Tsdb
open Library Library.ByteString

structure TsdbEntry where
  appName : Bytes
  level : Bytes
  message : Bytes
  timestampNs : Int64
deriving DecidableEq

/-- The two maps of the store. Only `data` is ever iterated. -/
structure Store where
  data : Table Bytes (List TsdbEntry)
  lastSeen : Bytes → Option Int64

def evictionAgeNs : Int := 24 * 3600 * 1000000000

def Store.empty : Store := ⟨∅, fun _ => none⟩

/-- `std::max` on timestamps. -/
def latest (a b : Int64) : Int64 := if a.toInt < b.toInt then b else a

/-- `std::lower_bound` on the `len` entries from `first`: the halving search for the first
entry that is not older than `ts`. -/
def lowerBound (vec : List TsdbEntry) (ts : Int64) (first len : Nat) : Nat :=
  if len = 0 then first
  else
    let half := len / 2
    match vec[first + half]? with
    | none => first
    | some middle =>
      if middle.timestampNs.toInt < ts.toInt then
        lowerBound vec ts (first + half + 1) (len - half - 1)
      else lowerBound vec ts first half
termination_by len

/-- Where `insert` puts an entry in the vector of its app. -/
def insertSorted (vec : List TsdbEntry) (entry : TsdbEntry) : List TsdbEntry :=
  match vec.getLast? with
  | none => vec ++ [entry]
  | some back =>
    if back.timestampNs.toInt ≤ entry.timestampNs.toInt then vec ++ [entry]
    else
      let pos := lowerBound vec entry.timestampNs 0 vec.length
      vec.take pos ++ entry :: vec.drop pos

/-- `last_seen_[app] = std::max(last_seen_[app], ts)`. -/
def Store.see (store : Store) (app : Bytes) (ts : Int64) : Store :=
  { store with
    lastSeen := Function.update store.lastSeen app
      (some (latest ((store.lastSeen app).getD 0) ts)) }

def Store.insert (store : Store) (entry : TsdbEntry) : Store :=
  let vec := (store.data.lookup entry.appName).getD []
  { store with data := store.data.insert entry.appName (insertSorted vec entry) }.see
    entry.appName entry.timestampNs

/-- The start of the window of the last `lastNSeconds` seconds. The arguments are far from
the ends of the 64-bit range. -/
def windowStart (now lastNSeconds : Int) : Int := now - lastNSeconds * 1000000000

def matchesQuery (cutoff : Int) (level : Bytes) (entry : TsdbEntry) : Bool :=
  cutoff ≤ entry.timestampNs.toInt && (level = [] || entry.level = level)

def Store.getLogs (store : Store) (now : Int) (app level : Bytes) (lastNSeconds : Int) :
    List TsdbEntry :=
  match store.data.lookup app with
  | none => []
  | some vec => vec.filter (matchesQuery (windowStart now lastNSeconds) level)

def Store.getCount (store : Store) (now : Int) (app level : Bytes) (lastNSeconds : Int) : Nat :=
  match store.data.lookup app with
  | none => 0
  | some vec => vec.countP (matchesQuery (windowStart now lastNSeconds) level)

def zeroCounts (level : Bytes) : Option Nat :=
  if level ∈ [text "INFO", text "WARN", text "ERROR", text "CRITICAL"] then some 0 else none

/-- `counts[e.level]++` in the loop of `getCountsByLevel`. -/
def countLevel (cutoff : Int) (counts : Bytes → Option Nat) (entry : TsdbEntry) :
    Bytes → Option Nat :=
  if entry.timestampNs.toInt < cutoff then counts
  else Function.update counts entry.level (some ((counts entry.level).getD 0 + 1))

def Store.getCountsByLevel (store : Store) (now : Int) (app : Bytes) (lastNSeconds : Int) :
    Bytes → Option Nat :=
  match store.data.lookup app with
  | none => zeroCounts
  | some vec => vec.foldl (countLevel (windowStart now lastNSeconds)) zeroCounts

def Store.getApps (store : Store) : List Bytes := store.data.keys

def Store.getLastSeen (store : Store) (app : Bytes) : Int64 := (store.lastSeen app).getD 0

/-- What the eviction keeps of one vector, if anything. -/
def keepRecent (cutoff : Int) (vec : List TsdbEntry) : Option (List TsdbEntry) :=
  let kept := vec.filter fun entry => cutoff ≤ entry.timestampNs.toInt
  if kept = [] then none else some kept

def Store.evictOldEntries (store : Store) (now : Int) : Store :=
  { store with data := store.data.filterMap (keepRecent (now - evictionAgeNs)) }

def levelToIdx (level : Bytes) : UInt8 :=
  if level = text "WARN" then 1
  else if level = text "ERROR" then 2
  else if level = text "CRITICAL" then 3
  else 0

def idxToLevel (idx : UInt8) : Bytes :=
  if idx = 1 then text "WARN"
  else if idx = 2 then text "ERROR"
  else if idx = 3 then text "CRITICAL"
  else text "INFO"

/-- The level that a file can hold in place of `level`. -/
def storedLevel (level : Bytes) : Bytes :=
  if level ∈ [text "WARN", text "ERROR", text "CRITICAL"] then level else text "INFO"

theorem idxToLevel_levelToIdx (level : Bytes) :
    idxToLevel (levelToIdx level) = storedLevel level := by
  by_cases warn : level = text "WARN"
  · subst warn; decide
  by_cases error : level = text "ERROR"
  · subst error; decide
  by_cases critical : level = text "CRITICAL"
  · subst critical; decide
  simp [levelToIdx, storedLevel, warn, error, critical, idxToLevel]

theorem evictOldEntries_lookup (store : Store) (now : Int) (app : Bytes) :
    ((store.evictOldEntries now).data.lookup app).getD [] =
      ((store.data.lookup app).getD []).filter fun entry =>
        now - evictionAgeNs ≤ entry.timestampNs.toInt := by
  unfold Store.evictOldEntries
  rw [Table.lookup_filterMap]
  cases store.data.lookup app with
  | none => rfl
  | some vec =>
    simp only [Option.bind_some, Option.getD_some, keepRecent]
    split
    next none => rw [none]; rfl
    next => rfl

section Queries

variable (store : Store) (now : Int) (app level : Bytes) (lastNSeconds : Int)

/-- The queries see an app that is not there as one without entries. -/
theorem getLogs_eq : store.getLogs now app level lastNSeconds =
    ((store.data.lookup app).getD []).filter
      (matchesQuery (windowStart now lastNSeconds) level) := by
  unfold Store.getLogs
  cases store.data.lookup app <;> rfl

theorem getCount_eq : store.getCount now app level lastNSeconds =
    (store.getLogs now app level lastNSeconds).length := by
  unfold Store.getCount Store.getLogs
  cases store.data.lookup app with
  | none => rfl
  | some vec => exact List.countP_eq_length_filter ..

theorem getCountsByLevel_eq : store.getCountsByLevel now app lastNSeconds =
    (store.getLogs now app [] lastNSeconds).foldl
      (fun (counts : Bytes → Option Nat) entry => Function.update counts entry.level
        (some ((counts entry.level).getD 0 + 1))) zeroCounts := by
  unfold Store.getCountsByLevel Store.getLogs
  cases store.data.lookup app with
  | none => rfl
  | some vec =>
    simp only [List.foldl_filter]
    congr 1
    funext counts entry
    unfold countLevel matchesQuery
    by_cases old : entry.timestampNs.toInt < windowStart now lastNSeconds
    · simp [old, Int.not_le.mpr old]
    · simp [old, Int.not_lt.mp old]

end Queries

end LogMonitor.Tsdb
