import LogMonitor.TsdbEviction

/-!
Logs with equal timestamps. An insertion at the end puts a log behind those with
its timestamp, the search for an earlier place ends in front of them: the store
lists arrivals in their stable order as long as nothing comes late to a tie.
-/

namespace LogMonitor.Tsdb
open Library Library.ByteString Library.SortedList

def Store.insertAll (store : Store) (arrivals : List TsdbEntry) : Store :=
  arrivals.foldl Store.insert store

def arrivalsFor (app : Bytes) (arrivals : List TsdbEntry) : List TsdbEntry :=
  arrivals.filter (·.appName = app)

def stableSort (entries : List TsdbEntry) : List TsdbEntry :=
  entries.mergeSort (·.time ≤ ·.time)

/-- After each of the insertions, a query without a level and with a window over everything lists
the app's arrivals in their stable order. -/
def KeepsArrivalOrder (store : Store) (app : Bytes) (arrivals : List TsdbEntry) : Prop :=
  ∀ earlier, earlier <+: arrivals → ∀ now lastNSeconds,
    (∀ entry ∈ earlier, windowStart now lastNSeconds ≤ entry.time) →
    (store.insertAll earlier).getLogs now app [] lastNSeconds = stableSort (arrivalsFor app earlier)

section Arrivals

variable {store : Store} {app : Bytes}

/-- The vector of an app that had none is made of insertions at the place of the key. -/
theorem insertAll_vector (fresh : store.vector app = []) (arrivals : List TsdbEntry) :
    (store.insertAll arrivals).vector app =
      SortedList.insertAll TsdbEntry.time (arrivalsFor app arrivals) := by
  induction arrivals using List.reverseRecOn with
  | nil => exact fresh
  | append_singleton arrivals entry ih =>
    have last : store.insertAll (arrivals ++ [entry]) = (store.insertAll arrivals).insert entry :=
      List.foldl_concat ..
    rw [last, insert_vector, ih]
    by_cases own : entry.appName = app
    · have more : arrivalsFor app (arrivals ++ [entry]) = arrivalsFor app arrivals ++ [entry] := by
        simp [arrivalsFor, List.filter_append, own]
      rw [if_pos own.symm, more, insertAll_concat, insertSorted_eq (ordered_insertAll _)]
    · have same : arrivalsFor app (arrivals ++ [entry]) = arrivalsFor app arrivals := by
        simp [arrivalsFor, List.filter_append, own]
      rw [if_neg (Ne.symm own), same]

theorem mem_insertAll (entries : List TsdbEntry) {entry : TsdbEntry}
    (inside : entry ∈ SortedList.insertAll TsdbEntry.time entries) : entry ∈ entries := by
  induction entries using List.reverseRecOn with
  | nil => exact inside
  | append_singleton entries last ih =>
    rw [insertAll_concat, (perm_insertOrdered last _).mem_iff] at inside
    rcases List.mem_cons.mp inside with rfl | earlier
    · exact List.mem_append_right _ (List.mem_singleton_self entry)
    · exact List.mem_append_left _ (ih earlier)

theorem getLogs_covering (fresh : store.vector app = []) {arrivals : List TsdbEntry}
    {now lastNSeconds : Int}
    (covers : ∀ entry ∈ arrivals, windowStart now lastNSeconds ≤ entry.time) :
    (store.insertAll arrivals).getLogs now app [] lastNSeconds =
      SortedList.insertAll TsdbEntry.time (arrivalsFor app arrivals) := by
  rw [← insertAll_vector fresh, getLogs_eq]
  apply List.filter_eq_self.mpr
  intro entry inside
  have stored : entry ∈ (store.insertAll arrivals).vector app := inside
  rw [insertAll_vector fresh] at stored
  have seen := covers entry (List.mem_of_mem_filter (mem_insertAll _ stored))
  simpa [matchesQuery, TsdbEntry.time] using seen

theorem exists_window (arrivals : List TsdbEntry) :
    ∃ now lastNSeconds, ∀ entry ∈ arrivals, windowStart now lastNSeconds ≤ entry.time := by
  refine ⟨-2 ^ 63, 0, fun entry _ => ?_⟩
  have bound := entry.timestampNs.le_toInt
  simpa [windowStart, TsdbEntry.time] using bound

/-- Every arrival for the app is listed in the stable order, at all times, exactly when no arrival
that comes after a later timestamp finds another log with its own. -/
theorem keepsArrivalOrder_iff (fresh : store.vector app = []) (arrivals : List TsdbEntry) :
    KeepsArrivalOrder store app arrivals ↔ TiesAtEnd TsdbEntry.time (arrivalsFor app arrivals) := by
  rw [← stableSort_insertAll_iff]
  constructor
  · intro keeps own before
    obtain ⟨rest, shape⟩ := before
    obtain ⟨earlier, later, rfl, rfl, -⟩ := List.filter_eq_append_iff.mp shape.symm
    obtain ⟨now, lastNSeconds, covers⟩ := exists_window earlier
    have listed := keeps earlier (List.prefix_append ..) now lastNSeconds covers
    rw [getLogs_covering fresh covers] at listed
    exact stableSort_iff.mpr listed
  · intro stable earlier before now lastNSeconds covers
    rw [getLogs_covering fresh covers]
    exact stableSort_iff.mp (stable _ (before.filter _))

/-- Logs with one timestamp are listed as they arrive. -/
theorem keepsArrivalOrder_iff_oneTime :
    let entry (message : Bytes) : TsdbEntry := ⟨text "web", text "INFO", message, 5⟩
    KeepsArrivalOrder Store.empty (text "web") [entry (text "a"), entry (text "b")] := by
  intro entry
  refine (keepsArrivalOrder_iff rfl [entry (text "a"), entry (text "b")]).mpr ?_
  intro earlier last before behind
  have level : ∀ other ∈ arrivalsFor (text "web") [entry (text "a"), entry (text "b")],
      other.time = 5 := by decide
  obtain ⟨other, inside, less⟩ := behind
  rw [level other (before.subset (List.mem_append_left _ inside)),
    level last (before.subset (List.mem_append_right _ (List.mem_singleton_self last)))] at less
  exact absurd less (lt_irrefl 5)

/-- Between an entry and a later one comes a third with the timestamp of the first: it is listed
before it. -/
theorem late_tie_reversed :
    let entry (message : Bytes) (ts : Int64) : TsdbEntry := ⟨text "web", text "INFO", message, ts⟩
    ¬KeepsArrivalOrder Store.empty (text "web")
      [entry (text "a") 5, entry (text "b") 6, entry (text "c") 5] := by
  intro entry keeps
  let arrivals := [entry (text "a") 5, entry (text "b") 6, entry (text "c") 5]
  have covers : ∀ entry ∈ arrivals, windowStart 0 1 ≤ entry.time := by decide
  have listed := keeps arrivals List.prefix_rfl 0 1 covers
  rw [getLogs_covering rfl covers] at listed
  have ties := (stableSort_iff.mpr listed).ties 5
  exact absurd ties (by decide)

end Arrivals

end LogMonitor.Tsdb
