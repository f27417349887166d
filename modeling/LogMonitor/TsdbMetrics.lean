import LogMonitor.Library.Transition
import LogMonitor.TsdbEviction
import LogMonitor.TsdbJson

/-!
The exported counts along a run of insertions, evictions and clock advances. A
scrape looks at the store again for every count, so its looks may be spread over
the run. The counts are those of a sliding window over what is still stored.
-/

namespace LogMonitor.Tsdb.Metrics
open Library Library.ByteString Library.Transition

structure Series where
  app : Bytes
  level : Bytes
  count : Nat

/-- The series of `metrics_to_prometheus`, in its order. -/
def metricsSeries (look : Nat → Look) : List Series :=
  ((look 0).tsdb.getApps.mapIdx fun i app =>
    levels.mapIdx fun j level =>
      let atLevel := look (4 * i + j + 1)
      ⟨app, level, atLevel.tsdb.getCount atLevel.now app level defaultWindow⟩).flatten

theorem map_mapIdx {α β γ : Type} (f : Nat → α → β) (g : β → γ) (entries : List α) :
    (entries.mapIdx f).map g = entries.mapIdx fun i entry => g (f i entry) := by
  apply List.ext_getElem?
  intro i
  simp only [List.getElem?_map, List.getElem?_mapIdx, Option.map_map]
  rfl

theorem metricsToPrometheus_eq (look : Nat → Look) :
    metricsToPrometheus look = metricsHeader ++
      ((metricsSeries look).map fun series =>
        metricsLine series.app series.level series.count).flatten := by
  simp only [metricsToPrometheus, metricsSeries, List.map_flatten, map_mapIdx,
    List.flatten_flatten]

theorem mem_metricsSeries {look : Nat → Look} {series : Series} :
    series ∈ metricsSeries look ↔ ∃ i j, (look 0).tsdb.getApps[i]? = some series.app ∧
      levels[j]? = some series.level ∧ series.count = (look (4 * i + j + 1)).tsdb.getCount
        (look (4 * i + j + 1)).now series.app series.level defaultWindow := by
  simp only [metricsSeries, List.mem_flatten, List.mem_mapIdx]
  constructor
  · rintro ⟨_, ⟨i, app, rfl⟩, member⟩
    obtain ⟨j, level, rfl⟩ := List.mem_mapIdx.mp member
    exact ⟨i, j, List.getElem?_eq_getElem app, List.getElem?_eq_getElem level, rfl⟩
  · rintro ⟨i, j, listed, counted, value⟩
    obtain ⟨app, first⟩ := List.getElem?_eq_some_iff.mp listed
    obtain ⟨level, second⟩ := List.getElem?_eq_some_iff.mp counted
    refine ⟨_, ⟨i, app, rfl⟩, List.mem_mapIdx.mpr ⟨j, level, ?_⟩⟩
    rw [first, second, ← value]

inductive Label where
  | insert (entry : TsdbEntry)
  /-- An eviction, with what it read of the clock before it took the lock. -/
  | evictOldEntries (now : Int)
  | tick (now : Int)

def perform (look : Look) : Label → Look
  | .insert entry => { look with tsdb := look.tsdb.insert entry }
  | .evictOldEntries now => { look with tsdb := look.tsdb.evictOldEntries now }
  | .tick now => { look with now := now }

def possible (look : Look) : Label → Prop
  | .insert _ => True
  | .evictOldEntries now => now ≤ look.now
  | .tick now => look.now ≤ now

inductive Step : Look → Label → Look → Prop
  | perform {look : Look} {label : Label} (enabled : possible look label) :
      Step look label (perform look label)

def after (start : Look) (labels : List Label) : Look := labels.foldl perform start

/-- A scrape: where in the run each of its looks is. -/
structure Scrape (labels : List Label) where
  place : Nat → Nat
  ordered : Monotone place
  within : ∀ look, place look ≤ labels.length

def Scrape.series {labels : List Label} (scrape : Scrape labels) (start : Look) : List Series :=
  metricsSeries fun look => after start (labels.take (scrape.place look))

/-- Every series of the first is in the second, with a value at least as large. -/
def Covered (first second : List Series) : Prop :=
  ∀ series ∈ first, ∃ later ∈ second,
    later.app = series.app ∧ later.level = series.level ∧ series.count ≤ later.count

/-- No series goes down or away from a scrape to one that begins after it. -/
def NeverDown (start : Look) (labels : List Label) : Prop :=
  ∀ earlier later : Scrape labels, (∀ first second, earlier.place first ≤ later.place second) →
    Covered (earlier.series start) (later.series start)

/-- The step takes no entry out of the window and no app out of the store: the window does not
move past an entry of a counted level, and the eviction leaves an entry of every app. -/
def harmless (look : Look) : Label → Prop
  | .insert _ => True
  | .evictOldEntries now => ∀ app ∈ look.tsdb.getApps, ∃ entry ∈ look.tsdb.vector app,
      now - evictionAgeNs ≤ entry.time
  | .tick now => ∀ app, ∀ entry ∈ look.tsdb.vector app, entry.level ∈ levels →
      windowStart look.now defaultWindow ≤ entry.time → windowStart now defaultWindow ≤ entry.time

/-! ### What one step does to the counts -/

def count (look : Look) (app level : Bytes) : Nat :=
  look.tsdb.getCount look.now app level defaultWindow

theorem mem_getApps {store : Store} {app : Bytes} :
    app ∈ store.getApps ↔ ∃ vec, store.data.lookup app = some vec := by
  rw [← Option.isSome_iff_exists, AList.lookup_isSome]
  rfl

theorem count_eq (look : Look) (app level : Bytes) :
    count look app level = (look.tsdb.vector app).countP
      (matchesQuery (windowStart look.now defaultWindow) level) := by
  unfold count Store.getCount Store.vector
  cases look.tsdb.data.lookup app <;> rfl

theorem count_of_not_mem {look : Look} {app : Bytes} (absent : app ∉ look.tsdb.getApps)
    (level : Bytes) : count look app level = 0 := by
  have missing : look.tsdb.data.lookup app = none := by
    by_contra there
    exact absent (mem_getApps.mpr (Option.ne_none_iff_exists'.mp there))
  rw [count, Store.getCount, missing]

theorem matchesQuery_level {cutoff : Int} {level : Bytes} (counted : level ∈ levels)
    (entry : TsdbEntry) :
    matchesQuery cutoff level entry = true ↔ cutoff ≤ entry.time ∧ entry.level = level := by
  have named : level ≠ [] := by
    rintro rfl
    exact absurd counted (by decide)
  simp [matchesQuery, named, TsdbEntry.time]

structure Kept (look next : Look) : Prop where
  apps : look.tsdb.getApps ⊆ next.tsdb.getApps
  counts : ∀ app, ∀ level ∈ levels, count look app level ≤ count next app level

theorem sublist_insertSorted (vec : List TsdbEntry) (entry : TsdbEntry) :
    vec.Sublist (insertSorted vec entry) := by
  unfold insertSorted
  split
  next => exact List.sublist_append_left _ _
  next =>
    split
    next => exact List.sublist_append_left _ _
    next =>
      dsimp only
      generalize lowerBound vec entry.timestampNs 0 vec.length = pos
      calc vec = vec.take pos ++ vec.drop pos := (List.take_append_drop pos vec).symm
        List.Sublist _ (vec.take pos ++ entry :: vec.drop pos) :=
          (List.Sublist.refl _).append (List.sublist_cons_self _ _)

theorem kept_insert (look : Look) (entry : TsdbEntry) :
    Kept look { look with tsdb := look.tsdb.insert entry } := by
  constructor
  · intro app listed
    exact (AList.mem_insert _).mpr (.inr listed)
  · intro app level _
    rw [count_eq, count_eq, insert_vector]
    split
    next => exact (sublist_insertSorted _ entry).countP_le
    next => exact le_rfl

theorem countP_lt {α : Type} {before now : α → Bool} {entries : List α}
    (fewer : ∀ entry ∈ entries, now entry = true → before entry = true) {gone : α}
    (member : gone ∈ entries) (counted : before gone = true) (missing : now gone = false) :
    entries.countP now < entries.countP before := by
  induction entries with
  | nil => simp at member
  | cons first rest ih =>
    have fewerRest : ∀ entry ∈ rest, now entry = true → before entry = true :=
      fun entry there => fewer entry (List.mem_cons_of_mem _ there)
    have bound : rest.countP now ≤ rest.countP before := List.countP_mono_left fewerRest
    rcases List.mem_cons.mp member with rfl | later
    · rw [List.countP_cons_of_neg (by simp [missing]), List.countP_cons_of_pos counted]
      omega
    · have less := ih fewerRest later
      have head : (if now first then 1 else 0) ≤ if before first then 1 else 0 := by
        cases value : now first with
        | false => simp
        | true => simp [fewer first List.mem_cons_self value]
      rw [List.countP_cons, List.countP_cons]
      omega

theorem kept_tick_iff {look : Look} {now : Int} (later : look.now ≤ now) :
    harmless look (.tick now) ↔ Kept look { look with now := now } := by
  have forward : windowStart look.now defaultWindow ≤ windowStart now defaultWindow := by
    unfold windowStart
    omega
  constructor
  · intro stays
    refine ⟨List.Subset.refl _, fun app level counted => ?_⟩
    rw [count_eq, count_eq]
    refine List.countP_mono_left fun entry member matching => ?_
    obtain ⟨recent, named⟩ := (matchesQuery_level counted entry).mp matching
    exact (matchesQuery_level counted entry).mpr
      ⟨stays app entry member (named ▸ counted) recent, named⟩
  · intro kept app entry member counted recent
    by_contra old
    have missing : matchesQuery (windowStart now defaultWindow) entry.level entry = false := by
      rw [Bool.eq_false_iff, ne_eq, matchesQuery_level counted]
      exact fun both => old both.1
    have fewer : ∀ other ∈ look.tsdb.vector app,
        matchesQuery (windowStart now defaultWindow) entry.level other = true →
          matchesQuery (windowStart look.now defaultWindow) entry.level other = true := by
      intro other _ matching
      obtain ⟨young, named⟩ := (matchesQuery_level counted other).mp matching
      exact (matchesQuery_level counted other).mpr ⟨forward.trans young, named⟩
    have less := countP_lt fewer member
      ((matchesQuery_level counted entry).mpr ⟨recent, rfl⟩) missing
    have most := kept.counts app entry.level counted
    rw [count_eq, count_eq] at most
    exact absurd most (Nat.not_le.mpr less)

theorem mem_getApps_evict {store : Store} {now : Int} {app : Bytes} :
    app ∈ (store.evictOldEntries now).getApps ↔
      ∃ entry ∈ store.vector app, now - evictionAgeNs ≤ entry.time := by
  rw [mem_getApps, Store.vector]
  simp only [Store.evictOldEntries, Table.lookup_filterMap, Option.bind_eq_some_iff, keepRecent,
    Option.ite_none_left_eq_some]
  constructor
  · rintro ⟨kept, vec, present, nonempty, -⟩
    obtain ⟨entry, member⟩ := List.exists_mem_of_ne_nil _ nonempty
    obtain ⟨inside, recent⟩ := List.mem_filter.mp member
    rw [present]
    exact ⟨entry, inside, of_decide_eq_true recent⟩
  · rintro ⟨entry, inside, recent⟩
    cases present : store.data.lookup app with
    | none => simp [present] at inside
    | some vec =>
      rw [present] at inside
      refine ⟨_, vec, rfl, ?_, rfl⟩
      exact List.ne_nil_of_mem (List.mem_filter.mpr ⟨inside, decide_eq_true recent⟩)

theorem kept_evict_iff {look : Look} {now : Int} (read : now ≤ look.now) :
    harmless look (.evictOldEntries now) ↔
      Kept look { look with tsdb := look.tsdb.evictOldEntries now } := by
  constructor
  · intro stays
    refine ⟨fun app listed => mem_getApps_evict.mpr (stays app listed), fun app level counted => ?_⟩
    rw [count_eq, count_eq, evictOldEntries_vector, List.countP_filter]
    refine List.countP_mono_left fun entry _ matching => ?_
    -- the window of an hour is within the day that is kept
    have recent := ((matchesQuery_level counted entry).mp matching).1
    have young : now - evictionAgeNs ≤ entry.time := by
      unfold windowStart defaultWindow at recent
      unfold evictionAgeNs
      omega
    simp [matching, young]
  · exact fun kept app listed => mem_getApps_evict.mp (kept.apps listed)

/-- A step keeps what is exported exactly if it is harmless. -/
theorem kept_perform_iff {look : Look} {label : Label} (enabled : possible look label) :
    harmless look label ↔ Kept look (perform look label) := by
  cases label with
  | insert entry => exact ⟨fun _ => kept_insert look entry, fun _ => trivial⟩
  | evictOldEntries now => exact kept_evict_iff enabled
  | tick now => exact kept_tick_iff enabled

/-! ### Whole runs -/

theorem Kept.refl (look : Look) : Kept look look := ⟨List.Subset.refl _, fun _ _ _ => le_rfl⟩

theorem Kept.trans {look middle next : Look} (first : Kept look middle) (second : Kept middle next) :
    Kept look next :=
  ⟨fun _ listed => second.apps (first.apps listed), fun app level counted =>
    (first.counts app level counted).trans (second.counts app level counted)⟩

theorem after_snoc (start : Look) (labels : List Label) (label : Label) :
    after start (labels ++ [label]) = perform (after start labels) label := by
  simp [after]

theorem run_after {start final : Look} {labels : List Label} (run : Run Step start labels final) :
    final = after start labels := by
  refine run.invariant (fun labels final => final = after start labels) rfl ?_
  rintro labels current label next - rfl ⟨enabled⟩
  rw [after_snoc]

theorem run_possible {start final : Look} {before rest : List Label} {label : Label}
    (run : Run Step start (before ++ label :: rest) final) : possible (after start before) label := by
  rw [List.append_cons] at run
  obtain ⟨_, first, -⟩ := run.split
  obtain ⟨current, earlier, step⟩ := first.last
  rw [← run_after earlier]
  cases step with
  | perform enabled => exact enabled

theorem kept_between {start final : Look} {labels : List Label} (run : Run Step start labels final)
    (harm : ∀ before label rest, labels = before ++ label :: rest →
      harmless (after start before) label)
    {first second : Nat} (forward : first ≤ second) (within : second ≤ labels.length) :
    Kept (after start (labels.take first)) (after start (labels.take second)) := by
  induction second, forward using Nat.le_induction with
  | base => exact .refl _
  | succ second _ ih =>
    have shape : labels = labels.take second ++ labels[second] :: labels.drop (second + 1) := by
      rw [List.getElem_cons_drop, List.take_append_drop]
    have last : labels.take (second + 1) = labels.take second ++ [labels[second]] := by
      rw [List.take_append_getElem]
    rw [last, after_snoc]
    have enabled : possible (after start (labels.take second)) labels[second] :=
      run_possible (shape ▸ run)
    exact (ih (by omega)).trans ((kept_perform_iff enabled).mp (harm _ _ _ shape))

def scrapeAt {labels : List Label} (place : Nat) (within : place ≤ labels.length) : Scrape labels where
  place := fun _ => place
  ordered := monotone_const
  within := fun _ => within

theorem covered_same_state {look next : Look}
    (covered : Covered (metricsSeries fun _ => look) (metricsSeries fun _ => next)) :
    Kept look next := by
  have exported : ∀ app ∈ look.tsdb.getApps, ∀ level ∈ levels,
      app ∈ next.tsdb.getApps ∧ count look app level ≤ count next app level := by
    intro app listed level counted
    obtain ⟨i, first⟩ := List.getElem?_of_mem listed
    obtain ⟨j, second⟩ := List.getElem?_of_mem counted
    obtain ⟨later, member, same, same', larger⟩ := covered ⟨app, level, count look app level⟩
      (mem_metricsSeries.mpr ⟨i, j, first, second, rfl⟩)
    obtain ⟨_, _, there, -, value⟩ := mem_metricsSeries.mp member
    rw [value, same, same'] at larger
    rw [same] at there
    exact ⟨List.mem_of_getElem? there, larger⟩
  constructor
  · intro app listed
    exact (exported app listed (text "INFO") (by decide)).1
  · intro app level counted
    by_cases listed : app ∈ look.tsdb.getApps
    · exact (exported app listed level counted).2
    · rw [count_of_not_mem listed]
      exact Nat.zero_le _

/-- No exported count of a run goes down or away, from any scrape to any later one, exactly when
every step of the run is harmless. -/
theorem never_down_iff {start final : Look} {labels : List Label}
    (run : Run Step start labels final) :
    NeverDown start labels ↔ ∀ before label rest, labels = before ++ label :: rest →
      harmless (after start before) label := by
  constructor
  · rintro never before label rest rfl
    have here : before.length ≤ (before ++ label :: rest).length := by simp
    have next : before.length + 1 ≤ (before ++ label :: rest).length := by
      simp only [List.length_append, List.length_cons]
      omega
    have covered := never (scrapeAt before.length here) (scrapeAt (before.length + 1) next)
      fun _ _ => Nat.le_succ _
    have shape : (before ++ label :: rest).take (before.length + 1) = before ++ [label] := by
      rw [List.append_cons, List.take_left' (by simp)]
    have kept : Kept (after start before) (perform (after start before) label) := by
      rw [← after_snoc, ← shape]
      have whole : (before ++ label :: rest).take before.length = before := List.take_left
      nth_rewrite 1 [← whole]
      exact covered_same_state covered
    exact (kept_perform_iff (run_possible run)).mpr kept
  · intro harm earlier later apart series member
    obtain ⟨i, j, listed, counted, value⟩ := mem_metricsSeries.mp member
    have between := fun first second => kept_between run harm (apart first second) (later.within second)
    obtain ⟨place, there⟩ := List.getElem?_of_mem
      ((between 0 0).apps (List.mem_of_getElem? listed))
    let found := after start (labels.take (later.place (4 * place + j + 1)))
    refine ⟨⟨series.app, series.level, count found series.app series.level⟩,
      mem_metricsSeries.mpr ⟨place, j, there, counted, rfl⟩, rfl, rfl, ?_⟩
    rw [value]
    exact (between _ _).counts series.app series.level (List.mem_of_getElem? counted)

def errorEntry : TsdbEntry := ⟨text "web", text "ERROR", text "failed", 0⟩

theorem harmless_cons {start : Look} {first : Label} {labels : List Label}
    (now : harmless start first)
    (later : ∀ before label rest, labels = before ++ label :: rest →
      harmless (after (perform start first) before) label) :
    ∀ before label rest, first :: labels = before ++ label :: rest →
      harmless (after start before) label := by
  intro before label rest shape
  cases before with
  | nil =>
    obtain ⟨rfl, -⟩ := List.cons.inj shape
    exact now
  | cons other before =>
    obtain ⟨rfl, tail⟩ := List.cons.inj shape
    exact later before label rest tail

/-- An hour after the first entry it is still counted, and no eviction takes it. -/
theorem never_down_iff_hour : NeverDown ⟨Store.empty, 0⟩
    [.insert errorEntry, .tick (3600 * 1000000000), .insert { errorEntry with timestampNs := 5 },
      .evictOldEntries 7] := by
  let stored : Look := perform ⟨Store.empty, 0⟩ (.insert errorEntry)
  let later : Look := perform stored (.tick (3600 * 1000000000))
  have ticks : possible stored (.tick (3600 * 1000000000)) := by
    change (0 : Int) ≤ 3600 * 1000000000
    decide
  let again : Look := perform later (.insert { errorEntry with timestampNs := 5 })
  have evicts : possible again (.evictOldEntries 7) := by
    change (7 : Int) ≤ 3600 * 1000000000
    decide
  have inserted : Step ⟨Store.empty, 0⟩ (.insert errorEntry) stored := .perform trivial
  have repeated : Step later (.insert { errorEntry with timestampNs := 5 }) again :=
    .perform trivial
  have run := (((Run.single inserted).snoc (.perform ticks)).snoc repeated).snoc (.perform evicts)
  apply (never_down_iff run).mpr
  refine harmless_cons trivial (harmless_cons ?_ (harmless_cons trivial (harmless_cons ?_ ?_)))
  · intro app entry inside _ _
    rcases mem_insert inside with rfl | old
    · decide
    · cases old
  · change ∀ app ∈ _, ∃ entry ∈ _, _
    decide +kernel
  · intro before label rest shape
    simp at shape

/-- An entry is counted once and, an hour and a second later, no more. -/
theorem counter_goes_down : ∃ start labels final,
    Run Step start labels final ∧ ¬NeverDown start labels := by
  let labels : List Label := [.insert errorEntry, .tick (3601 * 1000000000)]
  have inserted : Step ⟨Store.empty, 0⟩ (.insert errorEntry) _ := .perform trivial
  have later : possible (perform ⟨Store.empty, 0⟩ (.insert errorEntry)) (.tick (3601 * 1000000000)) := by
    change (0 : Int) ≤ 3601 * 1000000000
    decide
  refine ⟨_, labels, _, (Run.single inserted).snoc (.perform later), ?_⟩
  intro never
  have covered := never (scrapeAt 1 (by decide)) (scrapeAt 2 (by decide)) fun _ _ => Nat.le_succ 1
  have kept := (covered_same_state covered).counts (text "web") (text "ERROR") (by decide)
  exact absurd kept (by decide)

end LogMonitor.Tsdb.Metrics
