import LogMonitor.Tsdb
import LogMonitor.Library.BinaryStream
import Mathlib.Order.Bounds.Defs
import Mathlib.Order.MinMax

/-!
The binary file of the store. `writeBinary` and `readBinary` are two separate
routines over length-prefixed fields; on what the first wrote the second reads
every field whole, and the store it builds is the one that was written with the
levels reduced to the four codes of the format.
-/

namespace LogMonitor.Tsdb
open Library Library.ByteString Library.BinaryStream

def magic : Nat := 0x4C4D545344420001

/-- A length in four bytes, and as many bytes as it can tell. -/
def writeString (s : Bytes) : Bytes := encode 4 s.length ++ s.take (s.length % 2 ^ 32)

def writeEntry (entry : TsdbEntry) : Bytes :=
  encode 8 entry.timestampNs.toBitVec.toNat ++ encode 1 (levelToIdx entry.level).toNat ++
    writeString entry.message

def writeApp (app : Bytes) (vec : List TsdbEntry) : Bytes :=
  writeString app ++ encode 4 vec.length ++ (vec.map writeEntry).flatten

def writeApps (entries : List (Σ _ : Bytes, List TsdbEntry)) : Bytes :=
  (entries.map fun entry => writeApp entry.1 entry.2).flatten

def writeBinary (store : Store) : Bytes :=
  encode 8 magic ++ encode 4 store.data.entries.length ++ writeApps store.data.entries

/-- A length read into a zero, and the bytes read into a string of zeros of that length. -/
def readString (input : InputStream) : Bytes × InputStream :=
  let (length, input) := input.readNumber 4 0
  input.read (List.replicate length 0)

/-- The field is not initialised: it holds `garbage` before the read. -/
def readTimestamp (garbage : Int64) (input : InputStream) : Int64 × InputStream :=
  let (number, input) := input.readNumber 8 garbage.toBitVec.toNat
  (Int64.ofBitVec (BitVec.ofNat 64 number), input)

def readEntry (app : Bytes) (garbage : Int64) (input : InputStream) : TsdbEntry × InputStream :=
  let (timestampNs, input) := readTimestamp garbage input
  let (lvlIdx, input) := input.readNumber 1 0
  let (message, input) := readString input
  (⟨app, idxToLevel (UInt8.ofNat lvlIdx), message, timestampNs⟩, input)

/-- `data_[app]`, which makes an empty vector where there is none. -/
def Store.touch (store : Store) (app : Bytes) : Store :=
  { store with data := store.data.insert app ((store.data.lookup app).getD []) }

/-- The vector of `app` gets one more entry at its end, and `last_seen_` follows. -/
def Store.append (store : Store) (app : Bytes) (entry : TsdbEntry) : Store :=
  { store with
    data := store.data.insert app ((store.data.lookup app).getD [] ++ [entry]) }.see app
      entry.timestampNs

/-- The inner loop; `garbage` gives the uninitialised value when so many entries are left. -/
def readEntries (garbage : Nat → Int64) (app : Bytes) :
    Nat → Store → InputStream → Store × InputStream
  | 0, store, input => (store, input)
  | numEntries + 1, store, input =>
    let (entry, input) := readEntry app (garbage numEntries) input
    readEntries garbage app numEntries (store.append app entry) input

def readApps (garbage : Nat → Nat → Int64) : Nat → Store → InputStream → Store × InputStream
  | 0, store, input => (store, input)
  | numApps + 1, store, input =>
    let (app, input) := readString input
    let (numEntries, input) := input.readNumber 4 0
    let (store, input) := readEntries (garbage numApps) app numEntries (store.touch app) input
    readApps garbage numApps store input

/-- `none` is the exception for a wrong magic number. -/
def readBinary (garbage : Nat → Nat → Int64) (input : InputStream) (store : Store) :
    Option (Store × InputStream) :=
  let (found, input) := input.readNumber 8 0
  if found ≠ magic then none
  else
    let (numApps, input) := input.readNumber 4 0
    some (readApps garbage numApps store input)

/-- What comes back for an entry that was written. -/
def persisted (app : Bytes) (entry : TsdbEntry) : TsdbEntry :=
  { entry with appName := app, level := storedLevel entry.level }

/-- Every length and every count can be told in four bytes. -/
structure Fits (store : Store) : Prop where
  apps : store.data.entries.length < 2 ^ 32
  names : ∀ entry ∈ store.data.entries, entry.1.length < 2 ^ 32
  counts : ∀ entry ∈ store.data.entries, entry.2.length < 2 ^ 32
  messages : ∀ entry ∈ store.data.entries, ∀ e ∈ entry.2, e.message.length < 2 ^ 32

section Whole

variable (rest : Bytes)

theorem readString_whole {s : Bytes} (small : s.length < 2 ^ 32) :
    readString ⟨writeString s ++ rest, false⟩ = (s, ⟨rest, false⟩) := by
  have size : (encode 4 s.length).length = 4 := length_encode ..
  unfold readString writeString
  rw [Nat.mod_eq_of_lt small, List.take_length, List.append_assoc,
    InputStream.readNumber_whole _ size, decode_encode_of_lt (by simpa using small)]
  exact InputStream.read_whole rest (List.length_replicate ..).symm

theorem readTimestamp_whole (ts garbage : Int64) :
    readTimestamp garbage ⟨encode 8 ts.toBitVec.toNat ++ rest, false⟩ = (ts, ⟨rest, false⟩) := by
  have small : ts.toBitVec.toNat < 256 ^ 8 := ts.toBitVec.isLt
  unfold readTimestamp
  simp only [InputStream.readNumber_whole _ (length_encode 8 _), decode_encode_of_lt small,
    BitVec.ofNat_toNat, BitVec.setWidth_eq, Int64.ofBitVec_toBitVec]

theorem readEntry_whole (app : Bytes) {entry : TsdbEntry} (garbage : Int64)
    (small : entry.message.length < 2 ^ 32) :
    readEntry app garbage ⟨writeEntry entry ++ rest, false⟩ =
      (persisted app entry, ⟨rest, false⟩) := by
  have code : (levelToIdx entry.level).toNat < 256 ^ 1 := UInt8.toNat_lt _
  unfold readEntry writeEntry persisted
  rw [List.append_assoc, List.append_assoc, readTimestamp_whole]
  simp only [InputStream.readNumber_whole _ (length_encode 1 _), decode_encode_of_lt code,
    readString_whole rest small, UInt8.ofNat_toNat, idxToLevel_levelToIdx]

theorem readEntries_whole (garbage : Nat → Int64) (app : Bytes) (vec : List TsdbEntry)
    (store : Store) (small : ∀ e ∈ vec, e.message.length < 2 ^ 32) :
    readEntries garbage app vec.length store ⟨(vec.map writeEntry).flatten ++ rest, false⟩ =
      ((vec.map (persisted app)).foldl (Store.append · app) store, ⟨rest, false⟩) := by
  induction vec generalizing store with
  | nil => rfl
  | cons entry vec ih =>
    rw [List.length_cons, readEntries, List.map_cons, List.flatten_cons, List.append_assoc,
      readEntry_whole _ app _ (small entry (List.mem_cons_self ..))]
    exact ih _ fun e inside => small e (List.mem_cons_of_mem _ inside)

def Store.loadApp (store : Store) (app : Bytes) (vec : List TsdbEntry) : Store :=
  (vec.map (persisted app)).foldl (Store.append · app) (store.touch app)

theorem readApps_whole (garbage : Nat → Nat → Int64) (entries : List (Σ _ : Bytes, List TsdbEntry))
    (store : Store) (names : ∀ entry ∈ entries, entry.1.length < 2 ^ 32)
    (counts : ∀ entry ∈ entries, entry.2.length < 2 ^ 32)
    (messages : ∀ entry ∈ entries, ∀ e ∈ entry.2, e.message.length < 2 ^ 32) :
    readApps garbage entries.length store ⟨writeApps entries ++ rest, false⟩ =
      (entries.foldl (fun store entry => store.loadApp entry.1 entry.2) store, ⟨rest, false⟩) := by
  induction entries generalizing store with
  | nil => rfl
  | cons entry entries ih =>
    have here := List.mem_cons_self (a := entry) (l := entries)
    have count : entry.2.length < 256 ^ 4 := by simpa using counts entry here
    have shape : writeApps (entry :: entries) ++ rest = writeString entry.1 ++
        (encode 4 entry.2.length ++ ((entry.2.map writeEntry).flatten ++
          (writeApps entries ++ rest))) := by
      simp only [writeApps, writeApp, List.map_cons, List.flatten_cons, List.append_assoc]
    rw [List.length_cons, readApps, shape, readString_whole _ (names entry here)]
    simp only [InputStream.readNumber_whole _ (length_encode 4 _), decode_encode_of_lt count,
      readEntries_whole _ _ _ _ _ (messages entry here), List.foldl_cons]
    exact ih _ (fun e inside => names e (List.mem_cons_of_mem _ inside))
      (fun e inside => counts e (List.mem_cons_of_mem _ inside))
      (fun e inside => messages e (List.mem_cons_of_mem _ inside))

end Whole

section Views

variable {store : Store} {app other : Bytes}

def Store.view (store : Store) (app : Bytes) : Option (List TsdbEntry) × Option Int64 :=
  (store.data.lookup app, store.lastSeen app)

def appendView (view : Option (List TsdbEntry) × Option Int64) (entry : TsdbEntry) :
    Option (List TsdbEntry) × Option Int64 :=
  (some (view.1.getD [] ++ [entry]), some (latest (view.2.getD 0) entry.timestampNs))

@[simp] theorem view_append_self (entry : TsdbEntry) :
    (store.append app entry).view app = appendView (store.view app) entry := by
  simp [Store.view, Store.append, Store.see, appendView, AList.lookup_insert]

theorem view_append_ne (different : other ≠ app) (entry : TsdbEntry) :
    (store.append app entry).view other = store.view other := by
  simp [Store.view, Store.append, Store.see, AList.lookup_insert_ne different, different]

theorem view_touch_self :
    (store.touch app).view app = (some ((store.data.lookup app).getD []), store.lastSeen app) := by
  simp [Store.view, Store.touch, AList.lookup_insert]

theorem view_touch_ne (different : other ≠ app) :
    (store.touch app).view other = store.view other := by
  simp [Store.view, Store.touch, AList.lookup_insert_ne different]

theorem view_appends_self (entries : List TsdbEntry) (store : Store) :
    (entries.foldl (Store.append · app) store).view app =
      entries.foldl appendView (store.view app) := by
  induction entries generalizing store with
  | nil => rfl
  | cons entry entries ih => rw [List.foldl_cons, ih, view_append_self, List.foldl_cons]

theorem view_appends_ne (different : other ≠ app) (entries : List TsdbEntry) (store : Store) :
    (entries.foldl (Store.append · app) store).view other = store.view other := by
  induction entries generalizing store with
  | nil => rfl
  | cons entry entries ih => rw [List.foldl_cons, ih, view_append_ne different]

theorem foldl_appendView_fst (entries vec : List TsdbEntry) (seen : Option Int64) :
    (entries.foldl appendView (some vec, seen)).1 = some (vec ++ entries) := by
  induction entries generalizing vec seen with
  | nil => simp
  | cons entry entries ih => simp [appendView, ih]

/-- Loading the written apps one after the other, seen at one app. -/
theorem view_loadApps (entries : List (Σ _ : Bytes, List TsdbEntry)) (unique : entries.NodupKeys)
    (store : Store) (app : Bytes) :
    (entries.foldl (fun store entry => store.loadApp entry.1 entry.2) store).view app =
      match entries.dlookup app with
      | none => store.view app
      | some vec => (vec.map (persisted app)).foldl appendView
          (some ((store.data.lookup app).getD []), store.lastSeen app) := by
  induction entries generalizing store with
  | nil => rfl
  | cons entry entries ih =>
    obtain ⟨key, vec⟩ := entry
    obtain ⟨fresh, unique⟩ := List.nodupKeys_cons.mp unique
    rw [List.foldl_cons, ih unique]
    by_cases same : app = key
    · subst same
      rw [List.dlookup_eq_none.mpr fresh, List.dlookup_cons_eq]
      simp only [Store.loadApp, view_appends_self, view_touch_self]
    · rw [List.dlookup_cons_ne _ _ same]
      have kept : (store.loadApp key vec).view app = store.view app := by
        rw [Store.loadApp, view_appends_ne same, view_touch_ne same]
      have data := congrArg Prod.fst kept
      have seen := congrArg Prod.snd kept
      simp only [Store.view] at data seen
      simp only [kept, data, seen]

theorem latest_toInt (a b : Int64) : (latest a b).toInt = max a.toInt b.toInt := by
  unfold latest
  split <;> omega

theorem foldl_appendView_snd (entries : List TsdbEntry) (vec : Option (List TsdbEntry))
    (start : Int64) :
    ∃ seen, (entries.foldl appendView (vec, some start)).2 = some seen ∧
      IsGreatest {t | t = start.toInt ∨ ∃ e ∈ entries, t = e.timestampNs.toInt} seen.toInt := by
  induction entries generalizing vec start with
  | nil => exact ⟨start, rfl, .inl rfl, by rintro t (rfl | ⟨e, inside, _⟩) <;> simp_all⟩
  | cons entry entries ih =>
    obtain ⟨seen, found, attained, bound⟩ :=
      ih (some (vec.getD [] ++ [entry])) (latest start entry.timestampNs)
    refine ⟨seen, found, ?_, ?_⟩
    · rcases attained with top | ⟨e, inside, top⟩
      · rw [latest_toInt] at top
        rcases max_choice start.toInt entry.timestampNs.toInt with left | right
        · exact .inl (top.trans left)
        · exact .inr ⟨entry, List.mem_cons_self .., top.trans right⟩
      · exact .inr ⟨e, List.mem_cons_of_mem _ inside, top⟩
    · have here : (latest start entry.timestampNs).toInt ≤ seen.toInt := bound (.inl rfl)
      rw [latest_toInt, max_le_iff] at here
      rintro t (rfl | ⟨e, inside, rfl⟩)
      · exact here.1
      · rcases List.mem_cons.mp inside with rfl | later
        · exact here.2
        · exact bound (.inr ⟨e, later, rfl⟩)

end Views

/-- The store that the written bytes stand for. -/
def Store.reloaded (store : Store) : Store :=
  store.data.entries.foldl (fun loaded entry => loaded.loadApp entry.1 entry.2) Store.empty

theorem readBinary_whole (garbage : Nat → Nat → Int64) {store : Store} (fits : Fits store)
    (rest : Bytes) :
    readBinary garbage ⟨writeBinary store ++ rest, false⟩ Store.empty =
      some (store.reloaded, ⟨rest, false⟩) := by
  have number : magic < 256 ^ 8 := by decide
  have count : store.data.entries.length < 256 ^ 4 := by simpa using fits.apps
  unfold readBinary writeBinary
  simp only [List.append_assoc, InputStream.readNumber_whole _ (length_encode 8 _),
    InputStream.readNumber_whole _ (length_encode 4 _), decode_encode_of_lt number,
    decode_encode_of_lt count, readApps_whole _ _ _ _ fits.names fits.counts fits.messages]
  rfl

theorem view_reloaded (store : Store) (app : Bytes) :
    store.reloaded.view app = match store.data.lookup app with
      | none => (none, none)
      | some vec => (vec.map (persisted app)).foldl appendView (some [], none) :=
  view_loadApps store.data.entries store.data.nodupKeys Store.empty app

theorem reloaded_lookup (store : Store) (app : Bytes) :
    store.reloaded.data.lookup app =
      (store.data.lookup app).map (List.map (persisted app)) := by
  have view := congrArg Prod.fst (view_reloaded store app)
  simp only [Store.view] at view
  rw [view]
  cases store.data.lookup app with
  | none => rfl
  | some vec => simp only [foldl_appendView_fst, List.nil_append, Option.map_some]

theorem reloaded_lastSeen (store : Store) {app : Bytes} {vec : List TsdbEntry}
    (present : store.data.lookup app = some vec) (nonempty : vec ≠ []) :
    ∃ seen, store.reloaded.lastSeen app = some seen ∧
      IsGreatest {t | t = 0 ∨ ∃ e ∈ vec, t = e.timestampNs.toInt} seen.toInt := by
  have view := congrArg Prod.snd (view_reloaded store app)
  simp only [Store.view, present] at view
  have restart : (vec.map (persisted app)).foldl appendView (some [], none) =
      (vec.map (persisted app)).foldl appendView (some [], some 0) := by
    obtain ⟨entry, vec, rfl⟩ := List.exists_cons_of_ne_nil nonempty
    rfl
  obtain ⟨seen, found, greatest⟩ :=
    foldl_appendView_snd (vec.map (persisted app)) (some []) 0
  have times : {t | t = (0 : Int64).toInt ∨ ∃ e ∈ vec.map (persisted app), t = e.timestampNs.toInt} =
      {t | t = 0 ∨ ∃ e ∈ vec, t = e.timestampNs.toInt} := by
    ext t
    simp [persisted]
  rw [times] at greatest
  exact ⟨seen, by rw [view, restart, found], greatest⟩

/-- An app without entries leaves no trace in `last_seen_`. -/
theorem reloaded_unseen (store : Store) {app : Bytes}
    (none : (store.data.lookup app).getD [] = []) : store.reloaded.lastSeen app = .none := by
  have view := congrArg Prod.snd (view_reloaded store app)
  cases present : store.data.lookup app with
  | none =>
    rw [present] at view
    exact view
  | some vec =>
    rw [present, Option.getD_some] at none
    subst none
    rw [present] at view
    exact view

def Keyed (store : Store) : Prop :=
  ∀ app vec, store.data.lookup app = some vec → ∀ e ∈ vec, e.appName = app

theorem keyed_empty : Keyed Store.empty := by
  intro app vec present
  cases present

theorem mem_insertSorted {vec : List TsdbEntry} {entry e : TsdbEntry}
    (inside : e ∈ insertSorted vec entry) : e = entry ∨ e ∈ vec := by
  unfold insertSorted at inside
  split at inside
  next => simpa [or_comm] using inside
  next back _ =>
    split at inside
    next => simpa [or_comm] using inside
    next =>
      rcases List.mem_append.mp inside with before | after
      · exact .inr (List.mem_of_mem_take before)
      · rcases List.mem_cons.mp after with same | behind
        · exact .inl same
        · exact .inr (List.mem_of_mem_drop behind)

theorem Keyed.insert {store : Store} (keyed : Keyed store) (entry : TsdbEntry) :
    Keyed (store.insert entry) := by
  intro app vec present e inside
  by_cases same : app = entry.appName
  · subst same
    simp only [Store.insert, Store.see, AList.lookup_insert, Option.some.injEq] at present
    subst present
    rcases mem_insertSorted inside with rfl | old
    · rfl
    · cases there : store.data.lookup entry.appName with
      | none => simp [there] at old
      | some vec =>
        rw [there] at old
        exact keyed entry.appName vec there e old
  · simp only [Store.insert, Store.see, AList.lookup_insert_ne same] at present
    exact keyed app vec present e inside

/-- Where the entries carry the name of their app, only the levels change. -/
theorem Keyed.map_persisted {store : Store} (keyed : Keyed store) {app : Bytes} {vec : List TsdbEntry}
    (present : store.data.lookup app = some vec) :
    vec.map (persisted app) = vec.map fun e => { e with level := storedLevel e.level } := by
  apply List.map_congr_left
  intro e inside
  rw [persisted, ← keyed app vec present e inside]

/-- Reading back what was written, whatever follows it in the stream: exactly those bytes
are consumed, and the apps, their entries and the last timestamps are the written ones. -/
theorem readBinary_writeBinary (garbage : Nat → Nat → Int64) (store : Store) (keyed : Keyed store)
    (fits : Fits store) (rest : Bytes) :
    ∃ loaded, readBinary garbage ⟨writeBinary store ++ rest, false⟩ Store.empty =
        some (loaded, ⟨rest, false⟩) ∧
      (∀ app, loaded.data.lookup app = (store.data.lookup app).map
        (List.map fun e => { e with level := storedLevel e.level })) ∧
      (∀ app vec, store.data.lookup app = some vec → vec ≠ [] →
        ∃ seen, loaded.lastSeen app = some seen ∧
          IsGreatest {t | t = 0 ∨ ∃ e ∈ vec, t = e.timestampNs.toInt} seen.toInt) ∧
      ∀ app, (store.data.lookup app).getD [] = [] → loaded.lastSeen app = none := by
  refine ⟨store.reloaded, readBinary_whole garbage fits rest, fun app => ?_,
    fun app vec present nonempty => reloaded_lastSeen store present nonempty,
    fun app none => reloaded_unseen store none⟩
  rw [reloaded_lookup]
  cases present : store.data.lookup app with
  | none => rfl
  | some vec => exact congrArg some (keyed.map_persisted present)

/-- One app with one entry, whose level the format has no code for. -/
def oneEntry : Store := Store.empty.insert ⟨text "web", text "DEBUG", text "ready", 5⟩

theorem oneEntry_keyed : Keyed oneEntry := keyed_empty.insert _

theorem oneEntry_fits : Fits oneEntry := by
  have only : oneEntry.data.entries = [⟨text "web", [⟨text "web", text "DEBUG", text "ready", 5⟩]⟩] :=
    rfl
  constructor <;> rw [only] <;> simp [text]

/-- Two apps, one of them with entries before and after those of the other. -/
def twoApps : Store :=
  (oneEntry.insert ⟨text "db", text "ERROR", text "down", 7⟩).insert
    ⟨text "web", text "WARN", text "slow", 9⟩

theorem twoApps_fits : Fits twoApps := by
  have only : twoApps.data.entries =
      [⟨text "web", [⟨text "web", text "DEBUG", text "ready", 5⟩,
        ⟨text "web", text "WARN", text "slow", 9⟩]⟩,
      ⟨text "db", [⟨text "db", text "ERROR", text "down", 7⟩]⟩] := rfl
  constructor <;> rw [only] <;> simp [text]

theorem readBinary_writeBinary_twoApps :
    ∃ loaded, readBinary (fun _ _ => 0) ⟨writeBinary twoApps ++ text "more", false⟩ Store.empty =
        some (loaded, ⟨text "more", false⟩) ∧
      loaded.data.lookup (text "web") = some [⟨text "web", text "INFO", text "ready", 5⟩,
        ⟨text "web", text "WARN", text "slow", 9⟩] ∧
      loaded.data.lookup (text "db") = some [⟨text "db", text "ERROR", text "down", 7⟩] ∧
      loaded.lastSeen (text "api") = none := by
  obtain ⟨loaded, read, data, -, unseen⟩ :=
    readBinary_writeBinary (fun _ _ => 0) twoApps ((oneEntry_keyed.insert _).insert _)
      twoApps_fits (text "more")
  exact ⟨loaded, read, by rw [data]; rfl, by rw [data]; rfl, unseen _ rfl⟩

end LogMonitor.Tsdb
