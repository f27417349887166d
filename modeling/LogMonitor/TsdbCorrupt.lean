import LogMonitor.TsdbRestart

/-!
Loading files that no save has written. The format is read a second time here,
field by field and refusing whatever is not whole; against that reading the
loader invents entries, since it never looks at the state of its stream.
-/

namespace LogMonitor.Tsdb
open Library Library.ByteString Library.BinaryStream

/-- Where a file ends inside the entries of an app: how many of those announced are not
whole, and the bytes there are of the first of them. -/
structure Cut where
  app : Bytes
  missing : Nat
  available : Bytes

/-- The file ends where no entry has been announced. -/
def Cut.outside : Cut := ⟨[], 0, []⟩

/-- A length and as many bytes. -/
def wholeString (bytes : Bytes) : Option (Bytes × Bytes) :=
  if bytes.length < 4 then none
  else
    if bytes.length < 4 + decode (bytes.take 4) then none
    else some ((bytes.drop 4).take (decode (bytes.take 4)), bytes.drop (4 + decode (bytes.take 4)))

/-- Eight bytes of time, one of level, and the message. -/
def wholeEntry (app bytes : Bytes) : Option (TsdbEntry × Bytes) :=
  if bytes.length < 9 then none
  else
    (wholeString (bytes.drop 9)).map fun (message, rest) =>
      (⟨app, idxToLevel (UInt8.ofNat (decode ((bytes.drop 8).take 1))), message,
        Int64.ofBitVec (BitVec.ofNat 64 (decode (bytes.take 8)))⟩, rest)

/-- The whole ones among so many announced entries, and what follows them. -/
def scanEntries (app : Bytes) : Nat → Bytes → List TsdbEntry × Except Cut Bytes
  | 0, bytes => ([], .ok bytes)
  | announced + 1, bytes =>
    match wholeEntry app bytes with
    | none => ([], .error ⟨app, announced + 1, bytes⟩)
    | some (entry, rest) =>
      let (entries, tail) := scanEntries app announced rest
      (entry :: entries, tail)

/-- A count that is cut off announces as many entries as the bytes there are tell. -/
def scanApps : Nat → Bytes → List TsdbEntry × Except Cut Bytes
  | 0, bytes => ([], .ok bytes)
  | announced + 1, bytes =>
    match wholeString bytes with
    | none => ([], .error .outside)
    | some (app, counted) =>
      if counted.length < 4 then ([], .error ⟨app, decode counted, []⟩)
      else
        match scanEntries app (decode (counted.take 4)) (counted.drop 4) with
        | (entries, .error cut) => (entries, .error cut)
        | (entries, .ok rest) =>
          let (more, tail) := scanApps announced rest
          (entries ++ more, tail)

/-- `none` for a file that does not start with the magic number. -/
def scanFile (bytes : Bytes) : Option (List TsdbEntry × Except Cut Bytes) :=
  if bytes.length < 8 ∨ decode (bytes.take 8) ≠ magic then none
  else if bytes.length < 12 then some ([], .error .outside)
  else some (scanApps (decode ((bytes.drop 8).take 4)) (bytes.drop 12))

def wholeEntries (bytes app : Bytes) : List TsdbEntry :=
  match scanFile bytes with
  | none => []
  | some (entries, _) => entries.filter (·.appName = app)

/-- A timestamp of which only the bytes `available` come from the file. -/
def patched (available : Bytes) (garbage : Int64) : Int64 :=
  Int64.ofBitVec (BitVec.ofNat 64 (decode (available.take 8 ++
    (encode 8 garbage.toBitVec.toNat).drop available.length)))

section Reads

variable {bytes rest : Bytes}

theorem readString_some {s : Bytes} (whole : wholeString bytes = some (s, rest)) :
    readString ⟨bytes, false⟩ = (s, ⟨rest, false⟩) := by
  unfold wholeString at whole
  split_ifs at whole with short cut
  obtain ⟨rfl, rfl⟩ := Prod.mk.inj (Option.some.inj whole)
  have enough : (List.replicate (decode (bytes.take 4)) (0 : UInt8)).length ≤
      (bytes.drop 4).length := by
    rw [List.length_replicate, List.length_drop]
    omega
  unfold readString
  rw [InputStream.readNumber_enough (by omega)]
  simp only [InputStream.read_enough enough, List.length_replicate, List.drop_drop]

theorem readString_none (cut : wholeString bytes = none) :
    ∃ s remaining, readString ⟨bytes, false⟩ = (s, ⟨remaining, true⟩) := by
  unfold wholeString at cut
  unfold readString
  by_cases short : bytes.length < 4
  · rw [InputStream.readNumber_cut short]
    exact ⟨_, _, InputStream.read_failed rfl⟩
  · rw [if_neg short] at cut
    simp only [ite_eq_left_iff, reduceCtorEq, imp_false, not_not] at cut
    rw [InputStream.readNumber_enough (by omega)]
    refine ⟨_, _, InputStream.read_short ?_⟩
    rw [List.length_drop, List.length_replicate]
    omega

theorem readString_failed {input : InputStream} (failed : input.failed = true) :
    readString input = ([], input) := by
  unfold readString
  rw [InputStream.readNumber_failed failed (Nat.pow_pos (by decide))]
  exact InputStream.read_failed failed

theorem readTimestamp_failed (garbage : Int64) {input : InputStream}
    (failed : input.failed = true) : readTimestamp garbage input = (garbage, input) := by
  have small : garbage.toBitVec.toNat < 256 ^ 8 := garbage.toBitVec.isLt
  unfold readTimestamp
  simp only [InputStream.readNumber_failed failed small, BitVec.ofNat_toNat, BitVec.setWidth_eq,
    Int64.ofBitVec_toBitVec]

/-- On a failed stream an entry is what it was before the reads. -/
theorem readEntry_failed (app : Bytes) (garbage : Int64) {input : InputStream}
    (failed : input.failed = true) :
    readEntry app garbage input = (⟨app, text "INFO", [], garbage⟩, input) := by
  unfold readEntry
  simp only [readTimestamp_failed garbage failed,
    InputStream.readNumber_failed failed (show 0 < 256 ^ 1 by decide), readString_failed failed]
  rfl

theorem readEntry_some {app : Bytes} {entry : TsdbEntry} (garbage : Int64)
    (whole : wholeEntry app bytes = some (entry, rest)) :
    readEntry app garbage ⟨bytes, false⟩ = (entry, ⟨rest, false⟩) := by
  unfold wholeEntry at whole
  split_ifs at whole with short
  obtain ⟨⟨message, after⟩, found, same⟩ := Option.map_eq_some_iff.mp whole
  obtain ⟨rfl, rfl⟩ := Prod.mk.inj same
  unfold readEntry readTimestamp
  simp only [InputStream.readNumber_enough (show 8 ≤ bytes.length by omega),
    InputStream.readNumber_enough (show 1 ≤ (bytes.drop 8).length by rw [List.length_drop]; omega),
    List.drop_drop, readString_some found]

/-- An entry that is cut off has a timestamp made of what there is and of garbage. -/
theorem readEntry_none {app : Bytes} (garbage : Int64) (cut : wholeEntry app bytes = none) :
    ∃ entry remaining, readEntry app garbage ⟨bytes, false⟩ = (entry, ⟨remaining, true⟩) ∧
      entry.appName = app ∧ entry.timestampNs = patched bytes garbage := by
  unfold readEntry readTimestamp patched
  by_cases time : bytes.length < 8
  · rw [InputStream.readNumber_short time, List.take_of_length_le (by omega)]
    simp only [InputStream.readNumber_failed (show (⟨[], true⟩ : InputStream).failed = true from rfl)
      (show 0 < 256 ^ 1 by decide), readString_failed
      (show (⟨[], true⟩ : InputStream).failed = true from rfl)]
    exact ⟨_, _, rfl, rfl, rfl⟩
  · have fixed : (encode 8 garbage.toBitVec.toNat).drop bytes.length = [] :=
      List.drop_of_length_le (by rw [length_encode]; omega)
    rw [InputStream.readNumber_enough (by omega), fixed, List.append_nil]
    by_cases level : bytes.length < 9
    · have none : (bytes.drop 8).length < 1 := by rw [List.length_drop]; omega
      simp only [InputStream.readNumber_cut none, readString_failed
        (show (⟨[], true⟩ : InputStream).failed = true from rfl)]
      exact ⟨_, _, rfl, rfl, rfl⟩
    · have rest : wholeString (bytes.drop 9) = none := by
        unfold wholeEntry at cut
        rwa [if_neg level, Option.map_eq_none_iff] at cut
      obtain ⟨message, remaining, read⟩ := readString_none rest
      have byte : 1 ≤ (bytes.drop 8).length := by
        rw [List.length_drop]
        omega
      simp only [InputStream.readNumber_enough byte, List.drop_drop, read]
      exact ⟨_, _, rfl, rfl, rfl⟩

end Reads

/-- `later` has what `store` has and, app by app, the entries `more` behind it. -/
def Gains (store later : Store) (more : List TsdbEntry) : Prop :=
  ∀ app, (later.data.lookup app).getD [] =
    (store.data.lookup app).getD [] ++ more.filter (·.appName = app)

theorem Gains.refl (store : Store) : Gains store store [] :=
  fun _ => (List.append_nil _).symm

theorem Gains.trans {store middle later : Store} {first second : List TsdbEntry}
    (before : Gains store middle first) (after : Gains middle later second) :
    Gains store later (first ++ second) := by
  intro app
  rw [after app, before app, List.filter_append, List.append_assoc]

theorem gains_touch (store : Store) (app : Bytes) : Gains store (store.touch app) [] := by
  intro other
  rw [List.filter_nil, List.append_nil]
  by_cases same : other = app
  · subst same
    have view : (store.touch other).view other = _ := view_touch_self
    exact congrArg (·.getD []) (congrArg Prod.fst view)
  · have view : (store.touch app).view other = _ := view_touch_ne same
    exact congrArg (·.getD []) (congrArg Prod.fst view)

theorem gains_append (store : Store) (entry : TsdbEntry) :
    Gains store (store.append entry.appName entry) [entry] := by
  intro other
  by_cases same : other = entry.appName
  · subst same
    have view : (store.append entry.appName entry).view entry.appName = _ := view_append_self entry
    have data := congrArg Prod.fst view
    simp only [Store.view, appendView] at data
    simp [data]
  · have view : (store.append entry.appName entry).view other = _ := view_append_ne same entry
    have data := congrArg Prod.fst view
    simp only [Store.view] at data
    simp [data, Ne.symm same]

theorem gains_appends (app : Bytes) (entries : List TsdbEntry) (store : Store)
    (named : ∀ e ∈ entries, e.appName = app) :
    Gains store (entries.foldl (Store.append · app) store) entries := by
  induction entries generalizing store with
  | nil => exact .refl store
  | cons entry entries ih =>
    obtain rfl := named entry (List.mem_cons_self ..)
    exact (gains_append store entry).trans
      (ih _ fun e inside => named e (List.mem_cons_of_mem _ inside))

/-- What the inner loop makes of entries on a stream that has failed. -/
def stale (garbage : Nat → Int64) (app : Bytes) : Nat → List TsdbEntry
  | 0 => []
  | n + 1 => ⟨app, text "INFO", [], garbage n⟩ :: stale garbage app n

/-- What the loader makes of the entries that a cut takes away. -/
inductive Invented (garbage : Nat → Int64) (cut : Cut) : List TsdbEntry → Prop
  | none (nothing : cut.missing = 0) : Invented garbage cut []
  | some {m : Nat} {entry : TsdbEntry} (missing : cut.missing = m + 1)
      (named : entry.appName = cut.app)
      (time : entry.timestampNs = patched cut.available (garbage m)) :
      Invented garbage cut (entry :: stale garbage cut.app m)

theorem stale_named (garbage : Nat → Int64) (app : Bytes) (n : Nat) :
    ∀ e ∈ stale garbage app n, e.appName = app := by
  induction n with
  | zero => simp [stale]
  | succ n ih =>
    intro e inside
    rcases List.mem_cons.mp inside with rfl | later
    · rfl
    · exact ih e later

theorem Invented.named {garbage : Nat → Int64} {cut : Cut} {invented : List TsdbEntry}
    (made : Invented garbage cut invented) : ∀ e ∈ invented, e.appName = cut.app := by
  cases made with
  | none => simp
  | some _ named _ =>
    intro e inside
    rcases List.mem_cons.mp inside with rfl | later
    · exact named
    · exact stale_named _ _ _ e later

theorem patched_nil (garbage : Int64) : patched [] garbage = garbage := by
  have small : garbage.toBitVec.toNat < 256 ^ 8 := garbage.toBitVec.isLt
  simp only [patched, List.take_nil, List.nil_append, List.length_nil, List.drop_zero,
    decode_encode_of_lt small, BitVec.ofNat_toNat, BitVec.setWidth_eq, Int64.ofBitVec_toBitVec]

theorem invented_stale (garbage : Nat → Int64) (app : Bytes) (n : Nat) :
    Invented garbage ⟨app, n, []⟩ (stale garbage app n) := by
  cases n with
  | zero => exact .none rfl
  | succ n => exact .some rfl rfl (patched_nil (garbage n)).symm

theorem readEntries_failed (garbage : Nat → Int64) (app : Bytes) (n : Nat) (store : Store)
    {input : InputStream} (failed : input.failed = true) :
    readEntries garbage app n store input =
      ((stale garbage app n).foldl (Store.append · app) store, input) := by
  induction n generalizing store with
  | zero => rfl
  | succ n ih =>
    rw [readEntries, readEntry_failed app _ failed]
    exact ih _

theorem wholeEntry_named {app bytes rest : Bytes} {entry : TsdbEntry}
    (whole : wholeEntry app bytes = some (entry, rest)) : entry.appName = app := by
  unfold wholeEntry at whole
  split_ifs at whole
  obtain ⟨_, _, same⟩ := Option.map_eq_some_iff.mp whole
  obtain ⟨rfl, rfl⟩ := Prod.mk.inj same
  rfl

/-- The inner loop on a stream that is still good. -/
theorem readEntries_scan (garbage : Nat → Int64) (app : Bytes) (n : Nat) (store : Store)
    (bytes : Bytes) :
    match scanEntries app n bytes with
    | (entries, .ok rest) => ∃ later, Gains store later entries ∧
        readEntries garbage app n store ⟨bytes, false⟩ = (later, ⟨rest, false⟩)
    | (entries, .error cut) => ∃ later remaining invented, Invented garbage cut invented ∧
        Gains store later (entries ++ invented) ∧
        readEntries garbage app n store ⟨bytes, false⟩ = (later, ⟨remaining, true⟩) := by
  induction n generalizing store bytes with
  | zero => exact ⟨store, .refl store, rfl⟩
  | succ n ih =>
    rw [scanEntries, readEntries]
    cases whole : wholeEntry app bytes with
    | none =>
      obtain ⟨entry, remaining, read, named, time⟩ := readEntry_none (garbage n) whole
      have made : Invented garbage ⟨app, n + 1, bytes⟩ (entry :: stale garbage app n) :=
        .some rfl named time
      refine ⟨_, remaining, _, made, gains_appends app _ store made.named, ?_⟩
      rw [read]
      exact readEntries_failed garbage app n _ rfl
    | some found =>
      obtain ⟨entry, rest⟩ := found
      have first := gains_append store entry
      have next := ih (store.append entry.appName entry) rest
      rw [readEntry_some (garbage n) whole, ← wholeEntry_named whole]
      rw [← wholeEntry_named whole] at next
      simp only
      cases scan : scanEntries entry.appName n rest with
      | mk entries tail =>
        rw [scan] at next
        cases tail with
        | ok rest =>
          obtain ⟨later, gains, read⟩ := next
          exact ⟨later, first.trans gains, read⟩
        | error cut =>
          obtain ⟨later, remaining, invented, made, gains, read⟩ := next
          exact ⟨later, remaining, invented, made, first.trans gains, read⟩

theorem readApps_failed (garbage : Nat → Nat → Int64) (n : Nat) (store : Store)
    {input : InputStream} (failed : input.failed = true) :
    ∃ later, Gains store later [] ∧ readApps garbage n store input = (later, input) := by
  induction n generalizing store with
  | zero => exact ⟨store, .refl store, rfl⟩
  | succ n ih =>
    obtain ⟨later, gains, read⟩ := ih (store.touch [])
    refine ⟨later, (gains_touch store []).trans gains, ?_⟩
    rw [readApps, readString_failed failed]
    simp only [InputStream.readNumber_failed failed (show 0 < 256 ^ 4 by decide)]
    exact read

/-- The outer loop on a stream that is still good. -/
theorem readApps_scan (garbage : Nat → Nat → Int64) (n : Nat) (store : Store) (bytes : Bytes) :
    match scanApps n bytes with
    | (entries, .ok rest) => ∃ later, Gains store later entries ∧
        readApps garbage n store ⟨bytes, false⟩ = (later, ⟨rest, false⟩)
    | (entries, .error cut) => ∃ later input a invented, Invented (garbage a) cut invented ∧
        Gains store later (entries ++ invented) ∧
        readApps garbage n store ⟨bytes, false⟩ = (later, input) := by
  induction n generalizing store bytes with
  | zero => exact ⟨store, .refl store, rfl⟩
  | succ n ih =>
    rw [scanApps, readApps]
    cases named : wholeString bytes with
    | none =>
      obtain ⟨app, remaining, read⟩ := readString_none named
      have failed : (⟨remaining, true⟩ : InputStream).failed = true := rfl
      obtain ⟨later, gains, rest⟩ := readApps_failed garbage n (store.touch app) failed
      refine ⟨later, ⟨remaining, true⟩, 0, [], .none rfl, (gains_touch store app).trans gains, ?_⟩
      rw [read]
      simp only [InputStream.readNumber_failed failed (show 0 < 256 ^ 4 by decide)]
      exact rest
    | some found =>
      obtain ⟨app, counted⟩ := found
      rw [readString_some named]
      simp only
      by_cases short : counted.length < 4
      · rw [if_pos short, InputStream.readNumber_cut short]
        have failed : (⟨[], true⟩ : InputStream).failed = true := rfl
        have made := invented_stale (garbage n) app (decode counted)
        have filled := gains_appends app _ (store.touch app) made.named
        obtain ⟨later, gains, rest⟩ := readApps_failed garbage n _ failed
        have total := ((gains_touch store app).trans filled).trans gains
        rw [List.append_nil] at total
        refine ⟨later, ⟨[], true⟩, n, _, made, total, ?_⟩
        simp only [readEntries_failed (garbage n) app _ _ failed]
        exact rest
      · rw [if_neg short, InputStream.readNumber_enough (by omega)]
        have entries := readEntries_scan (garbage n) app (decode (counted.take 4))
          (store.touch app) (counted.drop 4)
        cases scan : scanEntries app (decode (counted.take 4)) (counted.drop 4) with
        | mk whole tail =>
          rw [scan] at entries
          cases tail with
          | error cut =>
            obtain ⟨middle, remaining, invented, made, filled, read⟩ := entries
            have failed : (⟨remaining, true⟩ : InputStream).failed = true := rfl
            obtain ⟨later, gains, rest⟩ := readApps_failed garbage n middle failed
            have total := ((gains_touch store app).trans filled).trans gains
            rw [List.append_nil] at total
            refine ⟨later, ⟨remaining, true⟩, n, invented, made, total, ?_⟩
            simp only [read]
            exact rest
          | ok rest =>
            obtain ⟨middle, filled, read⟩ := entries
            have more := ih middle rest
            simp only [read]
            have start := (gains_touch store app).trans filled
            cases following : scanApps n rest with
            | mk others tail =>
              rw [following] at more
              cases tail with
              | ok final =>
                obtain ⟨later, gains, done⟩ := more
                exact ⟨later, start.trans gains, done⟩
              | error cut =>
                obtain ⟨later, input, a, invented, made, gains, done⟩ := more
                refine ⟨later, input, a, invented, made, ?_, done⟩
                have total := start.trans gains
                rwa [← List.append_assoc] at total

/-- Reading a file, against the reading that refuses what is not whole. -/
theorem readBinary_scan (garbage : Nat → Nat → Int64) (bytes : Bytes) :
    match scanFile bytes with
    | none => readBinary garbage ⟨bytes, false⟩ Store.empty = none
    | some (entries, .ok _) => ∃ later input, Gains Store.empty later entries ∧
        readBinary garbage ⟨bytes, false⟩ Store.empty = some (later, input)
    | some (entries, .error cut) => ∃ later input a invented, Invented (garbage a) cut invented ∧
        Gains Store.empty later (entries ++ invented) ∧
        readBinary garbage ⟨bytes, false⟩ Store.empty = some (later, input) := by
  unfold scanFile readBinary
  by_cases short : bytes.length < 8
  · have small : decode bytes < 256 ^ 7 :=
      (decode_lt bytes).trans_le (Nat.pow_le_pow_right (by decide) (by omega))
    have other : decode bytes ≠ magic := by
      intro same
      rw [same] at small
      exact absurd small (by decide)
    rw [if_pos (.inl short), InputStream.readNumber_cut short]
    simp only [if_pos other]
  · rw [InputStream.readNumber_enough (by omega)]
    by_cases wrong : decode (bytes.take 8) = magic
    · rw [if_neg (by simp [short, wrong])]
      simp only [wrong, ne_eq, not_true_eq_false, if_false]
      by_cases cut : bytes.length < 12
      · have few : (bytes.drop 8).length < 4 := by rw [List.length_drop]; omega
        have failed : (⟨[], true⟩ : InputStream).failed = true := rfl
        obtain ⟨later, gains, done⟩ :=
          readApps_failed garbage (decode (bytes.drop 8)) Store.empty failed
        rw [if_pos cut, InputStream.readNumber_cut few]
        exact ⟨later, ⟨[], true⟩, 0, [], .none rfl, gains, congrArg some done⟩
      · have enough : 4 ≤ (bytes.drop 8).length := by rw [List.length_drop]; omega
        have apps := readApps_scan garbage (decode ((bytes.drop 8).take 4)) Store.empty
          (bytes.drop 12)
        rw [if_neg cut, InputStream.readNumber_enough enough]
        simp only [List.drop_drop]
        cases scan : scanApps (decode ((bytes.drop 8).take 4)) (bytes.drop 12) with
        | mk entries tail =>
          rw [scan] at apps
          cases tail with
          | ok rest =>
            obtain ⟨later, gains, done⟩ := apps
            exact ⟨later, _, gains, congrArg some done⟩
          | error cut =>
            obtain ⟨later, input, a, invented, made, gains, done⟩ := apps
            exact ⟨later, input, a, invented, made, gains, congrArg some done⟩
    · rw [if_pos (.inr wrong)]
      simp only [if_pos wrong]

/-- The cut takes nothing away, or one entry whose timestamp is old whatever completes it. -/
def Harmless (cut : Cut) (cutoff : Int) : Prop :=
  cut.missing = 0 ∨ cut.missing = 1 ∧ ∀ garbage, (patched cut.available garbage).toInt < cutoff

def HarmlessFile (bytes : Bytes) (cutoff : Int) : Prop :=
  ∀ entries cut, scanFile bytes = some (entries, .error cut) → Harmless cut cutoff

/-- What a load leaves to an app, once the loader's loops have run. -/
theorem loaded_entries {garbage : Nat → Nat → Int64} {bytes : Bytes} {now : Int} {later : Store}
    {input : InputStream} {more : List TsdbEntry} (gains : Gains Store.empty later more)
    (read : readBinary garbage ⟨bytes, false⟩ Store.empty = some (later, input)) (app : Bytes) :
    ((loadFromDisk ⟨garbage, false, now⟩ (some bytes)).data.lookup app).getD [] =
      (more.filter (·.appName = app)).filter fun e => now - evictionAgeNs ≤ e.timestampNs.toInt := by
  simp only [loadFromDisk, Bool.false_eq_true, if_false, read, evictOldEntries_lookup, gains app]
  rfl

/-- A harmless cut leaves nothing that the eviction keeps. -/
theorem Invented.evicted {garbage : Nat → Int64} {cut : Cut} {invented : List TsdbEntry}
    {cutoff : Int} (made : Invented garbage cut invented) (harmless : Harmless cut cutoff)
    (app : Bytes) :
    (invented.filter (·.appName = app)).filter (fun e => cutoff ≤ e.timestampNs.toInt) = [] := by
  rw [List.filter_eq_nil_iff]
  intro e inside
  have member := List.mem_of_mem_filter inside
  cases made with
  | none => simp at member
  | @some m entry missing named time =>
    rcases harmless with zero | ⟨one, old⟩
    · omega
    · obtain rfl : m = 0 := by omega
      obtain rfl := List.mem_singleton.mp member
      rw [time]
      have := old (garbage 0)
      simpa using this

/-- Otherwise some values of the uninitialised fields make an entry that stays. -/
theorem exists_kept {cut : Cut} {now : Int64} (harmful : ¬Harmless cut (now.toInt - evictionAgeNs)) :
    ∃ value : Int64, ∀ invented, Invented (fun _ => value) cut invented →
      ∃ e ∈ invented, now.toInt - evictionAgeNs ≤ e.timestampNs.toInt := by
  unfold Harmless at harmful
  push Not at harmful
  obtain ⟨some, single⟩ := harmful
  by_cases one : cut.missing = 1
  · obtain ⟨value, recent⟩ := single one
    refine ⟨value, fun invented made => ?_⟩
    cases made with
    | none nothing => exact absurd nothing some
    | @some m entry missing named time =>
      exact ⟨entry, List.mem_cons_self .., by rw [time]; exact recent⟩
  · refine ⟨Int64.maxValue, fun invented made => ?_⟩
    cases made with
    | none nothing => exact absurd nothing some
    | @some m entry missing named time =>
      obtain ⟨m, rfl⟩ := Nat.exists_eq_succ_of_ne_zero (show m ≠ 0 by omega)
      refine ⟨⟨cut.app, text "INFO", [], Int64.maxValue⟩, ?_, ?_⟩
      · exact List.mem_cons_of_mem _ (List.mem_cons_self ..)
      · have top := now.toInt_le
        unfold evictionAgeNs
        simp only
        omega

/-- For every file: whatever uninitialised fields hold and whether or not memory runs out,
each app gets at most its whole entries, each at most once; if and only if the file is
harmless. -/
theorem loads_whole_entries_iff (bytes : Bytes) (now : Int64) :
    (∀ garbage outOfMemory app,
      (((loadFromDisk ⟨garbage, outOfMemory, now.toInt⟩ (some bytes)).data.lookup app).getD
        []).Sublist (wholeEntries bytes app)) ↔
      HarmlessFile bytes (now.toInt - evictionAgeNs) := by
  constructor
  · intro honest entries cut scan
    by_contra harmful
    obtain ⟨value, kept⟩ := exists_kept harmful
    have read := readBinary_scan (fun _ _ => value) bytes
    rw [scan] at read
    obtain ⟨later, input, _, invented, made, gains, done⟩ := read
    obtain ⟨e, inside, recent⟩ := kept invented made
    have sublist := honest (fun _ _ => value) false cut.app
    rw [loaded_entries gains done, wholeEntries, scan] at sublist
    simp only at sublist
    have shorter := (sublist.filter fun e =>
      decide (now.toInt - evictionAgeNs ≤ e.timestampNs.toInt)).length_le
    have here : 0 < ((invented.filter (·.appName = cut.app)).filter fun e =>
        decide (now.toInt - evictionAgeNs ≤ e.timestampNs.toInt)).length := by
      apply List.length_pos_of_mem (a := e)
      have named : e ∈ invented.filter (·.appName = cut.app) :=
        List.mem_filter.mpr ⟨inside, decide_eq_true (made.named e inside)⟩
      exact List.mem_filter.mpr ⟨named, decide_eq_true recent⟩
    rw [List.filter_filter, List.filter_append, List.filter_append, List.length_append] at shorter
    simp only [Bool.and_self] at shorter
    omega
  · intro harmless garbage outOfMemory app
    cases outOfMemory with
    | true => exact List.nil_sublist _
    | false =>
      have read := readBinary_scan garbage bytes
      cases scan : scanFile bytes with
      | none =>
        rw [scan] at read
        simp only [loadFromDisk, Bool.false_eq_true, if_false, read]
        exact List.nil_sublist _
      | some found =>
        obtain ⟨entries, tail⟩ := found
        rw [scan] at read
        rw [wholeEntries, scan]
        cases tail with
        | ok rest =>
          obtain ⟨later, input, gains, done⟩ := read
          rw [loaded_entries gains done]
          exact List.filter_sublist
        | error cut =>
          obtain ⟨later, input, a, invented, made, gains, done⟩ := read
          rw [loaded_entries gains done, List.filter_append, List.filter_append,
            made.evicted (harmless entries cut scan) app, List.append_nil]
          exact List.filter_sublist

def announcingFile : Bytes := encode 8 magic ++ encode 4 1 ++ writeString (text "a") ++ encode 4 1

/-- The loader makes up the entry, with the time an uninitialised field happens to hold. -/
theorem announced_entry_invented :
    ((loadFromDisk ⟨fun _ _ => 7, false, 0⟩ (some announcingFile)).data.lookup (text "a")).getD [] =
        [⟨text "a", text "INFO", [], 7⟩] ∧
      wholeEntries announcingFile (text "a") = [] := by
  constructor <;> decide

end LogMonitor.Tsdb
