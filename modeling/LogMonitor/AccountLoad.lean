import LogMonitor.Library.Positions
import LogMonitor.UserStore
import Mathlib.Data.List.Dedup

/-!
What the constructors of the account stores make of any file. A file that is
missing, is no JSON or holds no array leaves a store empty; but an element of the
array that is no object, or has a field of another type, makes the constructor
throw, and two records with one key leave an index that leads past the first.
-/

namespace LogMonitor.AccountLoad
open Library Library.ByteString Library.Positions

/-- A vector with two indexes that are filled together. -/
structure Indexed (σ α : Type) where
  items : σ → List α
  byId : σ → Bytes → Option Nat
  byKey : σ → Bytes → Option Nat
  push : σ → α → σ
  id : α → Bytes
  key : α → Bytes
  items_push : ∀ s x, items (push s x) = items s ++ [x]
  byId_push : ∀ s x, byId (push s x) = Function.update (byId s) (id x) (some (items s).length)
  byKey_push : ∀ s x, byKey (push s x) = Function.update (byKey s) (key x) (some (items s).length)

namespace Indexed

variable {σ α : Type} (store : Indexed σ α)

/-- Each item is found under both of its keys, and no two have the same id. -/
structure Consistent (s : σ) : Prop where
  byId : ∀ x ∈ store.items s,
    (store.byId s (store.id x)).bind (fun position => (store.items s)[position]?) = some x
  byKey : ∀ x ∈ store.items s,
    (store.byKey s (store.key x)).bind (fun position => (store.items s)[position]?) = some x
  size : (store.items s).length = ((store.items s).map store.id).dedup.length

structure Filled (s : σ) : Prop where
  byId : FindsLast store.id (store.items s) (store.byId s)
  byKey : FindsLast store.key (store.items s) (store.byKey s)

variable {store} {s : σ}

theorem Filled.push (filled : store.Filled s) (x : α) : store.Filled (store.push s x) := by
  constructor
  · rw [store.items_push, store.byId_push]
    exact filled.byId.push x
  · rw [store.items_push, store.byKey_push]
    exact filled.byKey.push x

theorem Filled.foldl (filled : store.Filled s) (xs : List α) :
    store.Filled (xs.foldl store.push s) := by
  induction xs generalizing s with
  | nil => exact filled
  | cons x xs ih => exact ih (filled.push x)

theorem items_foldl (xs : List α) (s : σ) :
    store.items (xs.foldl store.push s) = store.items s ++ xs := by
  induction xs generalizing s with
  | nil => exact (List.append_nil _).symm
  | cons x xs ih =>
    rw [List.foldl_cons, ih, store.items_push, List.append_assoc, List.singleton_append]

theorem Filled.consistent_iff (filled : store.Filled s) : store.Consistent s ↔
    ((store.items s).map store.id).Nodup ∧ ((store.items s).map store.key).Nodup := by
  constructor
  · rintro ⟨-, keyed, size⟩
    have ids : ((store.items s).map store.id).Nodup := by
      rw [← List.dedup_eq_self]
      refine (List.dedup_sublist _).eq_of_length ?_
      rw [← size, List.length_map]
    refine ⟨ids, List.Nodup.map_on ?_ ids.of_map⟩
    exact filled.byKey.all_iff.mp keyed
  · rintro ⟨ids, keys⟩
    refine ⟨filled.byId.all_iff.mpr ?_, filled.byKey.all_iff.mpr ?_, ?_⟩
    · exact fun x listed y also same => List.inj_on_of_nodup_map ids listed also same
    · exact fun x listed y also same => List.inj_on_of_nodup_map keys listed also same
    · rw [ids.dedup, List.length_map]

end Indexed

def textAt (key : Bytes) (json : Json) : Bytes :=
  match json.member key with
  | some (.string value) => value
  | _ => []

def IsObject (json : Json) : Prop := ∃ members, json = .object members

def HasText (key : Bytes) (json : Json) : Prop :=
  ∀ value, json.member key = some value → ∃ bytes, value = .string bytes

def HasNumber (key : Bytes) (json : Json) : Prop :=
  ∀ value, json.member key = some value → (∃ n, value = .integer n) ∨ ∃ x, value = .real x

/-- An object with text in these fields and a number for the time. -/
structure Readable (texts : List Bytes) (json : Json) : Prop where
  object : IsObject json
  texts : ∀ key ∈ texts, HasText key json
  time : HasNumber (text "created_at_ns") json

theorem valueString_spec (key : Bytes) (json : Json) :
    (IsObject json ∧ HasText key json ∧ json.valueString key [] = .ok (textAt key json)) ∨
      ¬(IsObject json ∧ HasText key json) ∧ ∃ error, json.valueString key [] = .error error := by
  cases json with
  | object members =>
    have object : IsObject (.object members) := ⟨members, rfl⟩
    simp only [Json.valueString, HasText, textAt]
    cases (Json.object members).member key with
    | none => exact .inl ⟨object, nofun, rfl⟩
    | some value =>
      cases value with
      | string bytes => exact .inl ⟨object, fun _ same => ⟨bytes, (Option.some.inj same).symm⟩, rfl⟩
      | _ =>
        refine .inr ⟨fun both => ?_, _, rfl⟩
        obtain ⟨bytes, other⟩ := both.2 _ rfl
        exact nomatch other
  | _ =>
    refine .inr ⟨fun both => ?_, _, rfl⟩
    obtain ⟨members, other⟩ := both.1
    exact nomatch other

theorem valueInt64_spec (key : Bytes) {json : Json} (object : IsObject json) :
    (HasNumber key json ∧ ∃ n, json.valueInt64 key 0 = .ok n) ∨
      ¬HasNumber key json ∧ ∃ error, json.valueInt64 key 0 = .error error := by
  obtain ⟨members, rfl⟩ := object
  simp only [Json.valueInt64, HasNumber]
  cases (Json.object members).member key with
  | none => exact .inl ⟨nofun, _, rfl⟩
  | some value =>
    cases value with
    | integer n => exact .inl ⟨fun _ same => .inl ⟨n, (Option.some.inj same).symm⟩, _, rfl⟩
    | real x => exact .inl ⟨fun _ same => .inr ⟨x, (Option.some.inj same).symm⟩, _, rfl⟩
    | _ =>
      refine .inr ⟨fun number => ?_, _, rfl⟩
      rcases number _ rfl with ⟨_, other⟩ | ⟨_, other⟩ <;> exact nomatch other

section Records

variable {σ α : Type}

/-- What both loaders do with an element: four texts and a time, in this order. -/
def readRecord (make : Bytes → Bytes → Bytes → Bytes → Int64 → α)
    (first second third fourth : Bytes)
    (json : Json) : Except Json.Error α := do
  return make (← json.valueString first []) (← json.valueString second [])
    (← json.valueString third []) (← json.valueString fourth [])
    (← json.valueInt64 (text "created_at_ns") 0)

theorem readRecord_spec (make : Bytes → Bytes → Bytes → Bytes → Int64 → α)
    (first second third fourth : Bytes) (json : Json) :
    (Readable [first, second, third, fourth] json ∧ ∃ time,
      readRecord make first second third fourth json = .ok (make (textAt first json)
        (textAt second json) (textAt third json) (textAt fourth json) time)) ∨
    ¬Readable [first, second, third, fourth] json ∧
      ∃ error, readRecord make first second third fourth json = .error error := by
  have refused (key : Bytes) (listed : key ∈ [first, second, third, fourth])
      (bad : ¬(IsObject json ∧ HasText key json)) :
      ¬Readable [first, second, third, fourth] json :=
    fun readable => bad ⟨readable.object, readable.texts key listed⟩
  unfold readRecord
  rcases valueString_spec first json with ⟨object, one, read⟩ | ⟨bad, error, failed⟩
  · rcases valueString_spec second json with ⟨-, two, readTwo⟩ | ⟨bad, error, failed⟩
    · rcases valueString_spec third json with ⟨-, three, readThree⟩ | ⟨bad, error, failed⟩
      · rcases valueString_spec fourth json with ⟨-, four, readFour⟩ | ⟨bad, error, failed⟩
        · rw [read, readTwo, readThree, readFour]
          rcases valueInt64_spec (text "created_at_ns") object with
            ⟨number, time, readTime⟩ | ⟨bad, error, failed⟩
          · rw [readTime]
            exact .inl ⟨⟨object, by simp [one, two, three, four], number⟩, time, rfl⟩
          · rw [failed]
            exact .inr ⟨fun readable => bad readable.time, error, rfl⟩
        · rw [read, readTwo, readThree, failed]
          exact .inr ⟨refused fourth (by simp) bad, error, rfl⟩
      · rw [read, readTwo, failed]
        exact .inr ⟨refused third (by simp) bad, error, rfl⟩
    · rw [read, failed]
      exact .inr ⟨refused second (by simp) bad, error, rfl⟩
  · rw [failed]
    exact .inr ⟨refused first (by simp) bad, error, rfl⟩

/-- The loop of both loaders, which passes over some of what it reads. -/
def loadAll (read : Json → Except Json.Error α) (skips : α → Prop) [DecidablePred skips]
    (push : σ → α → σ) : List Json → σ → Except Json.Error σ
  | [], s => .ok s
  | json :: rest, s => do
    let x ← read json
    loadAll read skips push rest (if skips x then s else push s x)

def kept (read : Json → Except Json.Error α) (skips : α → Prop) [DecidablePred skips]
    (records : List Json) : List α :=
  (records.filterMap fun json => (read json).toOption).filter fun x => ¬skips x

variable {read : Json → Except Json.Error α} {skips : α → Prop} [DecidablePred skips]
  {push : σ → α → σ}

/-- A loop that takes the same steps is `loadAll`. -/
theorem eq_loadAll {load : List Json → σ → Except Json.Error σ} (done : ∀ s, load [] s = .ok s)
    (next : ∀ json rest s, load (json :: rest) s =
      (read json).bind fun x => load rest (if skips x then s else push s x))
    (records : List Json) (s : σ) : load records s = loadAll read skips push records s := by
  induction records generalizing s with
  | nil => exact done s
  | cons json rest ih =>
    rw [next]
    change (read json).bind _ = (read json).bind _
    congr 1
    funext x
    exact ih _

theorem kept_cons {json : Json} {x : α} (done : read json = .ok x) (rest : List Json) :
    kept read skips (json :: rest) =
      if skips x then kept read skips rest else x :: kept read skips rest := by
  by_cases skip : skips x <;> simp [kept, done, Except.toOption, skip]

theorem loadAll_of_read {records : List Json} (reads : ∀ json ∈ records, ∃ x, read json = .ok x)
    (s : σ) : loadAll read skips push records s = .ok ((kept read skips records).foldl push s) := by
  induction records generalizing s with
  | nil => rfl
  | cons json rest ih =>
    obtain ⟨x, done⟩ := reads json (List.mem_cons_self ..)
    have later := ih fun other listed => reads other (List.mem_cons_of_mem _ listed)
    rw [loadAll, done, kept_cons done]
    by_cases skip : skips x
    · rw [if_pos skip]
      simpa only [bind, Except.bind, if_pos skip] using later s
    · rw [if_neg skip, List.foldl_cons]
      simpa only [bind, Except.bind, if_neg skip] using later (push s x)

theorem loadAll_ok {records : List Json} {s t : σ}
    (loaded : loadAll read skips push records s = .ok t) :
    ∀ json ∈ records, ∃ x, read json = .ok x := by
  induction records generalizing s with
  | nil => nofun
  | cons json rest ih =>
    rw [loadAll] at loaded
    cases done : read json with
    | error error =>
      rw [done] at loaded
      exact nomatch loaded
    | ok x =>
      rw [done] at loaded
      intro other listed
      rcases List.mem_cons.mp listed with rfl | later
      · exact ⟨x, done⟩
      · exact ih loaded other later

def entered (id key : Bytes) (records : List Json) : List Json :=
  records.filter fun json => textAt id json ≠ [] ∧ textAt key json ≠ []

theorem entered_cons (id key : Bytes) (json : Json) (rest : List Json) :
    entered id key (json :: rest) = if textAt id json = [] ∨ textAt key json = []
      then entered id key rest else json :: entered id key rest := by
  unfold entered
  by_cases listed : textAt id json = [] ∨ textAt key json = []
  · rw [if_pos listed, List.filter_cons_of_neg (by simpa [or_iff_not_imp_left] using listed)]
  · rw [if_neg listed, List.filter_cons_of_pos (by simpa [not_or] using listed)]

/-- A file that a loader can read, without two records under one id or one key. -/
def Harmless (texts : List Bytes) (id key : Bytes) (parsed : Option Json) : Prop :=
  match parsed with
  | some (.array records) =>
    (∀ json ∈ records, Readable texts json) ∧
      ((entered id key records).map (textAt id)).Nodup ∧
      ((entered id key records).map (textAt key)).Nodup
  | _ => True

/-- The loader of a store: it reads these fields, and skips what has no id or no key. -/
structure Loader (σ α : Type) extends Indexed σ α where
  texts : List Bytes
  idField : Bytes
  keyField : Bytes
  read : Json → Except Json.Error α
  reads : ∀ json, (Readable texts json ∧ ∃ x, read json = .ok x ∧
    id x = textAt idField json ∧ key x = textAt keyField json) ∨
      ¬Readable texts json ∧ ∃ error, read json = .error error

namespace Loader

variable (loader : Loader σ α)

abbrev Skips (x : α) : Prop := loader.id x = [] ∨ loader.key x = []

variable {loader}

theorem read_ok_iff (json : Json) :
    (∃ x, loader.read json = .ok x) ↔ Readable loader.texts json := by
  rcases loader.reads json with ⟨readable, x, done, -⟩ | ⟨bad, error, failed⟩
  · exact iff_of_true ⟨x, done⟩ readable
  · refine iff_of_false ?_ bad
    rintro ⟨x, done⟩
    exact nomatch failed.symm.trans done

theorem kept_names {records : List Json} (readable : ∀ json ∈ records, Readable loader.texts json) :
    (kept loader.read loader.Skips records).map loader.id =
      (entered loader.idField loader.keyField records).map (textAt loader.idField) ∧
    (kept loader.read loader.Skips records).map loader.key =
      (entered loader.idField loader.keyField records).map (textAt loader.keyField) := by
  induction records with
  | nil => exact ⟨rfl, rfl⟩
  | cons json rest ih =>
    have later := ih fun other listed => readable other (List.mem_cons_of_mem _ listed)
    rcases loader.reads json with ⟨-, x, done, sameId, sameKey⟩ | ⟨bad, -⟩
    · rw [kept_cons done, entered_cons]
      simp only [Skips, sameId, sameKey]
      split
      · exact later
      · simp only [List.map_cons, sameId, sameKey, later, and_self]
    · exact absurd (readable json (List.mem_cons_self ..)) bad

variable {initial : σ} {records : List Json}

theorem items_loaded (none : loader.items initial = []) {s : σ}
    (loaded : loadAll loader.read loader.Skips loader.push records initial = .ok s) :
    loader.items s = kept loader.read loader.Skips records := by
  have same := (loadAll_of_read (loadAll_ok loaded) initial).symm.trans loaded
  rw [← Except.ok.inj same, Indexed.items_foldl, none, List.nil_append]

theorem loaded_named (none : loader.items initial = []) {s : σ}
    (loaded : loadAll loader.read loader.Skips loader.push records initial = .ok s) :
    ∀ x ∈ loader.items s, loader.id x ≠ [] ∧ loader.key x ≠ [] := by
  intro x listed
  rw [items_loaded none loaded] at listed
  exact not_or.mp (of_decide_eq_true (List.mem_filter.mp listed).2)

theorem loads_iff (filled : loader.Filled initial) (none : loader.items initial = [])
    (records : List Json) :
    (∃ s, loadAll loader.read loader.Skips loader.push records initial = .ok s ∧
      loader.Consistent s) ↔
      Harmless loader.texts loader.idField loader.keyField (some (.array records)) := by
  constructor
  · rintro ⟨s, loaded, consistent⟩
    have all := loadAll_ok loaded
    have readable : ∀ json ∈ records, Readable loader.texts json :=
      fun json listed => (read_ok_iff json).mp (all json listed)
    have items := items_loaded none loaded
    obtain rfl := Except.ok.inj ((loadAll_of_read all initial).symm.trans loaded)
    have distinct := (filled.foldl _).consistent_iff.mp consistent
    rw [items, (kept_names readable).1, (kept_names readable).2] at distinct
    exact ⟨readable, distinct⟩
  · rintro ⟨readable, distinct⟩
    have all : ∀ json ∈ records, ∃ x, loader.read json = .ok x :=
      fun json listed => (read_ok_iff json).mpr (readable json listed)
    have loaded : loadAll loader.read loader.Skips loader.push records initial = _ :=
      loadAll_of_read all initial
    refine ⟨_, loaded, (filled.foldl _).consistent_iff.mpr ?_⟩
    rwa [items_loaded none loaded, (kept_names readable).1, (kept_names readable).2]

end Loader

end Records

end LogMonitor.AccountLoad

namespace LogMonitor
open Library Library.ByteString AccountLoad

namespace UserStore

def texts : List Bytes := [text "id", text "email", text "password_hash", text "salt"]

/-- Every account is found by its id and by its email, and there are as many as there are ids. -/
structure Consistent (s : State) : Prop where
  byId : ∀ u ∈ s.users, findById s u.id = some u
  byEmail : ∀ u ∈ s.users, findByEmail s u.email = some u
  size : size s = (s.users.map User.id).dedup.length

def loader : Loader State User where
  items := State.users
  byId := State.byId
  byKey := State.byEmail
  push := State.push
  id := User.id
  key := User.email
  items_push _ _ := rfl
  byId_push _ _ := rfl
  byKey_push _ _ := rfl
  texts := texts
  idField := text "id"
  keyField := text "email"
  read := ofJson
  reads json := by
    rcases readRecord_spec User.mk (text "id") (text "email") (text "password_hash") (text "salt")
      json with ⟨readable, time, done⟩ | refused
    · exact .inl ⟨readable, _, done, rfl, rfl⟩
    · exact .inr refused

theorem loadRecords_eq (records : List Json) (s : State) :
    loadRecords records s = loadAll loader.read loader.Skips loader.push records s :=
  eq_loadAll (fun _ => rfl) (fun _ _ _ => rfl) records s

/-- The constructor gives a consistent store on exactly the files that are harmless. -/
theorem load_consistent_iff (parsed : Option Json) (files : Files) :
    (∃ s, load parsed files = .ok s ∧ Consistent s) ↔
      Harmless texts (text "id") (text "email") parsed := by
  have consistent (s : State) : Consistent s ↔ loader.Consistent s :=
    ⟨fun holds => ⟨holds.byId, holds.byEmail, holds.size⟩,
      fun holds => ⟨holds.byId, holds.byKey, holds.size⟩⟩
  have filled : loader.Filled (empty files) := ⟨.nil, .nil⟩
  unfold load
  split
  next records =>
    have loads := Loader.loads_iff filled rfl records
    simp only [← loadRecords_eq, ← consistent] at loads
    exact loads
  next other =>
    refine iff_of_true ⟨_, rfl, (consistent _).mpr ?_⟩ ?_
    · exact filled.consistent_iff.mpr ⟨List.nodup_nil, List.nodup_nil⟩
    · unfold Harmless
      split
      next records => exact absurd rfl (other records)
      next => trivial

end UserStore

namespace ProjectStore

def texts : List Bytes := [text "id", text "name", text "owner_id", text "api_key"]

/-- Every project is found by its id and by its key, and there are as many as there are ids. -/
structure Consistent (s : State) : Prop where
  byId : ∀ p ∈ s.projects, findById s p.id = some p
  byApiKey : ∀ p ∈ s.projects, findByApiKey s p.apiKey = some p
  size : size s = (s.projects.map Project.id).dedup.length

def loader : Loader State Project where
  items := State.projects
  byId := State.byId
  byKey := State.byApiKey
  push := State.push
  id := Project.id
  key := Project.apiKey
  items_push _ _ := rfl
  byId_push _ _ := rfl
  byKey_push _ _ := rfl
  texts := texts
  idField := text "id"
  keyField := text "api_key"
  read := ofJson
  reads json := by
    rcases readRecord_spec Project.mk (text "id") (text "name") (text "owner_id") (text "api_key")
      json with ⟨readable, time, done⟩ | refused
    · exact .inl ⟨readable, _, done, rfl, rfl⟩
    · exact .inr refused

theorem loadRecords_eq (records : List Json) (s : State) :
    loadRecords records s = loadAll loader.read loader.Skips loader.push records s :=
  eq_loadAll (fun _ => rfl) (fun _ _ _ => rfl) records s

theorem size_eq {s : State} (named : ∀ p ∈ s.projects, p.id ≠ []) : size s = s.projects.length := by
  rw [size, List.countP_eq_length]
  exact fun p listed => decide_eq_true (named p listed)

theorem load_consistent_iff (parsed : Option Json) (files : Files) :
    (∃ s, load parsed files = .ok s ∧ Consistent s) ↔
      Harmless texts (text "id") (text "api_key") parsed := by
  have consistent {s : State} (named : ∀ p ∈ s.projects, p.id ≠ []) :
      Consistent s ↔ loader.Consistent s :=
    ⟨fun holds => ⟨holds.byId, holds.byApiKey, (size_eq named).symm.trans holds.size⟩,
      fun holds => ⟨holds.byId, holds.byKey, (size_eq named).trans holds.size⟩⟩
  have filled : loader.Filled (empty files) := ⟨.nil, .nil⟩
  unfold load
  split
  next records =>
    have loads := Loader.loads_iff filled rfl records
    rw [loadRecords_eq]
    refine Iff.trans ?_ loads
    refine exists_congr fun s => and_congr_right fun loaded => consistent fun p listed => ?_
    exact (Loader.loaded_named rfl loaded p listed).1
  next other =>
    have named : ∀ p ∈ (empty files).projects, p.id ≠ [] :=
      fun p listed => absurd listed List.not_mem_nil
    refine iff_of_true ⟨_, rfl, (consistent named).mpr ?_⟩ ?_
    · exact filled.consistent_iff.mpr ⟨List.nodup_nil, List.nodup_nil⟩
    · unfold Harmless
      split
      next records => exact absurd rfl (other records)
      next => trivial

end ProjectStore

namespace AccountLoad

def Starts (parse : Bytes → Option Json) (users projects : Files) : Prop :=
  (∃ s, UserStore.load (users.target.bind parse) users = .ok s ∧ UserStore.Consistent s) ∧
    ∃ s, ProjectStore.load (projects.target.bind parse) projects = .ok s ∧ ProjectStore.Consistent s

theorem starts_iff (parse : Bytes → Option Json) (users projects : Files) :
    Starts parse users projects ↔
      Harmless UserStore.texts (text "id") (text "email") (users.target.bind parse) ∧
      Harmless ProjectStore.texts (text "id") (text "api_key") (projects.target.bind parse) :=
  and_congr (UserStore.load_consistent_iff _ _) (ProjectStore.load_consistent_iff _ _)

/-- A number among the accounts keeps the program from starting. -/
theorem number_throws :
    let parse : Bytes → Option Json :=
      fun bytes => if bytes = text "[1]" then some (.array [.integer 1]) else none
    ¬Starts parse ⟨some (text "[1]"), none⟩ ⟨none, none⟩ := by
  rintro parse ⟨⟨s, loaded, -⟩, -⟩
  have parsed : (some (text "[1]")).bind parse = some (.array [.integer 1]) := rfl
  rw [parsed] at loaded
  exact nomatch loaded

end AccountLoad

end LogMonitor
