import LogMonitor.Library.Json
import Mathlib.Data.Countable.Basic
import Mathlib.Data.Set.Countable

/-!
The text form of JSON values: a writer that throws on a string that is not
UTF-8, and a reader that gets tables back as they were written. Both belong to a
library that the program calls, so they are parameters with a contract.
-/

namespace LogMonitor.Library.Json
open ByteString

/-- The strings of a value, its keys among them. -/
inductive Mentions : Json → Bytes → Prop
  | string (value : Bytes) : Mentions (.string value) value
  | element {elements : List Json} {json : Json} {s : Bytes} (listed : json ∈ elements)
      (inside : Mentions json s) : Mentions (.array elements) s
  | key {members : List (Bytes × Json)} {entry : Bytes × Json} (listed : entry ∈ members) :
      Mentions (.object members) entry.1
  | member {members : List (Bytes × Json)} {entry : Bytes × Json} {s : Bytes}
      (listed : entry ∈ members) (inside : Mentions entry.2 s) : Mentions (.object members) s

def Writable (json : Json) : Prop := ∀ s, json.Mentions s → Utf8 s

@[simp] theorem writable_string (value : Bytes) : (Json.string value).Writable ↔ Utf8 value := by
  refine ⟨fun writable => writable _ (.string value), fun valid s mentioned => ?_⟩
  cases mentioned
  exact valid

@[simp] theorem writable_boolean (value : Bool) : (Json.boolean value).Writable := by
  intro s mentioned
  cases mentioned

@[simp] theorem writable_integer (value : Int) : (Json.integer value).Writable :=
  fun _ mentioned => nomatch mentioned

@[simp] theorem writable_real (value : Rat) : (Json.real value).Writable :=
  fun _ mentioned => nomatch mentioned

@[simp] theorem writable_array (elements : List Json) :
    (Json.array elements).Writable ↔ ∀ json ∈ elements, json.Writable := by
  refine ⟨fun writable json listed s inside => writable s (.element listed inside), ?_⟩
  intro writable s mentioned
  cases mentioned with
  | element listed inside => exact writable _ listed s inside

@[simp] theorem writable_object (members : List (Bytes × Json)) :
    (Json.object members).Writable ↔ ∀ entry ∈ members, Utf8 entry.1 ∧ entry.2.Writable := by
  constructor
  · intro writable entry listed
    exact ⟨writable _ (.key listed), fun s inside => writable s (.member listed inside)⟩
  · intro writable s mentioned
    cases mentioned with
    | key listed => exact (writable _ listed).1
    | member listed inside => exact (writable _ listed).2 s inside

theorem Writable.getString {json : Json} (writable : json.Writable) {key s : Bytes}
    (read : ((json.member key).getD .null).getString = .ok s) : Utf8 s := by
  cases found : json.member key with
  | none =>
    rw [found] at read
    exact nomatch read
  | some value =>
    rw [found, Option.getD_some] at read
    cases json with
    | object members =>
      obtain ⟨entry, first, rfl⟩ := Option.map_eq_some_iff.mp found
      have inside := (writable_object members).mp writable entry (List.mem_of_find?_eq_some first)
      cases value : entry.2 with
      | string text =>
        rw [value] at read inside
        obtain rfl := Except.ok.inj read
        exact (writable_string text).mp inside.2
      | _ =>
        rw [value] at read
        exact nomatch read
    | _ => exact nomatch found

theorem Writable.valueString {json : Json} (writable : json.Writable) {key fallback s : Bytes}
    (plain : Utf8 fallback) (read : json.valueString key fallback = .ok s) : Utf8 s := by
  cases json with
  | object members =>
    simp only [Json.valueString] at read
    cases found : (Json.object members).member key with
    | none =>
      rw [found] at read
      obtain rfl := Except.ok.inj read
      exact plain
    | some value =>
      rw [found] at read
      apply writable.getString
      rwa [found]
  | _ => cases read

/-- A string or a number of 64 bits. -/
inductive Scalar : Json → Prop
  | string (value : Bytes) : Scalar (.string value)
  | integer (value : Int) (fits : -2 ^ 63 ≤ value ∧ value < 2 ^ 63) : Scalar (.integer value)

/-- A row as the writer orders it: each key once, in the order of the keys. -/
structure Row (members : List (Bytes × Json)) : Prop where
  ordered : (members.map Prod.fst).Pairwise (· < ·)
  scalars : ∀ entry ∈ members, Scalar entry.2

def Tabular (json : Json) : Prop :=
  ∃ rows : List (List (Bytes × Json)), json = .array (rows.map .object) ∧ ∀ row ∈ rows, Row row

theorem tabular_array {elements : List Json}
    (rows : ∀ json ∈ elements, ∃ row, json = .object row ∧ Row row) :
    (Json.array elements).Tabular := by
  induction elements with
  | nil => exact ⟨[], rfl, nofun⟩
  | cons json rest ih =>
    obtain ⟨row, rfl, first⟩ := rows json (List.mem_cons_self ..)
    obtain ⟨others, same, each⟩ := ih fun other listed => rows other (List.mem_cons_of_mem _ listed)
    obtain rfl := array.inj same
    exact ⟨row :: others, rfl, List.forall_mem_cons.mpr ⟨first, each⟩⟩

/-- What the library promises of its writer and its reader. -/
structure TextForm (dump : Json → Option Bytes) (parse : Bytes → Option Json) : Prop where
  /-- Writing throws on a string that is not UTF-8, and on nothing else. -/
  strict : ∀ json, (dump json).isSome ↔ json.Writable
  /-- A table that was written is read back. -/
  lossless : ∀ json bytes, json.Tabular → dump json = some bytes → parse bytes = some json

/-- The text of a table is there, and is read as the table, if all its strings are UTF-8. -/
theorem TextForm.read_iff {dump : Json → Option Bytes} {parse : Bytes → Option Json}
    (form : TextForm dump parse) {json : Json} (tabular : json.Tabular) :
    (∃ bytes, dump json = some bytes ∧ parse bytes = some json) ↔ json.Writable := by
  rw [← form.strict, Option.isSome_iff_exists]
  refine exists_congr fun bytes => and_iff_left_of_imp ?_
  exact form.lossless json bytes tabular

section Exists

def ofScalar : Bytes ⊕ Int → Json
  | .inl value => .string value
  | .inr value => .integer value

def ofRows (rows : List (List (Bytes × (Bytes ⊕ Int)))) : Json :=
  .array (rows.map fun row => .object (row.map fun entry => (entry.1, ofScalar entry.2)))

theorem Scalar.exists_of {json : Json} (scalar : Scalar json) : ∃ value, ofScalar value = json := by
  cases scalar with
  | string value => exact ⟨.inl value, rfl⟩
  | integer value => exact ⟨.inr value, rfl⟩

theorem Row.exists_of {members : List (Bytes × Json)} (row : Row members) :
    ∃ plain : List (Bytes × (Bytes ⊕ Int)),
      (plain.map fun entry => (entry.1, ofScalar entry.2)) = members := by
  have scalars := row.scalars
  clear row
  induction members with
  | nil => exact ⟨[], rfl⟩
  | cons entry rest ih =>
    obtain ⟨plain, same⟩ := ih fun other listed => scalars other (List.mem_cons_of_mem _ listed)
    obtain ⟨value, here⟩ := (scalars entry (List.mem_cons_self ..)).exists_of
    exact ⟨(entry.1, value) :: plain, by rw [List.map_cons, same, here]⟩

theorem Tabular.exists_of {json : Json} (tabular : json.Tabular) : ∃ rows, ofRows rows = json := by
  obtain ⟨rows, rfl, each⟩ := tabular
  unfold ofRows
  simp only [array.injEq]
  induction rows with
  | nil => exact ⟨[], rfl⟩
  | cons row rest ih =>
    obtain ⟨plain, same⟩ := ih fun other listed => each other (List.mem_cons_of_mem _ listed)
    obtain ⟨values, here⟩ := (each row (List.mem_cons_self ..)).exists_of
    exact ⟨values :: plain, by rw [List.map_cons, List.map_cons, same, here]⟩

theorem countable_tabular : Set.Countable {json : Json | json.Tabular} := by
  have numbered : Function.Injective UInt8.toNat := fun _ _ same => UInt8.toNat_inj.mp same
  have bytes : Countable UInt8 := numbered.countable
  refine (Set.countable_range ofRows).mono fun json tabular => ?_
  exact tabular.exists_of

/-- There are a writer and a reader that keep the contract, and that write one value as they are
told to. -/
theorem TextForm.exists_writing {json : Json} (writable : json.Writable) (written : Bytes) :
    ∃ dump parse, TextForm dump parse ∧ dump json = some written := by
  classical
  obtain ⟨number, distinct⟩ := Set.countable_iff_exists_injOn.mp countable_tabular
  -- every other value is written longer, by its number
  let spelled (other : Json) : Bytes :=
    if other = json then written else written ++ List.replicate (number other + 1) 0
  let dump (other : Json) : Option Bytes := if other.Writable then some (spelled other) else none
  let parse (bytes : Bytes) : Option Json :=
    if found : ∃ other : Json, other.Tabular ∧ spelled other = bytes then some found.choose else none
  have injective : Set.InjOn spelled {other : Json | other.Tabular} := by
    intro first one second two same
    have lengths := congrArg List.length same
    by_cases here : first = json <;> by_cases there : second = json
    · exact here.trans there.symm
    · simp [spelled, here, there] at lengths
    · simp [spelled, here, there] at lengths
    · simp only [spelled, here, there, if_false, List.length_append,
        List.length_replicate] at lengths
      exact distinct one two (by omega)
  refine ⟨dump, parse, ⟨fun other => ?_, fun other bytes tabular out => ?_⟩, ?_⟩
  · by_cases yes : other.Writable <;> simp [dump, yes]
  · have spelt : spelled other = bytes := by
      by_cases yes : other.Writable <;> simp [dump, yes] at out
      exact out
    have found : ∃ other : Json, other.Tabular ∧ spelled other = bytes := ⟨other, tabular, spelt⟩
    have same := injective found.choose_spec.1 tabular (found.choose_spec.2.trans spelt.symm)
    simp only [parse, dif_pos found, same]
  · simp [dump, spelled, writable]

end Exists

end LogMonitor.Library.Json
