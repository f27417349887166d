import Mathlib.Data.List.Basic
import Mathlib.Data.List.Induction
import Mathlib.Logic.Function.Basic

/-!
Indexes into a vector by position: maps from a key to the one position that holds
it, and lists of the positions that hold something. The vector grows at its end
and is overwritten in place.
-/

namespace LogMonitor.Library.Positions

universe u v

variable {κ : Type u} {α : Type v} {items : List α}

theorem getElem?_concat_iff {item x : α} {position : Nat} :
    (items ++ [item])[position]? = some x ↔
      items[position]? = some x ∨ position = items.length ∧ x = item := by
  rcases Nat.lt_trichotomy position items.length with inside | rfl | outside
  · rw [List.getElem?_append_left inside]
    simp [Nat.ne_of_lt inside]
  · simp [eq_comm]
  · have beyond : (items ++ [item]).length ≤ position := by
      rw [List.length_append]
      exact outside
    simp [List.getElem?_eq_none beyond, List.getElem?_eq_none (Nat.le_of_lt outside),
      Nat.ne_of_gt outside]

theorem getElem?_set_iff {old new x : α} {idx position : Nat} (present : items[idx]? = some old) :
    (items.set idx new)[position]? = some x ↔
      position = idx ∧ x = new ∨ position ≠ idx ∧ items[position]? = some x := by
  obtain ⟨inside, _⟩ := List.getElem?_eq_some_iff.mp present
  by_cases here : position = idx
  · subst position
    simp [inside, eq_comm]
  · simp [List.getElem?_set_ne (Ne.symm here), here]

theorem exists_split {old : α} {idx : Nat} (present : items[idx]? = some old) (new : α) :
    ∃ before after, items = before ++ old :: after ∧
      items.set idx new = before ++ new :: after := by
  obtain ⟨inside, rfl⟩ := List.getElem?_eq_some_iff.mp present
  obtain ⟨before, after, shape, _, overwritten⟩ := List.exists_of_set inside
  exact ⟨before, after, shape, overwritten⟩

/-- `map` leads from a key to the position of the item that answers to it. -/
def Indexes (answers : κ → α → Prop) (items : List α) (map : κ → Option Nat) : Prop :=
  ∀ key position, map key = some position ↔ ∃ item, items[position]? = some item ∧ answers key item

def Unused (answers : κ → α → Prop) (items : List α) (key : κ) : Prop :=
  ∀ item ∈ items, ¬answers key item

section Indexes
variable {answers : κ → α → Prop} {map : κ → Option Nat}

theorem Indexes.bind_eq_some_iff (indexes : Indexes answers items map) {key : κ} {item : α} :
    (map key).bind (fun position => items[position]?) = some item ↔
      item ∈ items ∧ answers key item := by
  rw [Option.bind_eq_some_iff]
  constructor
  · rintro ⟨position, found, present⟩
    obtain ⟨other, there, answering⟩ := (indexes key position).mp found
    rw [present, Option.some.injEq] at there
    subst other
    exact ⟨List.mem_of_getElem? present, answering⟩
  · rintro ⟨inside, answering⟩
    obtain ⟨position, present⟩ := List.mem_iff_getElem?.mp inside
    exact ⟨position, (indexes key position).mpr ⟨item, present, answering⟩, present⟩

variable [DecidableEq κ]

theorem Indexes.push (indexes : Indexes answers items map) {item : α} {key : κ}
    (names : ∀ other, answers other item ↔ other = key) (unused : Unused answers items key) :
    Indexes answers (items ++ [item]) (Function.update map key (some items.length)) := by
  intro other position
  simp only [getElem?_concat_iff, or_and_right, exists_or]
  by_cases same : other = key
  · subst other
    have absent : ¬∃ x, items[position]? = some x ∧ answers key x := by
      rintro ⟨x, present, answering⟩
      exact unused x (List.mem_of_getElem? present) answering
    rw [Function.update_self]
    simp only [absent, false_or]
    simp [(names key).mpr rfl, eq_comm]
  · rw [Function.update_of_ne same, indexes other position]
    have elsewhere : ¬answers other item := fun answering => same ((names other).mp answering)
    simp [elsewhere]

omit [DecidableEq κ] in
/-- Overwriting is not seen by a key that neither item answers to. -/
theorem exists_set_of_silent {old new : α} {idx position : Nat} {key : κ}
    (present : items[idx]? = some old) (silentOld : ¬answers key old)
    (silentNew : ¬answers key new) :
    (∃ x, (items.set idx new)[position]? = some x ∧ answers key x) ↔
      ∃ x, items[position]? = some x ∧ answers key x := by
  simp only [getElem?_set_iff present]
  constructor
  · rintro ⟨x, ⟨_, rfl⟩ | ⟨_, there⟩, answering⟩
    · exact absurd answering silentNew
    · exact ⟨x, there, answering⟩
  · rintro ⟨x, there, answering⟩
    refine ⟨x, .inr ⟨?_, there⟩, answering⟩
    rintro rfl
    rw [present, Option.some.injEq] at there
    subst x
    exact silentOld answering

omit [DecidableEq κ] in
/-- When the one item that answers to a key is overwritten, none is left. -/
theorem Indexes.not_exists_set (indexes : Indexes answers items map) {old new : α}
    {idx : Nat} {key : κ} (position : Nat) (present : items[idx]? = some old) (answered : answers key old)
    (silent : ¬answers key new) :
    ¬∃ x, (items.set idx new)[position]? = some x ∧ answers key x := by
  simp only [getElem?_set_iff present]
  rintro ⟨x, ⟨_, rfl⟩ | ⟨elsewhere, there⟩, answering⟩
  · exact silent answering
  · have here := (indexes key idx).mpr ⟨old, present, answered⟩
    rw [(indexes key position).mpr ⟨x, there, answering⟩, Option.some.injEq] at here
    exact elsewhere here

/-- An item is overwritten by one that answers to nothing. -/
theorem Indexes.drop (indexes : Indexes answers items map) {old new : α} {idx : Nat} {key : κ}
    (present : items[idx]? = some old) (names : ∀ other, answers other old ↔ other = key)
    (silent : ∀ other, ¬answers other new) :
    Indexes answers (items.set idx new) (Function.update map key none) := by
  intro other position
  by_cases same : other = key
  · subst other
    have gone := indexes.not_exists_set position present ((names key).mpr rfl) (silent key)
    rw [Function.update_self]
    simp only [gone, reduceCtorEq]
  · rw [Function.update_of_ne same, indexes other position]
    exact (exists_set_of_silent present (mt (names other).mp same) (silent other)).symm

/-- An item is overwritten by one under a key that was not used. -/
theorem Indexes.rename (indexes : Indexes answers items map) {old new : α} {idx : Nat}
    {oldKey newKey : κ} (present : items[idx]? = some old)
    (oldNames : ∀ other, answers other old ↔ other = oldKey)
    (newNames : ∀ other, answers other new ↔ other = newKey)
    (unused : Unused answers items newKey) :
    Indexes answers (items.set idx new)
      (Function.update (Function.update map oldKey none) newKey (some idx)) := by
  intro other position
  by_cases renamed : other = newKey
  · subst other
    rw [Function.update_self]
    simp only [getElem?_set_iff present]
    constructor
    · intro same
      cases same
      exact ⟨new, .inl ⟨rfl, rfl⟩, (newNames newKey).mpr rfl⟩
    · rintro ⟨x, ⟨rfl, _⟩ | ⟨_, there⟩, answering⟩
      · rfl
      · exact absurd answering (unused x (List.mem_of_getElem? there))
  · rw [Function.update_of_ne renamed]
    have silent : ¬answers other new := mt (newNames other).mp renamed
    by_cases same : other = oldKey
    · subst other
      have gone := indexes.not_exists_set position present ((oldNames oldKey).mpr rfl) silent
      rw [Function.update_self]
      simp only [gone, reduceCtorEq]
    · rw [Function.update_of_ne same, indexes other position]
      exact (exists_set_of_silent present (mt (oldNames other).mp same) silent).symm

omit [DecidableEq κ] in
theorem Indexes.keep (indexes : Indexes answers items map) {old new : α} {idx : Nat}
    (present : items[idx]? = some old) (same : ∀ other, answers other new ↔ answers other old) :
    Indexes answers (items.set idx new) map := by
  intro other position
  rw [indexes other position]
  simp only [getElem?_set_iff present]
  by_cases here : position = idx
  · subst position
    simp [present, same]
  · simp [here]

end Indexes

section Positions
variable (answers : α → Bool)

def positions (items : List α) : List Nat :=
  (List.range items.length).filter fun position => items[position]?.any answers

theorem positions_concat (items : List α) (item : α) :
    positions answers (items ++ [item]) =
      positions answers items ++ if answers item then [items.length] else [] := by
  have before : ∀ position ∈ List.range items.length,
      (items ++ [item])[position]?.any answers = items[position]?.any answers := by
    intro position inside
    rw [List.getElem?_append_left (List.mem_range.mp inside)]
  rw [positions, List.length_append, List.length_singleton, List.range_succ, List.filter_append,
    List.filter_congr before, positions]
  by_cases answering : answers item <;> simp [answering]

theorem filterMap_positions (items : List α) :
    ((positions answers items).filterMap fun position => items[position]?) =
      items.filter answers := by
  induction items using List.reverseRecOn with
  | nil => rfl
  | append_singleton items item ih =>
    have before : ∀ position ∈ positions answers items,
        (items ++ [item])[position]? = items[position]? := by
      intro position inside
      exact List.getElem?_append_left (List.mem_range.mp (List.mem_of_mem_filter inside))
    rw [positions_concat, List.filterMap_append, List.filterMap_congr before, ih,
      List.filter_append]
    by_cases answering : answers item <;> simp [answering]

/-- Overwriting an item takes its position out. -/
theorem positions_set_silent {old new : α} {idx : Nat} (present : items[idx]? = some old)
    (silent : answers new = false) :
    positions answers (items.set idx new) = (positions answers items).filter (· ≠ idx) := by
  obtain ⟨inside, _⟩ := List.getElem?_eq_some_iff.mp present
  rw [positions, List.length_set, positions, List.filter_filter]
  apply List.filter_congr
  intro position _
  by_cases here : position = idx
  · subst position
    simp [inside, silent]
  · simp [List.getElem?_set_ne (Ne.symm here), here]

theorem positions_set_same {old new : α} {idx : Nat} (present : items[idx]? = some old)
    (same : answers new = answers old) :
    positions answers (items.set idx new) = positions answers items := by
  obtain ⟨inside, _⟩ := List.getElem?_eq_some_iff.mp present
  rw [positions, List.length_set, positions]
  apply List.filter_congr
  intro position _
  by_cases here : position = idx
  · subst position
    rw [List.getElem?_set_self inside, present, Option.any_some, Option.any_some, same]
  · rw [List.getElem?_set_ne (Ne.symm here)]

end Positions

section FindsLast
variable [DecidableEq κ] {key : α → κ} {map : κ → Option Nat}

/-- `map` leads from a key to the last item that has it. -/
structure FindsLast (key : α → κ) (items : List α) (map : κ → Option Nat) : Prop where
  inside : ∀ k position, map k = some position → position < items.length
  last : ∀ k, (map k).bind (fun position => items[position]?) =
    items.reverse.find? fun item => key item = k

theorem FindsLast.nil : FindsLast key [] fun _ => none := ⟨nofun, fun _ => rfl⟩

theorem FindsLast.push (finds : FindsLast key items map) (item : α) :
    FindsLast key (items ++ [item]) (Function.update map (key item) (some items.length)) := by
  constructor
  · intro k position found
    rw [List.length_append, List.length_singleton]
    by_cases same : k = key item
    · rw [same, Function.update_self] at found
      obtain rfl := Option.some.inj found
      exact Nat.lt_succ_self _
    · rw [Function.update_of_ne same] at found
      exact Nat.lt_succ_of_lt (finds.inside k position found)
  · intro k
    rw [List.reverse_append, List.reverse_singleton, List.singleton_append]
    by_cases same : key item = k
    · rw [← same, Function.update_self, List.find?_cons_of_pos (by simp), Option.bind_some,
        List.getElem?_concat_length]
    · rw [Function.update_of_ne (Ne.symm same), List.find?_cons_of_neg (by simpa using same),
        ← finds.last k]
      cases found : map k with
      | none => rfl
      | some position => exact List.getElem?_append_left (finds.inside k position found)

/-- Every item is found under its key exactly if items with the same key are the same. -/
theorem FindsLast.all_iff (finds : FindsLast key items map) :
    (∀ item ∈ items, (map (key item)).bind (fun position => items[position]?) = some item) ↔
      ∀ item ∈ items, ∀ other ∈ items, key item = key other → item = other := by
  simp only [finds.last]
  constructor
  · intro all item listed other also same
    have first := all item listed
    rw [same, all other also] at first
    exact (Option.some.inj first).symm
  · intro unique item listed
    cases found : items.reverse.find? fun other => key other = key item with
    | none =>
      have absent := List.find?_eq_none.mp found item (List.mem_reverse.mpr listed)
      simp at absent
    | some other =>
      have same : key other = key item := by simpa using List.find?_some found
      have also := List.mem_reverse.mp (List.mem_of_find?_eq_some found)
      rw [unique other also item listed same]

end FindsLast

end LogMonitor.Library.Positions
