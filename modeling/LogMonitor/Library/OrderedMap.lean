import Mathlib.Data.List.Basic
import Mathlib.Data.List.Nodup

/-!
Finite maps that remember the order in which their keys were entered. The values
know their own key; replacing a value leaves it in its place.
-/

namespace LogMonitor.Library

universe u v

structure OrderedMap {κ : Type u} {α : Type v} (key : α → κ) where
  items : List α
  distinct : (items.map key).Nodup

namespace OrderedMap

variable {κ : Type u} {α : Type v} {key : α → κ} [DecidableEq κ]

def empty : OrderedMap key := ⟨[], List.nodup_nil⟩

def get (m : OrderedMap key) (k : κ) : Option α := m.items.find? (fun x => key x = k)

theorem get_eq_some_iff {m : OrderedMap key} {k : κ} {x : α} :
    m.get k = some x ↔ x ∈ m.items ∧ key x = k := by
  constructor
  · intro found
    exact ⟨List.mem_of_find?_eq_some found, by simpa using List.find?_some found⟩
  · rintro ⟨inside, rfl⟩
    cases found : m.get (key x) with
    | none =>
      have absent := List.find?_eq_none.mp found x inside
      simp at absent
    | some y =>
      have same : key y = key x := by simpa using List.find?_some found
      rw [List.inj_on_of_nodup_map m.distinct (List.mem_of_find?_eq_some found) inside same]

theorem map_key_replace (items : List α) (x : α) :
    (items.map fun y => if key y = key x then x else y).map key = items.map key := by
  rw [List.map_map]
  apply List.map_congr_left
  intro y _
  simp only [Function.comp_apply]
  split
  next same => exact same.symm
  next => rfl

/-- Enter `x` under its key, in the place of what is there or else at the end. -/
def insert (m : OrderedMap key) (x : α) : OrderedMap key where
  items :=
    if key x ∈ m.items.map key then m.items.map fun y => if key y = key x then x else y
    else m.items ++ [x]
  distinct := by
    split
    next => rw [map_key_replace]; exact m.distinct
    next fresh =>
      rw [List.map_append, List.nodup_append]
      refine ⟨m.distinct, List.nodup_singleton _, ?_⟩
      rintro k inside l last rfl
      obtain rfl := List.mem_singleton.mp last
      exact fresh inside

def erase (m : OrderedMap key) (k : κ) : OrderedMap key where
  items := m.items.filter (fun x => key x ≠ k)
  distinct := m.distinct.sublist (List.filter_sublist.map key)

theorem mem_insert {m : OrderedMap key} {x y : α} (inside : y ∈ (m.insert x).items) :
    y = x ∨ y ∈ m.items := by
  simp only [insert] at inside
  split at inside
  · obtain ⟨z, member, shape⟩ := List.mem_map.mp inside
    split at shape
    · exact .inl shape.symm
    · exact .inr (shape ▸ member)
  · rcases List.mem_append.mp inside with old | last
    · exact .inr old
    · exact .inl (List.mem_singleton.mp last)

theorem mem_erase {m : OrderedMap key} {k : κ} {y : α} (inside : y ∈ (m.erase k).items) :
    y ∈ m.items :=
  List.mem_of_mem_filter inside

theorem items_insert_of_new {m : OrderedMap key} {x : α} (fresh : ∀ y ∈ m.items, key y ≠ key x) :
    (m.insert x).items = m.items ++ [x] := by
  apply if_neg
  intro inside
  obtain ⟨y, member, same⟩ := List.mem_map.mp inside
  exact fresh y member same

omit [DecidableEq κ] in
theorem key_ne_of_split {m : OrderedMap key} {before after : List α} {x : α}
    (shape : m.items = before ++ x :: after) {y : α} (around : y ∈ before ∨ y ∈ after) :
    key y ≠ key x := by
  have distinct := m.distinct
  rw [shape, List.map_append, List.map_cons, List.nodup_append] at distinct
  obtain ⟨_, last, apart⟩ := distinct
  rcases around with around | around
  · exact apart (key y) (List.mem_map_of_mem around) (key x) List.mem_cons_self
  · intro same
    apply (List.nodup_cons.mp last).1
    rw [← same]
    exact List.mem_map_of_mem around

theorem items_insert_of_split {m : OrderedMap key} {before after : List α} {old x : α}
    (shape : m.items = before ++ old :: after) (same : key x = key old) :
    (m.insert x).items = before ++ x :: after := by
  have untouched : ∀ part : List α, (∀ y ∈ part, y ∈ before ∨ y ∈ after) →
      (part.map fun y => if key y = key x then x else y) = part := by
    intro part around
    calc
      (part.map fun y => if key y = key x then x else y) = part.map id := by
        apply List.map_congr_left
        intro y inside
        exact if_neg (same ▸ key_ne_of_split shape (around y inside))
      _ = part := List.map_id part
  have present : key x ∈ m.items.map key := by simp [shape, same]
  calc
    (m.insert x).items = m.items.map fun y => if key y = key x then x else y := if_pos present
    _ = before ++ x :: after := by
      rw [shape, List.map_append, List.map_cons, untouched before (fun _ => .inl),
        untouched after (fun _ => .inr), if_pos same.symm]

theorem items_erase_of_split {m : OrderedMap key} {before after : List α} {x : α}
    (shape : m.items = before ++ x :: after) : (m.erase (key x)).items = before ++ after := by
  have untouched : ∀ part : List α, (∀ y ∈ part, y ∈ before ∨ y ∈ after) →
      part.filter (fun y => key y ≠ key x) = part := by
    intro part around
    apply List.filter_eq_self.mpr
    intro y inside
    simpa using key_ne_of_split shape (around y inside)
  calc
    (m.erase (key x)).items = m.items.filter (fun y => key y ≠ key x) := rfl
    _ = before ++ after := by
      rw [shape, List.filter_append, List.filter_cons_of_neg (by simp),
        untouched before (fun _ => .inl), untouched after (fun _ => .inr)]

end OrderedMap

end LogMonitor.Library
