import Mathlib.Data.List.AList

/-!
Association lists with unique keys as the model of a hash map that is iterated:
the order of the entries stands for the unspecified order of the iteration.
-/

namespace LogMonitor.Library

universe u v w

variable {α : Type u} {β : Type v} {γ : Type w} [DecidableEq α]

abbrev Table (α : Type u) (β : Type v) := AList (fun _ : α => β)

namespace Table

omit [DecidableEq α] in
theorem nodupKeys_filterMap {entries : List (Σ _ : α, β)} (f : β → Option γ)
    (unique : entries.NodupKeys) :
    (entries.filterMap fun entry => (f entry.2).map (Sigma.mk entry.1) :
      List (Σ _ : α, γ)).NodupKeys := by
  induction entries with
  | nil => exact List.nodupKeys_nil
  | cons entry entries ih =>
    obtain ⟨fresh, unique⟩ := List.nodupKeys_cons.mp unique
    cases kept : f entry.2 with
    | none =>
      rw [List.filterMap_cons_none (by simp [kept])]
      exact ih unique
    | some value =>
      rw [List.filterMap_cons_some (b := ⟨entry.1, value⟩) (by simp [kept])]
      refine List.nodupKeys_cons.mpr ⟨?_, ih unique⟩
      intro present
      apply fresh
      obtain ⟨other, found⟩ := List.exists_of_mem_keys present
      obtain ⟨⟨key, old⟩, inside, same⟩ := List.mem_filterMap.mp found
      obtain ⟨_, _, shape⟩ := Option.map_eq_some_iff.mp same
      obtain rfl : key = entry.1 := congrArg Sigma.fst shape
      have listed : (⟨entry.1, old⟩ : Σ _ : α, β).1 ∈ entries.keys := List.mem_keys_of_mem inside
      exact listed

/-- Replace every value, dropping the entries for which there is none. -/
def filterMap (f : β → Option γ) (table : Table α β) : Table α γ where
  entries := table.entries.filterMap fun entry => (f entry.2).map (Sigma.mk entry.1)
  nodupKeys := nodupKeys_filterMap f table.nodupKeys

theorem lookup_filterMap (f : β → Option γ) (table : Table α β) (key : α) :
    (filterMap f table).lookup key = (table.lookup key).bind f := by
  ext value
  rw [Option.bind_eq_some_iff]
  change value ∈ (filterMap f table).lookup key ↔ _
  rw [AList.mem_lookup_iff]
  constructor
  · intro found
    obtain ⟨⟨other, old⟩, inside, same⟩ := List.mem_filterMap.mp found
    obtain ⟨kept, present, shape⟩ := Option.map_eq_some_iff.mp same
    obtain rfl : other = key := congrArg Sigma.fst shape
    obtain rfl : kept = value := eq_of_heq (Sigma.mk.inj shape).2
    exact ⟨old, AList.mem_lookup_iff.mpr inside, present⟩
  · rintro ⟨old, inside, present⟩
    refine List.mem_filterMap.mpr ⟨⟨key, old⟩, AList.mem_lookup_iff.mp inside, ?_⟩
    rw [present, Option.map_some]

/-- A loop over the entries that writes a value for each key. -/
theorem foldl_update_dlookup {entries : List (Σ _ : α, β)} (unique : entries.NodupKeys)
    (f : β → γ) (s : α → Option γ) (key : α) :
    (entries.foldl (fun (s : α → Option γ) entry =>
        Function.update s entry.1 (some (f entry.2))) s) key =
      ((entries.dlookup key).map f).or (s key) := by
  induction entries generalizing s with
  | nil => rfl
  | cons entry rest ih =>
    obtain ⟨fresh, rest_unique⟩ := List.nodupKeys_cons.mp unique
    rw [List.foldl_cons, ih rest_unique]
    obtain ⟨other, value⟩ := entry
    by_cases here : key = other
    · subst here
      rw [List.dlookup_eq_none.mpr fresh, List.dlookup_cons_eq, Function.update_self]
      rfl
    · rw [List.dlookup_cons_ne _ _ here, Function.update_of_ne here]

/-- What the values hold together is what the value of one key holds, and what the others hold. -/
theorem perm_flatMap_dlookup {entries : List (Σ _ : α, β)} (unique : entries.NodupKeys) (key : α)
    (f : β → List γ) :
    (entries.flatMap fun entry => f entry.2).Perm
      ((((entries.dlookup key).map f).getD []) ++
        (entries.filter fun entry => entry.1 ≠ key).flatMap fun entry => f entry.2) := by
  induction entries with
  | nil => exact List.Perm.refl _
  | cons entry rest ih =>
    obtain ⟨fresh, others_unique⟩ := List.nodupKeys_cons.mp unique
    obtain ⟨other, value⟩ := entry
    by_cases here : other = key
    · subst here
      have others : rest.filter (fun entry => entry.1 ≠ other) = rest := by
        apply List.filter_eq_self.mpr
        intro entry listed
        have named : entry.1 ∈ rest.keys := List.mem_keys_of_mem listed
        exact decide_eq_true fun same => fresh (same ▸ named)
      rw [List.dlookup_cons_eq, List.filter_cons_of_neg (by simp), others]
      exact List.Perm.refl _
    · rw [List.dlookup_cons_ne _ _ (Ne.symm here), List.filter_cons_of_pos (by simpa using here),
        List.flatMap_cons, List.flatMap_cons]
      refine ((ih others_unique).append_left (f value)).trans ?_
      rw [← List.append_assoc, ← List.append_assoc]
      exact List.perm_append_comm.append_right _

/-- One key holds all that the values hold if and only if the others hold nothing. -/
theorem perm_lookup_iff (table : Table α β) (key : α) (f : β → List γ) :
    (((table.lookup key).map f).getD []).Perm (table.entries.flatMap fun entry => f entry.2) ↔
      ∀ other value, other ≠ key → table.lookup other = some value → f value = [] := by
  have split := perm_flatMap_dlookup table.nodupKeys key f
  have parts : (((table.lookup key).map f).getD []).Perm
      (table.entries.flatMap fun entry => f entry.2) ↔
      ((table.entries.filter fun entry => entry.1 ≠ key).flatMap fun entry => f entry.2) = [] := by
    constructor
    · intro all
      have lengths := (all.trans split).length_eq
      rw [List.length_append] at lengths
      change ((table.lookup key).map f |>.getD []).length =
        ((table.lookup key).map f |>.getD []).length + _ at lengths
      exact List.length_eq_zero_iff.mp (by omega)
    · intro none
      rw [none, List.append_nil] at split
      exact split.symm
  rw [parts, List.flatMap_eq_nil_iff]
  constructor
  · intro none other value different found
    refine none ⟨other, value⟩ (List.mem_filter.mpr ⟨AList.mem_lookup_iff.mp found, ?_⟩)
    exact decide_eq_true different
  · intro none entry listed
    obtain ⟨inside, different⟩ := List.mem_filter.mp listed
    exact none entry.1 entry.2 (of_decide_eq_true different) (AList.mem_lookup_iff.mpr inside)

end Table

end LogMonitor.Library
