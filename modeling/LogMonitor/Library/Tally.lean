import Mathlib.Algebra.BigOperators.Group.Finset.Piecewise
import Mathlib.Algebra.Order.BigOperators.Group.Finset
import Mathlib.Data.List.Perm.Basic

/-!
Counters, one for each kind of event: what adding one to a counter does to the sum
of several, how many items of a list are of a kind, and what replacing one item of a
list does up to order.
-/

namespace LogMonitor.Library.Tally

universe u v w

variable {ι : Type u} {α : Type v}

section Bump

variable [DecidableEq ι]

def bump {β : Type w} [Add β] [One β] (counters : ι → β) (kind : ι) : ι → β :=
  Function.update counters kind (counters kind + 1)

theorem bump_apply (counters : ι → Nat) (kind other : ι) :
    bump counters kind other = counters other + if kind = other then 1 else 0 := by
  unfold bump
  by_cases same : kind = other
  · rw [← same, Function.update_self, if_pos rfl]
  · rw [Function.update_of_ne (Ne.symm same), if_neg same, Nat.add_zero]

theorem sum_bump (counters : ι → Nat) (kind : ι) (kinds : Finset ι) :
    ∑ other ∈ kinds, bump counters kind other =
      (∑ other ∈ kinds, counters other) + if kind ∈ kinds then 1 else 0 := by
  simp only [bump_apply, Finset.sum_add_distrib, Finset.sum_ite_eq]

end Bump

section OfKind

variable [DecidableEq ι] (classify : α → Option ι)

def ofKind (kind : ι) (items : List α) : Nat :=
  items.countP fun item => classify item = some kind

theorem ofKind_nil (kind : ι) : ofKind classify kind [] = 0 :=
  rfl

theorem ofKind_append (kind : ι) (items more : List α) :
    ofKind classify kind (items ++ more) = ofKind classify kind items + ofKind classify kind more :=
  List.countP_append

theorem ofKind_singleton (kind : ι) (item : α) :
    ofKind classify kind [item] = if classify item = some kind then 1 else 0 := by
  simp [ofKind, List.countP_singleton]

theorem sum_ofKind_le [Fintype ι] (items : List α) :
    ∑ kind, ofKind classify kind items ≤ items.length := by
  induction items with
  | nil => simp [ofKind_nil]
  | cons item rest ih =>
    have one : ∑ kind, ofKind classify kind [item] ≤ 1 := by
      simp only [ofKind_singleton]
      cases classify item with
      | none => simp
      | some kind => simp
    have parts : ∀ kind, ofKind classify kind (item :: rest) =
        ofKind classify kind [item] + ofKind classify kind rest :=
      fun kind => ofKind_append classify kind [item] rest
    simp only [parts, Finset.sum_add_distrib, List.length_cons]
    omega

end OfKind

/-- Replacing one item: up to order, the rest of the list stays. -/
theorem set_perm {items : List α} {index : Nat} {old : α} (here : items[index]? = some old)
    (new : α) : ∃ rest, items.Perm (old :: rest) ∧ (items.set index new).Perm (new :: rest) := by
  obtain ⟨bound, found⟩ := List.getElem?_eq_some_iff.mp here
  have before := (List.getElem_cons_eraseIdx_perm bound).symm
  rw [found] at before
  exact ⟨items.eraseIdx index, before, List.set_perm_cons_eraseIdx bound new⟩

end LogMonitor.Library.Tally
