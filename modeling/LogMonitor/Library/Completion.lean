import Mathlib.Data.List.DropRight
import Mathlib.Data.List.Range

/-!
Jobs that are numbered as they begin and are completed in another order. The
jobs completed last are those begun last, in their order, exactly when each of
these was completed after every job begun before it.
-/

namespace LogMonitor.Library.Completion

/-- Dropping what is too much at every step is dropping it at the end. -/
theorem rtake_snoc {α : Type} (entries : List α) (entry : α) (m : Nat) :
    (entries.rtake m ++ [entry]).rtake m = (entries ++ [entry]).rtake m := by
  cases m with
  | zero => rw [List.rtake_zero, List.rtake_zero]
  | succ m =>
    have kept : (entries.rtake (m + 1)).rtake m = entries.rtake m := by
      simp only [List.rtake, List.drop_drop, List.length_drop]
      congr 1
      omega
    rw [List.rtake_concat_succ, List.rtake_concat_succ, kept]

theorem map_rtake {α β : Type} (f : α → β) (entries : List α) (m : Nat) :
    (entries.rtake m).map f = (entries.map f).rtake m := by
  rw [List.rtake, List.rtake, List.map_drop, List.length_map]

/-- What comes before something else than the last entry was there without the last entry. -/
theorem pair_of_concat {α : Type} {first second last : α} {order : List α} (other : second ≠ last)
    (before : [first, second].Sublist (order ++ [last])) : [first, second].Sublist order := by
  have turned := before.reverse
  rw [List.reverse_append] at turned
  cases turned with
  | cons _ inside => simpa using inside.reverse
  | cons_cons => exact absurd rfl other

theorem rtake_eq_range_iff {order : List Nat} {n : Nat} (all : order.Perm (List.range n)) (m : Nat) :
    order.rtake m = (List.range n).rtake m ↔
      ∀ first second, first < second → second < n → n ≤ second + m →
        [first, second].Sublist order := by
  induction n generalizing order m with
  | zero =>
    obtain rfl := all.eq_nil
    simp
  | succ n ih =>
    cases m with
    | zero =>
      simp only [List.rtake_zero, true_iff]
      omega
    | succ m =>
      rcases List.eq_nil_or_concat order with rfl | ⟨order, last, rfl⟩
      · simpa using all.length_eq
      rw [List.concat_eq_append] at all ⊢
      rw [List.range_succ] at all ⊢
      rw [List.rtake_concat_succ, List.rtake_concat_succ]
      by_cases same : last = n
      · subst same
        have rest : order.Perm (List.range last) := (List.perm_append_right_iff _).mp all
        rw [List.append_cancel_right_eq, ih rest]
        constructor
        · intro inOrder first second below within late
          by_cases final : second = last
          · subst final
            have member : first ∈ order := rest.mem_iff.mpr (List.mem_range.mpr below)
            exact (List.singleton_sublist.mpr member).append (List.Sublist.refl [second])
          · have earlier := inOrder first second below (by omega) (by omega)
            exact earlier.trans (List.sublist_append_left _ _)
        · intro inOrder first second below within late
          exact pair_of_concat (Nat.ne_of_lt within)
            (inOrder first second below (by omega) (by omega))
      · have distinct : (order ++ [last]).Nodup := by
          rw [all.nodup_iff, ← List.range_succ]
          exact List.nodup_range
        have present : last ∈ List.range n ++ [n] := all.mem_iff.mp (by simp)
        rw [← List.range_succ, List.mem_range] at present
        constructor
        · intro equal
          exact absurd (List.singleton_inj.mp (List.append_inj' equal rfl).2) same
        · intro inOrder
          have inside := pair_of_concat (Ne.symm same) (inOrder last n (by omega) (by omega) (by omega))
          have twice : last ∈ order := inside.subset (by simp)
          exact absurd rfl ((List.nodup_append.mp distinct).2.2 last twice last (by simp))

end LogMonitor.Library.Completion
