import Mathlib.Data.Finset.Erase
import Mathlib.Data.Finset.Insert
import Mathlib.Logic.Function.Basic

/-!
A mutex that any number of threads share or one of them has alone. Which of the
two is the shape of its value, so that a state with a writer among readers
cannot be written down; what a thread holds is read off it.
-/

namespace LogMonitor.Library

universe u

inductive Holding where
  | nothing
  | shared
  | exclusive
deriving DecidableEq

inductive SharedMutex (ι : Type u) where
  | shared (readers : Finset ι)
  | exclusive (writer : ι)

namespace SharedMutex

variable {ι : Type u} [DecidableEq ι]

def free : SharedMutex ι := .shared ∅

def holding : SharedMutex ι → ι → Holding
  | .shared readers, t => if t ∈ readers then .shared else .nothing
  | .exclusive writer, t => if t = writer then .exclusive else .nothing

/-- An operation without a result waits. -/
def lockShared : SharedMutex ι → ι → Option (SharedMutex ι)
  | .shared readers, t => some (.shared (insert t readers))
  | .exclusive _, _ => none

def unlockShared : SharedMutex ι → ι → Option (SharedMutex ι)
  | .shared readers, t => if t ∈ readers then some (.shared (readers.erase t)) else none
  | .exclusive _, _ => none

def lock : SharedMutex ι → ι → Option (SharedMutex ι)
  | .shared readers, t => if readers = ∅ then some (.exclusive t) else none
  | .exclusive _, _ => none

def unlock : SharedMutex ι → ι → Option (SharedMutex ι)
  | .shared _, _ => none
  | .exclusive writer, t => if t = writer then some free else none

variable {m n : SharedMutex ι} {t u : ι}

@[simp] theorem holding_free (t : ι) : free.holding t = .nothing := by
  rw [free, holding, if_neg (Finset.notMem_empty t)]

theorem alone (mine : m.holding t = .exclusive) (held : m.holding u ≠ .nothing) : u = t := by
  cases m with
  | shared readers =>
    by_cases inside : t ∈ readers
    · rw [holding, if_pos inside] at mine
      cases mine
    · rw [holding, if_neg inside] at mine
      cases mine
  | exclusive writer =>
    have first : t = writer := by
      by_contra other
      rw [holding, if_neg other] at mine
      cases mine
    have second : u = writer := by
      by_contra other
      exact held (if_neg other)
    rw [first, second]

theorem holding_lockShared (taken : m.lockShared t = some n) :
    n.holding = Function.update m.holding t .shared := by
  cases m with
  | exclusive writer => cases taken
  | shared readers =>
    cases taken
    funext u
    by_cases same : u = t
    · subst u
      rw [Function.update_self]
      exact if_pos (Finset.mem_insert_self t readers)
    · rw [Function.update_of_ne same]
      simp only [holding, Finset.mem_insert, same, false_or]

theorem holding_unlockShared (left : m.unlockShared t = some n) :
    n.holding = Function.update m.holding t .nothing := by
  cases m with
  | exclusive writer => cases left
  | shared readers =>
    rw [unlockShared, Option.ite_none_right_eq_some, Option.some.injEq] at left
    obtain ⟨-, rfl⟩ := left
    funext u
    by_cases same : u = t
    · subst u
      rw [Function.update_self]
      exact if_neg (Finset.notMem_erase _ readers)
    · rw [Function.update_of_ne same]
      simp only [holding, Finset.mem_erase, ne_eq, same, not_false_eq_true, true_and]

theorem holding_lock (taken : m.lock t = some n) :
    n.holding = Function.update m.holding t .exclusive := by
  cases m with
  | exclusive writer => cases taken
  | shared readers =>
    rw [lock, Option.ite_none_right_eq_some, Option.some.injEq] at taken
    obtain ⟨rfl, rfl⟩ := taken
    funext u
    by_cases same : u = t
    · subst u
      rw [Function.update_self]
      exact if_pos rfl
    · rw [Function.update_of_ne same, ← free, holding_free]
      exact if_neg same

theorem holding_unlock (left : m.unlock t = some n) :
    n.holding = Function.update m.holding t .nothing := by
  cases m with
  | shared readers => cases left
  | exclusive writer =>
    rw [unlock, Option.ite_none_right_eq_some, Option.some.injEq] at left
    obtain ⟨rfl, rfl⟩ := left
    funext u
    by_cases same : u = t
    · subst u
      rw [Function.update_self]
      exact holding_free _
    · rw [Function.update_of_ne same]
      exact (holding_free u).trans (if_neg same).symm

end SharedMutex

end LogMonitor.Library
