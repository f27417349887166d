import Mathlib.Data.Sum.Basic

/-!
Machines that take one input a step until they have an answer. Two machines in
lockstep give the same answer, and a machine whose rank falls with every step
gives one.
-/

namespace LogMonitor.Library.Machine

universe u v w x

variable {Input : Type u} {Answer : Type v} {First : Type w} {Second : Type x}

/-- What the machine answers on the inputs, `none` when they are used up before. -/
def answer (advance : First → Input → First ⊕ Answer) : List Input → First → Option Answer
  | [], _ => none
  | input :: rest, s =>
    match advance s input with
    | .inl next => answer advance rest next
    | .inr answered => some answered

inductive Together (related : First → Second → Prop) : First ⊕ Answer → Second ⊕ Answer → Prop
  | on {s : First} {t : Second} (both : related s t) : Together related (.inl s) (.inl t)
  | done (answered : Answer) : Together related (.inr answered) (.inr answered)

theorem answer_lockstep {first : First → Input → First ⊕ Answer}
    {second : Second → Input → Second ⊕ Answer} {related : First → Second → Prop}
    {inputs : List Input}
    (step : ∀ s t, ∀ input ∈ inputs, related s t → Together related (first s input) (second t input))
    {s : First} {t : Second} (both : related s t) :
    answer first inputs s = answer second inputs t := by
  induction inputs generalizing s t with
  | nil => rfl
  | cons input rest ih =>
    have now := step s t input (List.mem_cons_self ..) both
    have later : ∀ s t, ∀ other ∈ rest, related s t →
        Together related (first s other) (second t other) :=
      fun s t other listed => step s t other (List.mem_cons_of_mem _ listed)
    unfold answer
    generalize first s input = left at now ⊢
    generalize second t input = right at now ⊢
    cases now with
    | on both => exact ih later both
    | done answered => rfl

theorem answer_of_rank {advance : First → Input → First ⊕ Answer} {holds : First → Prop}
    {rank : First → Nat} (positive : ∀ s, holds s → 0 < rank s)
    (falls : ∀ s input next, holds s → advance s input = .inl next →
      holds next ∧ rank next < rank s)
    {inputs : List Input} {s : First} (initially : holds s) (enough : rank s ≤ inputs.length) :
    (answer advance inputs s).isSome := by
  induction inputs generalizing s with
  | nil => exact absurd (positive s initially) (Nat.not_lt.mpr enough)
  | cons input rest ih =>
    unfold answer
    split
    next next going =>
      obtain ⟨kept, less⟩ := falls s input next initially going
      exact ih kept (Nat.le_of_lt_succ (Nat.lt_of_lt_of_le less enough))
    next => rfl

end LogMonitor.Library.Machine
