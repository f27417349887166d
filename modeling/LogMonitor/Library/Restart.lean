import Mathlib.Data.List.ReduceOption

/-!
Stores that are destroyed and rebuilt from what they have saved. If a rebuilt
state stands for the state that was destroyed, and states that stand for each
other answer alike, the answers of a sequence of operations do not tell where
the restarts were.
-/

namespace LogMonitor.Library.Restart

universe u v w

structure Durable (State : Type u) (Op : Type v) (Answer : Type w) where
  operate : State → Op → State × Answer
  /-- The state that is rebuilt, if what was saved can be read. -/
  reload : State → Option State

variable {State : Type u} {Op : Type v} {Answer : Type w}

namespace Durable

variable (store : Durable State Op Answer)

def answers : State → List Op → List Answer
  | _, [] => []
  | s, op :: rest => (store.operate s op).2 :: answers (store.operate s op).1 rest

/-- The answers with a restart at each `none`. -/
def answersRestarted : State → List (Option Op) → Option (List Answer)
  | _, [] => some []
  | s, none :: rest =>
    match store.reload s with
    | none => none
    | some fresh => answersRestarted fresh rest
  | s, some op :: rest =>
    (answersRestarted (store.operate s op).1 rest).map ((store.operate s op).2 :: ·)

def Along (proper : State → Op → Prop) : State → List Op → Prop
  | _, [] => True
  | s, op :: rest => proper s op ∧ Along proper (store.operate s op).1 rest

/-- The second state stands for the first: proper operations answer alike and keep it so, and it
may be rebuilt. -/
structure StandsFor (proper : State → Op → Prop) (related : State → State → Prop) : Prop where
  answers : ∀ {s t op}, related s t → proper s op → (store.operate s op).2 = (store.operate t op).2
  operates : ∀ {s t op}, related s t → proper s op →
    related (store.operate s op).1 (store.operate t op).1
  reloads : ∀ {s t}, related s t → ∃ fresh, store.reload t = some fresh ∧ related s fresh

variable {store}

theorem StandsFor.answersRestarted {proper : State → Op → Prop} {related : State → State → Prop}
    (standing : store.StandsFor proper related) {steps : List (Option Op)} {s t : State}
    (same : related s t) (along : store.Along proper s steps.reduceOption) :
    store.answersRestarted t steps = some (store.answers s steps.reduceOption) := by
  induction steps generalizing s t with
  | nil => rfl
  | cons step rest ih =>
    cases step with
    | none =>
      obtain ⟨fresh, rebuilt, again⟩ := standing.reloads same
      rw [List.reduceOption_cons_of_none] at along ⊢
      rw [Durable.answersRestarted, rebuilt]
      exact ih again along
    | some op =>
      rw [List.reduceOption_cons_of_some] at along ⊢
      obtain ⟨proper, along⟩ := along
      rw [Durable.answersRestarted, Durable.answers, ih (standing.operates same proper) along,
        standing.answers same proper]
      rfl

end Durable

end LogMonitor.Library.Restart
