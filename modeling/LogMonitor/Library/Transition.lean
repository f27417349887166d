import Mathlib.Data.List.Induction

/-!
Labelled transition systems and their finite runs. A run keeps the labels it
passed, oldest first, so that an invariant may speak about the history as well
as about the state reached.
-/

namespace LogMonitor.Library.Transition

universe u v w

variable {State : Type u} {Label : Type v}

inductive Run (step : State → Label → State → Prop) (start : State) : List Label → State → Prop
  | refl : Run step start [] start
  | snoc {labels : List Label} {current next : State} {label : Label} :
      Run step start labels current → step current label next →
      Run step start (labels ++ [label]) next

variable {step : State → Label → State → Prop} {start : State}

theorem Run.single {label : Label} {next : State} (first : step start label next) :
    Run step start [label] next := by
  simpa only [List.nil_append] using Run.snoc Run.refl first

theorem Run.trans {labels more : List Label} {middle final : State}
    (first : Run step start labels middle) (second : Run step middle more final) :
    Run step start (labels ++ more) final := by
  induction second with
  | refl => simpa using first
  | snoc _ last ih =>
    rw [← List.append_assoc]
    exact Run.snoc ih last

/-- The induction rule for properties of the history and the state together. -/
theorem Run.invariant (property : List Label → State → Prop) (initial : property [] start)
    (preserved : ∀ labels current label next, Run step start labels current →
      property labels current → step current label next → property (labels ++ [label]) next)
    {labels : List Label} {final : State} (run : Run step start labels final) :
    property labels final := by
  induction run with
  | refl => exact initial
  | snoc earlier last ih => exact preserved _ _ _ _ earlier ih last

/-- A run whose history is not empty ends with a step. -/
theorem Run.last {labels : List Label} {label : Label} {final : State}
    (run : Run step start (labels ++ [label]) final) :
    ∃ current, Run step start labels current ∧ step current label final := by
  generalize shape : labels ++ [label] = all at run
  cases run with
  | refl => simp at shape
  | snoc earlier last =>
    obtain ⟨same, single⟩ := List.append_inj' shape rfl
    obtain rfl := List.singleton_inj.mp single
    subst same
    exact ⟨_, earlier, last⟩

/-- Every prefix of a run's labels is the history of a state the run passed. -/
theorem Run.split {before after : List Label} {final : State}
    (run : Run step start (before ++ after) final) :
    ∃ middle, Run step start before middle ∧ Run step middle after final := by
  induction after using List.reverseRecOn generalizing final with
  | nil => exact ⟨final, by simpa using run, Run.refl⟩
  | append_singleton after label ih =>
    rw [← List.append_assoc] at run
    obtain ⟨current, earlier, last⟩ := run.last
    obtain ⟨middle, first, second⟩ := ih earlier
    exact ⟨middle, first, Run.snoc second last⟩

theorem Run.of_nil {final : State} (run : Run step start [] final) : final = start := by
  generalize shape : ([] : List Label) = labels at run
  cases run with
  | refl => rfl
  | snoc earlier last => simp at shape

/-- A run whose history is not empty starts with a step. -/
theorem Run.uncons {label : Label} {labels : List Label} {final : State}
    (run : Run step start (label :: labels) final) :
    ∃ next, step start label next ∧ Run step next labels final := by
  have parts : Run step start ([label] ++ labels) final := run
  obtain ⟨next, first, rest⟩ := parts.split
  have one : Run step start ([] ++ [label]) next := first
  obtain ⟨current, none, taken⟩ := one.last
  rw [none.of_nil] at taken
  exact ⟨next, taken, rest⟩

/-- If one label always comes before another, what the first brings about for good holds wherever
the second has left its mark. -/
theorem Run.brought {first second : Label} (brought closed : State → Prop) (never : ¬closed start)
    (stays : ∀ {current label next}, step current label next → brought current ∨ label = first →
      brought next)
    (closes : ∀ {current label next}, step current label next → closed next →
      closed current ∨ label = second)
    {labels : List Label} {final : State} (run : Run step start labels final)
    (order : ∀ before after, labels = before ++ second :: after → first ∈ before) :
    closed final → brought final := by
  have both : (first ∈ labels → brought final) ∧ (closed final → first ∈ labels) := by
    induction run with
    | refl => exact ⟨nofun, fun shut => absurd shut never⟩
    | @snoc labels current next label run last ih =>
      obtain ⟨reached, seen⟩ := ih fun before after shape =>
        order before (after ++ [label]) (by rw [shape, List.append_assoc, List.cons_append])
      refine ⟨fun inside => stays last ?_, fun shut => ?_⟩
      · rcases List.mem_append.mp inside with old | new
        · exact .inl (reached old)
        · exact .inr (List.mem_singleton.mp new).symm
      · rcases closes last shut with old | now
        · exact List.mem_append_left _ (seen old)
        · rw [now] at order
          exact List.mem_append_left _ (order labels [] rfl)
  exact fun shut => both.1 (both.2 shut)

/-- The run took a step with this label, from a state with the property. The property may also
speak of the labels before the step. -/
def Took (step : State → Label → State → Prop) (start : State) (labels : List Label)
    (final : State) (label : Label) (property : List Label → State → Prop) : Prop :=
  ∃ before after middle next, labels = before ++ label :: after ∧ Run step start before middle ∧
    step middle label next ∧ Run step next after final ∧ property before middle

theorem Took.now {labels : List Label} {final next : State} {label : Label}
    {property : List Label → State → Prop} (run : Run step start labels final)
    (last : step final label next) (holds : property labels final) :
    Took step start (labels ++ [label]) next label property :=
  ⟨labels, [], final, next, rfl, run, last, Run.refl, holds⟩

theorem Took.snoc {labels : List Label} {final next : State} {label later : Label}
    {property : List Label → State → Prop} (took : Took step start labels final label property)
    (last : step final later next) :
    Took step start (labels ++ [later]) next label property := by
  obtain ⟨before, after, middle, reached, rfl, first, taken, second, holds⟩ := took
  have shape : before ++ label :: after ++ [later] = before ++ label :: (after ++ [later]) := by
    rw [List.append_assoc, List.cons_append]
  exact ⟨before, after ++ [later], middle, reached, shape, first, taken, second.snoc last, holds⟩

theorem Took.trans {before after : List Label} {middle final : State} {label : Label}
    {property : List Label → State → Prop} (took : Took step start before middle label property)
    (rest : Run step middle after final) :
    Took step start (before ++ after) final label property := by
  induction rest with
  | refl => rwa [List.append_nil]
  | snoc _ last ih =>
    rw [← List.append_assoc]
    exact ih.snoc last

/-- The induction rule for runs that never take a bad step. -/
theorem Run.invariant_of_never {bad : State → Label → Prop} (property : State → Prop)
    (initial : property start)
    (preserved : ∀ current label next, property current → step current label next →
      ¬bad current label → property next)
    {labels : List Label} {final : State} (run : Run step start labels final)
    (never : ∀ label, ¬Took step start labels final label fun _ m => bad m label) :
    property final := by
  refine run.invariant (fun labels final =>
    (∀ label, ¬Took step start labels final label fun _ m => bad m label) → property final)
    (fun _ => initial) ?_ never
  intro labels current label next run ih step never
  have before : property current := ih fun other took => never other (took.snoc step)
  exact preserved current label next before step fun harmful => never label (Took.now run step harmful)

/-- Some step has set a mark, and no step after it has ended it. -/
def Since (step : State → Label → State → Prop) (start : State) (labels : List Label)
    (final : State) (sets : State → Label → Prop) (ends : Label → Prop) : Prop :=
  ∃ before label after middle, labels = before ++ label :: after ∧ Run step start before middle ∧
    Run step middle (label :: after) final ∧ sets middle label ∧ ∀ later ∈ after, ¬ends later

theorem Since.now {labels : List Label} {final next : State} {label : Label}
    {sets : State → Label → Prop} {ends : Label → Prop} (run : Run step start labels final)
    (last : step final label next) (set : sets final label) :
    Since step start (labels ++ [label]) next sets ends :=
  ⟨labels, label, [], final, rfl, run, Run.single last, set, by simp⟩

theorem Since.snoc {labels : List Label} {final next : State} {label : Label}
    {sets : State → Label → Prop} {ends : Label → Prop}
    (since : Since step start labels final sets ends) (last : step final label next)
    (going : ¬ends label) : Since step start (labels ++ [label]) next sets ends := by
  obtain ⟨before, set, after, middle, rfl, first, second, holds, kept⟩ := since
  have shape : before ++ set :: after ++ [label] = before ++ set :: (after ++ [label]) := by
    rw [List.append_assoc, List.cons_append]
  refine ⟨before, set, after ++ [label], middle, shape, first, second.snoc last, holds, ?_⟩
  intro later inside
  rcases List.mem_append.mp inside with old | new
  · exact kept later old
  · rwa [List.mem_singleton.mp new]

/-- A mark that every step sets, keeps or ends is there if it was set since it last ended, or was
there at the start and has not ended. -/
theorem Run.marked_iff (marked : State → Prop) {sets : State → Label → Prop} {ends : Label → Prop}
    (moves : ∀ current label next, step current label next →
      (marked next ↔ sets current label ∨ marked current ∧ ¬ends label))
    {labels : List Label} {final : State} (run : Run step start labels final) :
    marked final ↔ Since step start labels final sets ends ∨
      marked start ∧ ∀ label ∈ labels, ¬ends label := by
  have stays {first last : State} {passed : List Label} (rest : Run step first passed last)
      (there : marked first) (going : ∀ label ∈ passed, ¬ends label) : marked last := by
    induction rest with
    | refl => exact there
    | @snoc passed current next label _ last ih =>
      have before := ih fun other inside => going other (List.mem_append_left _ inside)
      exact (moves _ _ _ last).mpr (.inr ⟨before, going label (by simp)⟩)
  constructor
  · induction run with
    | refl => exact fun there => .inr ⟨there, nofun⟩
    | @snoc labels current next label run last ih =>
      intro there
      rcases (moves _ _ _ last).mp there with now | ⟨before, kept⟩
      · exact .inl ⟨labels, label, [], current, rfl, run, Run.single last, now, nofun⟩
      · rcases ih before with
          ⟨early, set, late, middle, rfl, first, second, holds, going⟩ | ⟨old, going⟩
        · refine .inl ⟨early, set, late ++ [label], middle, ?_, first, second.snoc last, holds, ?_⟩
          · rw [List.append_assoc, List.cons_append]
          · intro later inside
            rcases List.mem_append.mp inside with old | new
            · exact going later old
            · rwa [List.mem_singleton.mp new]
        · refine .inr ⟨old, fun other inside => ?_⟩
          rcases List.mem_append.mp inside with old | new
          · exact going other old
          · rwa [List.mem_singleton.mp new]
  · rintro (⟨early, set, late, middle, rfl, first, second, holds, going⟩ | ⟨old, going⟩)
    · obtain ⟨next, taken, rest⟩ := second.uncons
      exact stays rest ((moves _ _ _ taken).mpr (.inl holds)) going
    · exact stays run old going

/-- A run to the first label that has an answer. -/
inductive RunUntil {β : Type w} (step : State → Label → State → Prop) (answer : Label → Option β) :
    State → β → State → Prop
  | last {current next : State} {label : Label} {answered : β} (taken : step current label next)
      (done : answer label = some answered) : RunUntil step answer current answered next
  | more {current middle next : State} {label : Label} {answered : β}
      (taken : step current label middle) (going : answer label = none)
      (rest : RunUntil step answer middle answered next) : RunUntil step answer current answered next

/-- The rule of a loop: what every step before the answer keeps, the answering step turns into the
postcondition. -/
theorem RunUntil.rule {β : Type w} {answer : Label → Option β} (holds : State → Prop)
    (post : β → State → Prop)
    (keeps : ∀ current label next, holds current → step current label next →
      (answer label = none → holds next) ∧ ∀ answered, answer label = some answered →
        post answered next)
    {current next : State} {answered : β} (run : RunUntil step answer current answered next)
    (initially : holds current) : post answered next := by
  induction run with
  | last taken done => exact (keeps _ _ _ initially taken).2 _ done
  | more taken going rest ih => exact ih ((keeps _ _ _ initially taken).1 going)

theorem RunUntil.keeps_going {β : Type w} {answer : Option β} {held : Prop} {post : β → Prop}
    (going : answer = none) (holds : held) :
    (answer = none → held) ∧ ∀ answered, answer = some answered → post answered := by
  refine ⟨fun _ => holds, fun answered done => ?_⟩
  rw [going] at done
  cases done

theorem RunUntil.keeps_done {β : Type w} {answer : Option β} {answered : β} {held : Prop}
    {post : β → Prop} (done : answer = some answered) (ends : post answered) :
    (answer = none → held) ∧ ∀ other, answer = some other → post other := by
  rw [done]
  constructor
  · rintro ⟨⟩
  · rintro _ ⟨⟩
    exact ends

end LogMonitor.Library.Transition
