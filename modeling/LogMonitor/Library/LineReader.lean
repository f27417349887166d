import LogMonitor.Library.Lines

/-!
A reader that follows a growing list and hands on its pieces. It reads to the
end, passes over what has arrived by the time it looks for the end again, and
goes on from there. The moves that do no harm keep its pieces those of the list;
after any other one they never are again.
-/

namespace LogMonitor.Library.LineReader
open Lines

universe u

variable {α : Type u} [DecidableEq α]

structure View (α : Type u) where
  taken : List α
  rest : List α
  pieces : List (List α)
  /-- The reader has met the end and not yet looked for it again. -/
  pastEnd : Bool

def View.start : View α := ⟨[], [], [], false⟩

/-- What arrives fits: it begins no piece that is passed over, and does not go on with a piece
that was taken for a whole one. -/
structure View.Fits (sep : α) (v : View α) (new : List α) : Prop where
  quiet : v.pastEnd = true → ∀ x ∈ new, x = sep
  begins : v.rest = [] → AtStart sep v.taken ∨ Ends sep new

inductive Moves (sep : α) : View α → View α → Prop
  | arrive {v : View α} {new : List α} (fits : v.Fits sep new) :
      Moves sep v { v with rest := v.rest ++ new }
  | stay {v : View α} {pastEnd : Bool} (keeps : v.pastEnd = true → pastEnd = true)
      (ended : pastEnd = true → v.pastEnd = true ∨ v.rest = []) :
      Moves sep v { v with pastEnd := pastEnd }
  | read {v : View α} {chunk more : List α} {pastEnd : Bool} (before : v.pastEnd = false)
      (split : v.rest = chunk ++ more) (some : chunk ≠ [])
      (whole : AtStart sep chunk ∨ more = []) (ended : pastEnd = true → more = []) :
      Moves sep v ⟨v.taken ++ chunk, more, v.pieces ++ filled sep chunk, pastEnd⟩
  | skip {v : View α} (past : v.pastEnd = true) :
      Moves sep v ⟨v.taken ++ v.rest, [], v.pieces, false⟩

inductive Harms (sep : α) : View α → View α → Prop
  | arrive {v : View α} {new : List α} (unfit : ¬v.Fits sep new) :
      Harms sep v { v with rest := v.rest ++ new }
  /-- The last piece is lost from the reader's hands. -/
  | lose {v : View α} {before : List (List α)} {piece : List α}
      (last : v.pieces = before ++ [piece]) :
      Harms sep v { v with pieces := before ++ [[]] }

/-- The pieces are those of what was taken, and no cut goes through one. -/
structure Intact (sep : α) (v : View α) : Prop where
  pieces : v.pieces = filled sep v.taken
  between : AtStart sep v.taken ∨ Ends sep v.rest
  past : v.pastEnd = true → ∀ x ∈ v.rest, x = sep

section Harmless

variable {sep : α} {v w : View α}

theorem intact_start : Intact sep (View.start : View α) :=
  ⟨rfl, .inl nofun, nofun⟩

theorem Intact.moves (intact : Intact sep v) (moves : Moves sep v w) : Intact sep w := by
  cases moves with
  | @arrive new fits =>
    refine ⟨intact.pieces, ?_, fun past x listed => ?_⟩
    · cases rest : v.rest with
      | nil => exact fits.begins rest
      | cons first more =>
        have between := intact.between
        rw [rest] at between
        exact between
    · rcases List.mem_append.mp listed with before | new
      · exact intact.past past x before
      · exact fits.quiet past x new
  | stay keeps ended =>
    refine ⟨intact.pieces, intact.between, fun now => ?_⟩
    rcases ended now with before | empty
    · exact intact.past before
    · intro x listed
      simp only [empty, List.not_mem_nil] at listed
  | @read chunk more pastEnd before split some whole ended =>
    refine ⟨?_, ?_, fun now => ?_⟩
    · have between := intact.between
      rw [split, ends_append some] at between
      simp only [intact.pieces]
      rcases between with start | ends
      · exact (filled_append_of_atStart start chunk).symm
      · exact (filled_append_of_ends ends v.taken).symm
    · rcases whole with start | all
      · exact .inl ((atStart_append v.taken some).mpr start)
      · exact .inr (all ▸ nofun)
    · rw [ended now]
      exact nofun
  | skip past =>
    refine ⟨?_, .inr nofun, nofun⟩
    have all := intact.past past
    have ends : Ends sep v.rest := fun x first => all x (List.mem_of_mem_head? first)
    rw [filled_append_of_ends ends, filled_of_all all, List.append_nil]
    exact intact.pieces

/-- To these pieces the reader has added those of what it has taken. -/
def Adds (sep : α) (old : List (List α)) (v : View α) : Prop :=
  ∃ new, v.pieces = old ++ new ∧ Intact sep { v with pieces := new }

theorem Adds.moves {old : List (List α)} (adds : Adds sep old v) (moves : Moves sep v w) :
    Adds sep old w := by
  obtain ⟨new, pieces, intact⟩ := adds
  cases moves with
  | arrive fits => exact ⟨new, pieces, intact.moves (.arrive ⟨fits.quiet, fits.begins⟩)⟩
  | stay keeps ended => exact ⟨new, pieces, intact.moves (.stay keeps ended)⟩
  | @read chunk more pastEnd before split some whole ended =>
    refine ⟨new ++ filled sep chunk, ?_, intact.moves (.read before split some whole ended)⟩
    simp only [pieces, List.append_assoc]
  | skip past => exact ⟨new, pieces, intact.moves (.skip past)⟩

end Harmless

def Lost (sep : α) (v : View α) : Prop :=
  v.pieces.flatten.length < (v.taken.filter (· ≠ sep)).length

/-- What holds of the reader in any case: it hands on nothing twice, and it has a piece for each
one of what was taken unless something is lost. -/
structure Bounded (sep : α) (v : View α) : Prop where
  holds : v.pieces.flatten.length ≤ (v.taken.filter (· ≠ sep)).length
  count : (filled sep v.taken).length ≤ v.pieces.length ∨ Lost sep v
  empty : [] ∈ v.pieces → Lost sep v

/-- The pieces are not those of what was taken, or will not be. -/
inductive Broken (sep : α) (v : View α) : Prop
  | lost (lost : Lost sep v)
  | divided (more : (filled sep v.taken).length < v.pieces.length)
  | joined (middle : ¬AtStart sep v.taken) (goesOn : ¬Ends sep v.rest)
  | late {x : α} (past : v.pastEnd = true) (arrived : x ∈ v.rest) (other : x ≠ sep)

section Damage

variable {sep : α} {v w : View α}

theorem bounded_start : Bounded sep (View.start : View α) :=
  ⟨Nat.le_refl _, .inl (Nat.le_refl _), nofun⟩

theorem Lost.read {chunk : List α} {rest : List α} {pastEnd : Bool} (lost : Lost sep v) :
    Lost sep ⟨v.taken ++ chunk, rest, v.pieces ++ filled sep chunk, pastEnd⟩ := by
  unfold Lost at lost ⊢
  rw [List.flatten_append, filled_flatten, List.length_append, List.filter_append,
    List.length_append]
  exact Nat.add_lt_add_right lost _

theorem Bounded.skip_lost (bounded : Bounded sep v) {x : α} (arrived : x ∈ v.rest)
    (other : x ≠ sep) : Lost sep ⟨v.taken ++ v.rest, [], v.pieces, false⟩ := by
  have there : x ∈ v.rest.filter (· ≠ sep) := List.mem_filter.mpr ⟨arrived, decide_eq_true other⟩
  have some := List.length_pos_of_mem there
  have holds := bounded.holds
  unfold Lost
  dsimp only
  rw [List.filter_append, List.length_append]
  omega

theorem Lost.skip (lost : Lost sep v) : Lost sep ⟨v.taken ++ v.rest, [], v.pieces, false⟩ := by
  unfold Lost at lost ⊢
  dsimp only
  rw [List.filter_append, List.length_append]
  omega

theorem filled_append_of_all {taken rest : List α} (all : ∀ x ∈ rest, x = sep) :
    filled sep (taken ++ rest) = filled sep taken := by
  have ends : Ends sep rest := fun x first => all x (List.mem_of_mem_head? first)
  rw [filled_append_of_ends ends, filled_of_all all, List.append_nil]

theorem Bounded.moves (bounded : Bounded sep v) (moves : Moves sep v w) : Bounded sep w := by
  cases moves with
  | arrive => exact ⟨bounded.holds, bounded.count, bounded.empty⟩
  | stay => exact ⟨bounded.holds, bounded.count, bounded.empty⟩
  | @read chunk more pastEnd before split some whole ended =>
    refine ⟨?_, ?_, fun listed => ?_⟩
    · have holds := bounded.holds
      simp only [List.flatten_append, filled_flatten, List.length_append, List.filter_append]
      omega
    · rcases bounded.count with enough | lost
      · left
        have most := (@length_filled_append _ _ sep v.taken chunk).1
        simp only [List.length_append]
        omega
      · exact .inr lost.read
    · rcases List.mem_append.mp listed with before | new
      · exact (bounded.empty before).read
      · simp [filled] at new
  | skip past =>
    by_cases all : ∀ x ∈ v.rest, x = sep
    · refine ⟨?_, ?_, fun listed => (bounded.empty listed).skip⟩
      · have holds := bounded.holds
        simp only [List.filter_append, List.length_append]
        omega
      · rcases bounded.count with enough | lost
        · left
          simp only [filled_append_of_all all]
          exact enough
        · exact .inr lost.skip
    · simp only [not_forall] at all
      obtain ⟨x, arrived, other⟩ := all
      have lost := bounded.skip_lost arrived other
      exact ⟨Nat.le_of_lt lost, .inr lost, fun _ => lost⟩

theorem Bounded.lose (bounded : Bounded sep v) {before : List (List α)} {piece : List α}
    (last : v.pieces = before ++ [piece]) : Lost sep { v with pieces := before ++ [[]] } := by
  have holds := bounded.holds
  rw [last] at holds
  unfold Lost
  simp only [List.flatten_append, List.flatten_singleton, List.length_append, List.length_nil,
    Nat.add_zero] at holds ⊢
  cases piece with
  | nil =>
    have lost := bounded.empty (by simp [last])
    unfold Lost at lost
    simpa [last] using lost
  | cons x piece =>
    rw [List.length_cons] at holds
    omega

theorem Bounded.harms (bounded : Bounded sep v) (harms : Harms sep v w) :
    Bounded sep w ∧ Broken sep w := by
  cases harms with
  | @arrive new unfit =>
    refine ⟨⟨bounded.holds, bounded.count, bounded.empty⟩, ?_⟩
    by_cases quiet : v.pastEnd = true → ∀ x ∈ new, x = sep
    · have begins : ¬(v.rest = [] → AtStart sep v.taken ∨ Ends sep new) :=
        fun begins => unfit ⟨quiet, begins⟩
      simp only [Classical.not_imp, not_or] at begins
      obtain ⟨empty, middle, goesOn⟩ := begins
      refine .joined middle ?_
      simpa only [empty, List.nil_append] using goesOn
    · simp only [Classical.not_imp, not_forall] at quiet
      obtain ⟨past, x, arrived, other⟩ := quiet
      exact .late past (List.mem_append_right _ arrived) other
  | lose last =>
    have lost := bounded.lose last
    exact ⟨⟨Nat.le_of_lt lost, .inr lost, fun _ => lost⟩, .lost lost⟩

theorem Broken.moves (broken : Broken sep v) (bounded : Bounded sep v) (moves : Moves sep v w) :
    Broken sep w := by
  cases moves with
  | arrive fits =>
    cases broken with
    | lost lost => exact .lost lost
    | divided more => exact .divided more
    | joined middle goesOn =>
      have some : v.rest ≠ [] := fun empty => goesOn (empty ▸ nofun)
      exact .joined middle fun ends => goesOn ((ends_append some _).mp ends)
    | late past arrived other => exact .late past (List.mem_append_left _ arrived) other
  | stay keeps ended =>
    cases broken with
    | lost lost => exact .lost lost
    | divided more => exact .divided more
    | joined middle goesOn => exact .joined middle goesOn
    | late past arrived other => exact .late (keeps past) arrived other
  | @read chunk more pastEnd before split some whole ended =>
    cases broken with
    | lost lost => exact .lost lost.read
    | divided fewer =>
      apply Broken.divided
      have most := (@length_filled_append _ _ sep v.taken chunk).1
      simp only [List.length_append]
      omega
    | joined middle goesOn =>
      rw [split, ends_append some] at goesOn
      rcases bounded.count with enough | lost
      · apply Broken.divided
        have fewer := (length_filled_append v.taken chunk).2 middle goesOn
        simp only [List.length_append]
        omega
      · exact .lost lost.read
    | late past arrived other =>
      rw [before] at past
      exact Bool.noConfusion past
  | skip past =>
    cases broken with
    | lost lost => exact .lost lost.skip
    | divided fewer =>
      by_cases all : ∀ x ∈ v.rest, x = sep
      · apply Broken.divided
        simp only [filled_append_of_all all]
        exact fewer
      · simp only [not_forall] at all
        obtain ⟨x, arrived, other⟩ := all
        exact .lost (bounded.skip_lost arrived other)
    | joined middle goesOn =>
      simp only [Ends, not_forall] at goesOn
      obtain ⟨x, first, other⟩ := goesOn
      exact .lost (bounded.skip_lost (List.mem_of_mem_head? first) other)
    | late past arrived other => exact .lost (bounded.skip_lost arrived other)

theorem Broken.pieces_ne (broken : Broken sep v) (all : v.rest = []) (within : v.pastEnd = false) :
    v.pieces ≠ filled sep v.taken := by
  intro same
  cases broken with
  | lost lost =>
    unfold Lost at lost
    rw [same, filled_flatten] at lost
    exact Nat.lt_irrefl _ lost
  | divided fewer =>
    rw [same] at fewer
    exact Nat.lt_irrefl _ fewer
  | joined middle goesOn => exact goesOn (all ▸ nofun)
  | late past arrived other =>
    rw [within] at past
    exact Bool.noConfusion past

end Damage

end LogMonitor.Library.LineReader
