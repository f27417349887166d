import Mathlib.Data.List.Induction

/-!
Lists that a separator divides into pieces. A list may be taken piece by piece
from its front, as long as no cut goes through a piece.
-/

namespace LogMonitor.Library.Lines

universe u

variable {α : Type u} [DecidableEq α] {sep : α}

/-- The pieces that are not empty. -/
def filled (sep : α) (xs : List α) : List (List α) := (xs.splitOn sep).filter (· ≠ [])

/-- The pieces that are not empty and have their separator. -/
def terminated (sep : α) (xs : List α) : List (List α) :=
  (xs.splitOn sep).dropLast.filter (· ≠ [])

/-- The pieces that have their separator, the empty ones too. -/
def ended (sep : α) (xs : List α) : List (List α) := (xs.splitOn sep).dropLast

theorem ended_append (xs ys : List α) :
    ended sep (xs ++ sep :: ys) = xs.splitOn sep ++ ended sep ys := by
  rw [ended, List.splitOn_append_cons_self,
    List.dropLast_append_of_ne_nil (List.splitOn_ne_nil sep ys)]
  rfl

theorem ended_cons {piece : List α} (absent : sep ∉ piece) (rest : List α) :
    ended sep (piece ++ sep :: rest) = piece :: ended sep rest := by
  rw [ended_append, List.splitOn_eq_singleton absent]
  rfl

theorem length_splitOn (xs : List α) : (xs.splitOn sep).length = xs.count sep + 1 := by
  induction xs with
  | nil => rfl
  | cons x xs ih =>
    rw [List.splitOn_cons_eq_if_modifyHead]
    by_cases same : x = sep
    · simp [same, ih]
    · simp [same, ih]

/-- Lines behind each other, each with its separator. -/
def joined (sep : α) (lines : List (List α)) : List α :=
  (lines.map fun line => line ++ [sep]).flatten

omit [DecidableEq α] in
theorem joined_cons (line : List α) (lines : List (List α)) :
    joined sep (line :: lines) = line ++ sep :: joined sep lines := by
  rw [joined, List.map_cons, List.flatten_cons, List.append_assoc, List.singleton_append]
  rfl

omit [DecidableEq α] in
theorem joined_append (lines more : List (List α)) :
    joined sep (lines ++ more) = joined sep lines ++ joined sep more := by
  rw [joined, List.map_append, List.flatten_append]
  rfl

theorem ended_joined {lines : List (List α)} (absent : ∀ line ∈ lines, sep ∉ line) :
    ended sep (joined sep lines) = lines := by
  induction lines with
  | nil => rfl
  | cons line lines ih =>
    obtain ⟨first, others⟩ := List.forall_mem_cons.mp absent
    rw [joined_cons, ended_cons first, ih others]

theorem length_ended_joined (lines : List (List α)) :
    lines.length ≤ (ended sep (joined sep lines)).length ∧
      ((ended sep (joined sep lines)).length = lines.length ↔ ∀ line ∈ lines, sep ∉ line) := by
  induction lines with
  | nil => exact ⟨Nat.zero_le _, fun _ => nofun, fun _ => rfl⟩
  | cons line lines ih =>
    obtain ⟨most, exactly⟩ := ih
    have pieces : (ended sep (joined sep (line :: lines))).length =
        line.count sep + 1 + (ended sep (joined sep lines)).length := by
      rw [joined_cons, ended_append, List.length_append, length_splitOn]
    rw [pieces, List.forall_mem_cons, ← exactly, ← List.count_eq_zero, List.length_cons]
    omega

def marked (mark : α) (line : List α) : Bool := line.head? = some mark

/-- A piece after the first begins with the mark where the mark follows a separator. -/
theorem splitOn_marked {mark : α} (other : mark ≠ sep) (xs : List α) :
    ∃ first rest, xs.splitOn sep = first :: rest ∧ marked mark first = marked mark xs ∧
      ((∃ piece ∈ rest, marked mark piece = true) ↔ [sep, mark] <:+: xs) := by
  induction xs with
  | nil => exact ⟨[], [], rfl, rfl, by simp⟩
  | cons x xs ih =>
    obtain ⟨first, rest, shape, same, later⟩ := ih
    rw [List.splitOn_cons_eq_if_modifyHead, shape]
    by_cases separator : x = sep
    · subst separator
      apply Exists.intro []
      apply Exists.intro (first :: rest)
      have front : [mark] <+: xs ↔ marked mark xs = true := by
        cases xs with
        | nil => simp [marked]
        | cons y ys => simp [marked, eq_comm]
      have inside : [x, mark] <:+: x :: xs ↔ [mark] <+: xs ∨ [x, mark] <:+: xs := by
        rw [List.infix_cons_iff, List.cons_prefix_cons]
        simp only [true_and]
      refine ⟨by simp, by simp [marked, Ne.symm other], ?_⟩
      rw [inside, front, ← later, ← same]
      simp only [List.mem_cons, exists_eq_or_imp]
    · apply Exists.intro (x :: first)
      apply Exists.intro rest
      have inside : [sep, mark] <:+: x :: xs ↔ [sep, mark] <:+: xs := by
        rw [List.infix_cons_iff, List.cons_prefix_cons]
        simp only [Ne.symm separator, false_and, false_or]
      refine ⟨by simp [separator], rfl, ?_⟩
      rw [inside, later]

/-- A mark behind a separator makes more marked lines of the lines. -/
theorem countP_marked_joined {mark : α} (other : mark ≠ sep) (lines : List (List α)) :
    lines.countP (marked mark) ≤ (ended sep (joined sep lines)).countP (marked mark) ∧
      ((ended sep (joined sep lines)).countP (marked mark) = lines.countP (marked mark) ↔
        ∀ line ∈ lines, ¬[sep, mark] <:+: line) := by
  induction lines with
  | nil => exact ⟨Nat.zero_le _, fun _ => by simp, fun _ => rfl⟩
  | cons line lines ih =>
    obtain ⟨most, exactly⟩ := ih
    obtain ⟨first, rest, shape, same, inside⟩ := splitOn_marked other line
    have clean : rest.countP (marked mark) = 0 ↔ ¬[sep, mark] <:+: line := by
      rw [← inside, List.countP_eq_zero]
      simp
    rw [joined_cons, ended_append, shape, List.countP_append, List.countP_cons, List.countP_cons,
      same, List.forall_mem_cons, ← exactly, ← clean]
    omega

theorem filled_nil : filled sep [] = [] := rfl

theorem filled_append_sep (xs ys : List α) :
    filled sep (xs ++ sep :: ys) = filled sep xs ++ filled sep ys := by
  rw [filled, List.splitOn_append_cons_self, List.filter_append]
  rfl

theorem filled_of_not_mem {xs : List α} (absent : sep ∉ xs) :
    filled sep xs = if xs = [] then [] else [xs] := by
  rw [filled, List.splitOn_eq_singleton absent]
  by_cases empty : xs = [] <;> simp [empty]

theorem filled_concat_sep (xs : List α) : filled sep (xs ++ [sep]) = filled sep xs := by
  rw [filled_append_sep, filled_nil, List.append_nil]

theorem filled_of_all {xs : List α} (all : ∀ x ∈ xs, x = sep) : filled sep xs = [] := by
  induction xs with
  | nil => rfl
  | cons x xs ih =>
    obtain rfl := all x (List.mem_cons_self ..)
    have rest := ih fun y listed => all y (List.mem_cons_of_mem _ listed)
    exact (filled_append_sep [] xs).trans rest

/-- After these elements a piece begins. -/
def AtStart (sep : α) (xs : List α) : Prop := ∀ x ∈ xs.getLast?, x = sep

/-- These elements do not go on with a piece. -/
def Ends (sep : α) (xs : List α) : Prop := ∀ x ∈ xs.head?, x = sep

theorem filled_append_of_atStart {xs : List α} (start : AtStart sep xs) (ys : List α) :
    filled sep (xs ++ ys) = filled sep xs ++ filled sep ys := by
  induction xs using List.reverseRecOn with
  | nil => rfl
  | append_singleton xs x _ =>
    obtain rfl := start x (by simp)
    rw [filled_concat_sep, List.append_assoc]
    exact filled_append_sep xs ys

theorem filled_append_of_ends {ys : List α} (ends : Ends sep ys) (xs : List α) :
    filled sep (xs ++ ys) = filled sep xs ++ filled sep ys := by
  cases ys with
  | nil => rw [List.append_nil, filled_nil, List.append_nil]
  | cons y ys =>
    obtain rfl := ends y rfl
    have pieces : filled y (y :: ys) = filled y ys := filled_append_sep [] ys
    rw [filled_append_sep, pieces]

theorem terminated_of_atStart {xs : List α} (start : AtStart sep xs) :
    terminated sep xs = filled sep xs := by
  induction xs using List.reverseRecOn with
  | nil => rfl
  | append_singleton xs x _ =>
    obtain rfl := start x (by simp)
    have pieces : (xs ++ [x]).splitOn x = xs.splitOn x ++ [[]] :=
      List.splitOn_append_cons_self xs []
    rw [terminated, filled, pieces, List.dropLast_concat, List.filter_append]
    simp

omit [DecidableEq α] in
theorem atStart_concat (xs : List α) (x : α) : AtStart sep (xs ++ [x]) ↔ x = sep := by
  simp [AtStart]

theorem exists_last (sep : α) (xs : List α) :
    ∃ last, sep ∉ last ∧ (xs = last ∨ ∃ before, xs = before ++ sep :: last) := by
  induction xs using List.reverseRecOn with
  | nil => exact ⟨[], List.not_mem_nil, .inl rfl⟩
  | append_singleton xs x ih =>
    by_cases same : x = sep
    · exact ⟨[], List.not_mem_nil, .inr ⟨xs, by rw [same]⟩⟩
    · obtain ⟨last, absent, shape⟩ := ih
      refine ⟨last ++ [x], by simp [absent, Ne.symm same], ?_⟩
      rcases shape with whole | ⟨before, cut⟩
      · exact .inl (by rw [whole])
      · exact .inr ⟨before, by rw [cut, List.append_assoc, List.cons_append]⟩

theorem filled_of_not_mem_concat {last : List α} (absent : sep ∉ last) {x : α} (other : x ≠ sep) :
    filled sep (last ++ [x]) = [last ++ [x]] := by
  have both : sep ∉ last ++ [x] := by simp [absent, Ne.symm other]
  rw [filled_of_not_mem both, if_neg (by simp)]

/-- An element after a separator, or at the front, begins a piece; the others go on with one. -/
theorem length_filled_concat (xs : List α) {x : α} (other : x ≠ sep) :
    (AtStart sep xs → (filled sep (xs ++ [x])).length = (filled sep xs).length + 1) ∧
      (¬AtStart sep xs → (filled sep (xs ++ [x])).length = (filled sep xs).length) := by
  constructor
  · intro start
    have single : filled sep [x] = [[x]] := filled_of_not_mem_concat List.not_mem_nil other
    rw [filled_append_of_atStart start, single, List.length_append, List.length_singleton]
  · intro middle
    obtain ⟨last, absent, shape⟩ := exists_last sep xs
    have some : last ≠ [] := by
      rintro rfl
      rcases shape with rfl | ⟨before, rfl⟩
      · exact middle nofun
      · exact middle ((atStart_concat before sep).mpr rfl)
    rcases shape with rfl | ⟨before, rfl⟩
    · rw [filled_of_not_mem_concat absent other, filled_of_not_mem absent, if_neg some]
      rfl
    · rw [List.append_assoc, List.cons_append, filled_append_sep, filled_append_sep,
        filled_of_not_mem_concat absent other, filled_of_not_mem absent, if_neg some]
      simp

omit [DecidableEq α] in
theorem atStart_append (xs : List α) {ys : List α} (some : ys ≠ []) :
    AtStart sep (xs ++ ys) ↔ AtStart sep ys := by
  obtain ⟨ys, y, rfl⟩ := (List.eq_nil_or_concat ys).resolve_left some
  rw [List.concat_eq_append, ← List.append_assoc, atStart_concat, atStart_concat]

omit [DecidableEq α] in
theorem ends_append {xs : List α} (some : xs ≠ []) (ys : List α) :
    Ends sep (xs ++ ys) ↔ Ends sep xs := by
  cases xs with
  | nil => exact absurd rfl some
  | cons x xs => exact Iff.rfl

/-- A cut adds a piece at most, and it adds one if it goes through a piece. -/
theorem length_filled_append (xs ys : List α) :
    (filled sep (xs ++ ys)).length ≤ (filled sep xs).length + (filled sep ys).length ∧
      (¬AtStart sep xs → ¬Ends sep ys →
        (filled sep (xs ++ ys)).length < (filled sep xs).length + (filled sep ys).length) := by
  by_cases start : AtStart sep xs
  · rw [filled_append_of_atStart start, List.length_append]
    exact ⟨Nat.le_refl _, fun middle => absurd start middle⟩
  induction ys using List.reverseRecOn with
  | nil =>
    rw [List.append_nil]
    exact ⟨Nat.le_add_right .., fun _ goesOn => absurd nofun goesOn⟩
  | append_singleton ys y ih =>
    by_cases same : y = sep
    · subst same
      rw [← List.append_assoc, filled_concat_sep, filled_concat_sep]
      refine ⟨ih.1, fun middle goesOn => ih.2 middle fun ends => goesOn ?_⟩
      by_cases first : ys = []
      · rw [first]
        exact fun x head => (Option.some.inj head).symm
      · exact (ends_append first _).mpr ends
    · by_cases first : ys = []
      · have alone := (length_filled_concat [] same).1 nofun
        have joined := (length_filled_concat xs same).2 start
        rw [first, List.nil_append, joined]
        rw [List.nil_append, filled_nil, List.length_nil] at alone
        omega
      · rw [ends_append first, ← List.append_assoc]
        by_cases before : AtStart sep ys
        · have left := (length_filled_concat (xs ++ ys) same).1 ((atStart_append xs first).mpr before)
          have right := (length_filled_concat ys same).1 before
          rw [left, right]
          exact ⟨by omega, fun middle goesOn => by have := ih.2 middle goesOn; omega⟩
        · have left := (length_filled_concat (xs ++ ys) same).2
            fun begins => before ((atStart_append xs first).mp begins)
          have right := (length_filled_concat ys same).2 before
          rw [left, right]
          exact ih

theorem splitOn_flatten (sep : α) (xs : List α) :
    (xs.splitOn sep).flatten = xs.filter (· ≠ sep) := by
  induction xs with
  | nil => rfl
  | cons x xs ih =>
    rw [List.splitOn_cons_eq_if_modifyHead]
    by_cases same : x = sep
    · simp [same, ih]
    · obtain ⟨first, rest, shape⟩ := List.exists_cons_of_ne_nil (List.splitOn_ne_nil sep xs)
      rw [shape, List.flatten_cons] at ih
      simp only [same, shape, beq_iff_eq, if_false, List.modifyHead_cons, List.flatten_cons,
        List.cons_append, ih, ne_eq, not_false_eq_true, decide_true, List.filter_cons_of_pos]

theorem not_mem_of_mem_splitOn {xs piece : List α} (listed : piece ∈ xs.splitOn sep) :
    sep ∉ piece := by
  intro member
  have kept := List.mem_flatten_of_mem listed member
  rw [splitOn_flatten] at kept
  simp at kept

/-- The pieces hold everything but the separators. -/
theorem filled_flatten (sep : α) (xs : List α) :
    (filled sep xs).flatten = xs.filter (· ≠ sep) := by
  rw [filled, List.flatten_filter_ne_nil, splitOn_flatten]

end LogMonitor.Library.Lines
