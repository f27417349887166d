import Mathlib.Data.List.Induction
import Mathlib.Data.Nat.Digits.Defs

/-!
Numbers written with their first digit in front. How large a number is, is read
off the digits that follow its leading zeros.
-/

namespace LogMonitor.Library.Digits

def number (base : Nat) (digits : List Nat) : Nat := Nat.ofDigits base digits.reverse

def significant (digits : List Nat) : List Nat := digits.dropWhile (· = 0)

variable {base : Nat} {digits : List Nat}

theorem number_concat (base : Nat) (digits : List Nat) (digit : Nat) :
    number base (digits ++ [digit]) = number base digits * base + digit := by
  rw [number, List.reverse_concat, Nat.ofDigits_cons, Nat.mul_comm, Nat.add_comm]
  rfl

theorem number_cons (base digit : Nat) (digits : List Nat) :
    number base (digit :: digits) = digit * base ^ digits.length + number base digits := by
  rw [number, Nat.ofDigits_reverse_cons, Nat.mul_comm, Nat.add_comm]
  rfl

theorem number_lt_pow (large : 1 < base) (each : ∀ d ∈ digits, d < base) :
    number base digits < base ^ digits.length := by
  have reversed : ∀ d ∈ digits.reverse, d < base := fun d listed =>
    each d (List.mem_reverse.mp listed)
  have bound := Nat.ofDigits_lt_base_pow_length large reversed
  rwa [List.length_reverse] at bound

theorem significant_zero_cons (digits : List Nat) :
    significant (0 :: digits) = significant digits :=
  List.dropWhile_cons_of_pos rfl

theorem significant_cons {digit : Nat} (front : digit ≠ 0) (digits : List Nat) :
    significant (digit :: digits) = digit :: digits :=
  List.dropWhile_cons_of_neg (by simpa using front)

theorem number_significant (base : Nat) (digits : List Nat) :
    number base (significant digits) = number base digits := by
  induction digits with
  | nil => rfl
  | cons d digits ih =>
    by_cases zero : d = 0
    · rw [zero, significant_zero_cons, ih, number_cons, Nat.zero_mul, Nat.zero_add]
    · rw [significant_cons zero]

theorem number_le_append (positive : 0 < base) (digits more : List Nat) :
    number base digits ≤ number base (digits ++ more) := by
  induction more using List.reverseRecOn with
  | nil => rw [List.append_nil]
  | append_singleton more d ih =>
    rw [← List.append_assoc, number_concat]
    calc number base digits ≤ number base (digits ++ more) := ih
      _ ≤ number base (digits ++ more) * base := Nat.le_mul_of_pos_right _ positive
      _ ≤ number base (digits ++ more) * base + d := Nat.le_add_right _ d

/-- A number is below `first` with `count` zeros behind it exactly if it has too few digits, or
one more and a smaller one in front. -/
theorem number_lt_iff (large : 1 < base) (each : ∀ d ∈ digits, d < base) {first count : Nat}
    (some : 0 < first) (digit : first ≤ base) :
    number base digits < first * base ^ count ↔
      (significant digits).length ≤ count ∨
        (significant digits).length = count + 1 ∧ ∀ d ∈ (significant digits).head?, d < first := by
  rw [← number_significant]
  cases shape : significant digits with
  | nil =>
    have positive : 0 < first * base ^ count := Nat.mul_pos some (Nat.pow_pos (by omega))
    exact iff_of_true positive (.inl (Nat.zero_le count))
  | cons d rest =>
    have front : 0 < d := by
      have kept := List.head?_dropWhile_not (fun x => decide (x = 0)) digits
      rw [← significant, shape] at kept
      exact Nat.pos_of_ne_zero (by simpa using kept)
    have within : ∀ x ∈ d :: rest, x < base := by
      intro x listed
      have suffix := List.dropWhile_suffix (fun x => decide (x = 0)) (l := digits)
      rw [← significant, shape] at suffix
      exact each x (suffix.subset listed)
    obtain ⟨top, others⟩ := List.forall_mem_cons.mp within
    have below := number_lt_pow large others
    rw [number_cons, List.length_cons]
    rcases Nat.lt_trichotomy rest.length count with fewer | same | more
    · refine iff_of_true ?_ (.inl fewer)
      calc d * base ^ rest.length + number base rest
          < (d + 1) * base ^ rest.length := by rw [Nat.succ_mul]; omega
        _ ≤ base * base ^ rest.length := Nat.mul_le_mul_right _ top
        _ = base ^ (rest.length + 1) := (Nat.pow_succ').symm
        _ ≤ base ^ count := Nat.pow_le_pow_right (by omega) fewer
        _ ≤ first * base ^ count := Nat.le_mul_of_pos_left _ some
    · subst same
      constructor
      · intro less
        refine .inr ⟨rfl, fun x head => ?_⟩
        cases head
        by_contra reaches
        have most := Nat.mul_le_mul_right (base ^ rest.length) (Nat.le_of_not_lt reaches)
        omega
      · rintro (few | ⟨-, smaller⟩)
        · omega
        · have most := Nat.mul_le_mul_right (base ^ rest.length) (smaller d rfl)
          rw [Nat.succ_mul] at most
          omega
    · refine iff_of_false (Nat.not_lt.mpr ?_) (by omega)
      calc first * base ^ count ≤ base * base ^ count := Nat.mul_le_mul_right _ digit
        _ = base ^ (count + 1) := (Nat.pow_succ').symm
        _ ≤ base ^ rest.length := Nat.pow_le_pow_right (by omega) more
        _ ≤ d * base ^ rest.length := Nat.le_mul_of_pos_left _ front
        _ ≤ d * base ^ rest.length + number base rest := Nat.le_add_right _ _

end LogMonitor.Library.Digits
