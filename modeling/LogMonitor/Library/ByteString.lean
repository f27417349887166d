import Mathlib.Algebra.Group.Int.Defs
import Mathlib.Algebra.Group.Nat.Defs
import Mathlib.Data.List.Infix

/-!
Byte strings with the search and slicing operations of `std::string`. Searching
is generic in the alphabet; positions are natural numbers and a search that
finds nothing returns `none`, with `npos` its value as a 64-bit size.
-/

namespace LogMonitor.Library.ByteString

abbrev Bytes := List UInt8

-- What every test of a byte string's membership looks up, under a name of its own.
instance : LawfulBEq Bytes := inferInstance

/-- The bytes of an ASCII literal. -/
def text (literal : String) : Bytes := literal.toList.map (fun c => UInt8.ofNat c.toNat)

def npos : Nat := 2 ^ 64 - 1

section Search

variable {α : Type} [DecidableEq α]

def scan (needle : List α) : List α → Nat → Option Nat
  | [], pos => if needle <+: [] then some pos else none
  | c :: rest, pos => if needle <+: c :: rest then some pos else scan needle rest (pos + 1)

/-- `s.find(needle, start)`. -/
def find (needle s : List α) (start : Nat) : Option Nat :=
  if start ≤ s.length then scan needle (s.drop start) start else none

theorem scan_some {needle s : List α} {base pos : Nat} (found : scan needle s base = some pos) :
    base ≤ pos ∧ pos ≤ base + s.length ∧ needle <+: s.drop (pos - base) ∧
      ∀ q, base ≤ q → q < pos → ¬needle <+: s.drop (q - base) := by
  induction s generalizing base with
  | nil =>
    simp only [scan, Option.ite_none_right_eq_some, Option.some.injEq] at found
    obtain ⟨matching, rfl⟩ := found
    exact ⟨le_rfl, by simp, by simpa using matching, fun q low high => by omega⟩
  | cons c rest ih =>
    rw [scan] at found
    split at found
    next matching =>
      obtain rfl := Option.some.inj found
      exact ⟨le_rfl, by simp, by simpa using matching, fun q low high => by omega⟩
    next mismatch =>
      obtain ⟨low, high, matching, first⟩ := ih found
      have shift : pos - base = pos - (base + 1) + 1 := by omega
      refine ⟨by omega, by simp only [List.length_cons]; omega, by rwa [shift], ?_⟩
      intro q above below
      rcases Nat.eq_or_lt_of_le above with rfl | later
      · simpa using mismatch
      · have shift : q - base = q - (base + 1) + 1 := by omega
        rw [shift]
        exact first q later below

/-- A search finds the first occurrence at or after `start`. -/
theorem find_some {needle s : List α} {start pos : Nat} (found : find needle s start = some pos) :
    start ≤ pos ∧ needle <+: s.drop pos ∧ pos + needle.length ≤ s.length ∧
      ∀ q, start ≤ q → q < pos → ¬needle <+: s.drop q := by
  unfold find at found
  split at found
  next inside =>
    obtain ⟨low, high, matching, first⟩ := scan_some found
    rw [List.drop_drop, Nat.add_sub_cancel' low] at matching
    rw [List.length_drop] at high
    have fits := matching.length_le
    rw [List.length_drop] at fits
    refine ⟨low, matching, by omega, ?_⟩
    intro q above below
    have mismatch := first q above below
    rwa [List.drop_drop, Nat.add_sub_cancel' above] at mismatch
  next => simp at found

/-- A search passes over what does not have the first character. -/
theorem scan_append {c : α} {before : List α} (absent : c ∉ before) (needle rest : List α)
    (base : Nat) :
    scan (c :: needle) (before ++ rest) base = scan (c :: needle) rest (base + before.length) := by
  induction before generalizing base with
  | nil => rfl
  | cons x before ih =>
    have mismatch : ¬c :: needle <+: x :: (before ++ rest) := by
      intro same
      exact List.ne_of_not_mem_cons absent (List.cons_prefix_cons.mp same).1
    rw [List.cons_append, scan, if_neg mismatch, ih (List.not_mem_of_not_mem_cons absent),
      List.length_cons]
    congr 1
    omega

theorem scan_none {needle s : List α} {base : Nat} (absent : scan needle s base = none) (q : Nat) :
    ¬needle <+: s.drop q := by
  induction s generalizing base q with
  | nil =>
    rw [List.drop_nil]
    simpa [scan] using absent
  | cons c rest ih =>
    rw [scan] at absent
    split at absent
    · exact nomatch absent
    · next mismatch =>
      cases q with
      | zero => exact mismatch
      | succ q => exact ih absent q

theorem scan_base (needle s : List α) (base : Nat) :
    scan needle s base = (scan needle s 0).map (· + base) := by
  induction s generalizing base with
  | nil => unfold scan; split <;> simp
  | cons c rest ih =>
    rw [scan, scan]
    split
    · simp
    · rw [ih, ih 1, Option.map_map]
      congr 1
      funext pos
      simp only [Function.comp_apply]
      omega

theorem scan_single {c : α} {before : List α} (absent : c ∉ before) (after : List α) (base : Nat) :
    scan [c] (before ++ c :: after) base = some (base + before.length) := by
  rw [scan_append absent, scan]
  exact if_pos (List.prefix_append [c] after)

/-- A search for one character, past what comes before the start. -/
theorem find_single {c : α} {before : List α} (absent : c ∉ before) (prior after : List α) :
    find [c] (prior ++ (before ++ c :: after)) prior.length =
      some (prior.length + before.length) := by
  rw [find, if_pos (by simp), List.drop_left, scan_single absent]

theorem find_zero (needle s : List α) :
    (∀ pos, find needle s 0 = some pos ↔
      needle <+: s.drop pos ∧ pos ≤ s.length ∧ ∀ q < pos, ¬needle <+: s.drop q) ∧
    (find needle s 0 = none ↔ ∀ q, ¬needle <+: s.drop q) := by
  cases found : find needle s 0 with
  | none =>
    rw [find, if_pos (Nat.zero_le _), List.drop_zero] at found
    exact ⟨fun pos => ⟨nofun, fun here => absurd here.1 (scan_none found pos)⟩,
      fun _ => scan_none found, fun _ => rfl⟩
  | some first =>
    obtain ⟨-, here, inside, before⟩ := find_some found
    refine ⟨fun pos => ⟨?_, ?_⟩, nofun, fun none => absurd here (none first)⟩
    · rintro ⟨⟩
      exact ⟨here, by omega, fun q below => before q (Nat.zero_le q) below⟩
    · rintro ⟨there, -, earlier⟩
      rcases Nat.lt_trichotomy first pos with low | same | high
      · exact absurd here (earlier first low)
      · rw [same]
      · exact absurd there (before pos (Nat.zero_le pos) high)

theorem find_single_some {c : α} {s : List α} {start pos : Nat} (found : find [c] s start = some pos) :
    start ≤ pos ∧ s.drop start = (s.drop start).take (pos - start) ++ c :: s.drop (pos + 1) ∧
      c ∉ (s.drop start).take (pos - start) := by
  obtain ⟨low, matching, -, first⟩ := find_some found
  have tail : s.drop pos = c :: s.drop (pos + 1) := by
    obtain ⟨rest, shape⟩ := matching
    rw [← List.drop_drop, ← shape]
    rfl
  have whole : (s.drop start).drop (pos - start) = c :: s.drop (pos + 1) := by
    rw [List.drop_drop, Nat.add_sub_cancel' low, tail]
  refine ⟨low, by rw [← whole, List.take_append_drop], ?_⟩
  intro member
  obtain ⟨i, inside, here⟩ := List.getElem_of_mem member
  rw [List.getElem_take, List.getElem_drop] at here
  rw [List.length_take, List.length_drop] at inside
  have prefixed : [c] <+: s.drop (start + i) := by
    have within : start + i < s.length := by omega
    rw [← List.cons_getElem_drop_succ (h := within), here]
    exact List.prefix_append [c] _
  exact first (start + i) (by omega) (by omega) prefixed

theorem find_single_none {c : α} {s : List α} {start : Nat} (absent : c ∉ s.drop start) :
    find [c] s start = none := by
  cases found : find [c] s start with
  | none => rfl
  | some pos =>
    obtain ⟨-, cut, -⟩ := find_single_some found
    exact absurd (cut ▸ List.mem_append_right _ (List.mem_cons_self ..)) absent

theorem find_single_eq_none_iff {c : α} {s : List α} {start : Nat} (inside : start ≤ s.length) :
    find [c] s start = none ↔ c ∉ s.drop start := by
  refine ⟨fun absent member => ?_, find_single_none⟩
  obtain ⟨before, after, shape, fresh⟩ := List.eq_append_cons_of_mem member
  have found := find_single fresh (s.take start) after
  rw [← shape, List.take_append_drop, List.length_take, Nat.min_eq_left inside] at found
  exact nomatch absent.symm.trans found

theorem count_of_find_single {c : α} {s : List α} {start pos : Nat}
    (found : find [c] s start = some pos) :
    (s.drop start).count c = (s.drop (pos + 1)).count c + 1 := by
  obtain ⟨-, cut, before⟩ := find_single_some found
  rw [cut, List.count_append, List.count_eq_zero_of_not_mem before, List.count_cons_self,
    Nat.zero_add]

end Search

inductive Exception where
  | outOfRange
  | invalidArgument
deriving DecidableEq, Repr

/-- `s.substr(pos, len)`: the start is checked, the length is clipped. -/
def substr (s : Bytes) (pos len : Nat) : Except Exception Bytes :=
  if s.length < pos then .error .outOfRange else .ok ((s.drop pos).take len)

theorem substr_ok {s : Bytes} {pos : Nat} (inside : pos ≤ s.length) (len : Nat) :
    substr s pos len = .ok ((s.drop pos).take len) :=
  if_neg (by omega)

theorem substr_error {s : Bytes} {pos : Nat} (outside : s.length < pos) (len : Nat) :
    substr s pos len = .error .outOfRange :=
  if_pos outside

/-- `s.substr(pos)`. -/
def substrFrom (s : Bytes) (pos : Nat) : Except Exception Bytes :=
  if s.length < pos then .error .outOfRange else .ok (s.drop pos)

theorem substrFrom_ok {s : Bytes} {pos : Nat} (inside : pos ≤ s.length) :
    substrFrom s pos = .ok (s.drop pos) :=
  if_neg (by omega)

theorem substrFrom_eq {s rest : Bytes} {pos : Nat} (ok : substrFrom s pos = .ok rest) :
    rest = s.drop pos := by
  unfold substrFrom at ok
  split at ok
  next => simp at ok
  next => exact (Except.ok.inj ok).symm

/-- The difference of two sizes, which wraps. -/
def sizeSub (a b : Nat) : Nat := (a + (2 ^ 64 - b % 2 ^ 64)) % 2 ^ 64

theorem sizeSub_of_le {a b : Nat} (small : a < 2 ^ 64) (ordered : b ≤ a) : sizeSub a b = a - b := by
  unfold sizeSub
  omega

/-- `tolower` in the C locale. -/
def toLower (c : UInt8) : UInt8 := if 65 ≤ c ∧ c ≤ 90 then c + 32 else c

/-- `isspace` in the C locale. -/
def isSpace (c : UInt8) : Bool := c = 32 || (9 ≤ c && c ≤ 13)

def isDigit (c : UInt8) : Bool := 48 ≤ c && c ≤ 57

def decimal (digits : Bytes) : Nat :=
  digits.foldl (fun value c => value * 10 + (c.toNat - 48)) 0

/-- `std::stoull(s)`: leading space, an optional sign, and as many digits as there are;
a negative number is taken modulo 2^64. -/
def stoull (s : Bytes) : Except Exception Nat :=
  let trimmed := s.dropWhile isSpace
  let negative := trimmed.head? = some 45
  let unsigned := if negative || trimmed.head? = some 43 then trimmed.tail else trimmed
  let digits := unsigned.takeWhile isDigit
  if digits = [] then .error .invalidArgument
  else if 2 ^ 64 ≤ decimal digits then .error .outOfRange
  else .ok (if negative then (2 ^ 64 - decimal digits) % 2 ^ 64 else decimal digits)

/-- `std::stoi(s)`: like `std::stoull`, for an `int`. -/
def stoi (s : Bytes) : Except Exception Int32 :=
  let trimmed := s.dropWhile isSpace
  let negative := trimmed.head? = some 45
  let unsigned := if negative || trimmed.head? = some 43 then trimmed.tail else trimmed
  let digits := unsigned.takeWhile isDigit
  let value : Int := if negative then -decimal digits else decimal digits
  if digits = [] then .error .invalidArgument
  else if value < -2 ^ 31 ∨ 2 ^ 31 ≤ value then .error .outOfRange
  else .ok (Int32.ofInt value)

section Digits

theorem toList_toString (n : Nat) :
    text (toString n) = (Nat.toDigits 10 n).map fun c => UInt8.ofNat c.toNat := by
  rw [text, Nat.toString_eq_repr, Nat.toList_repr]

theorem digit_toNat {n : Nat} {c : Char} (digit : c ∈ Nat.toDigits 10 n) :
    (UInt8.ofNat c.toNat).toNat = c.toNat ∧ 48 ≤ c.toNat ∧ c.toNat ≤ 57 := by
  have bounds := Nat.isDigit_of_mem_toDigits (by decide) (by decide) digit
  simp only [Char.isDigit, Bool.and_eq_true, decide_eq_true_eq] at bounds
  have low : 48 ≤ c.toNat := UInt32.le_iff_toNat_le.mp bounds.1
  have high : c.toNat ≤ 57 := UInt32.le_iff_toNat_le.mp bounds.2
  exact ⟨UInt8.toNat_ofNat_of_lt' (lt_of_le_of_lt high (by decide)), low, high⟩

theorem isDigit_of_mem_toString {n : Nat} {c : UInt8} (listed : c ∈ text (toString n)) :
    isDigit c := by
  rw [toList_toString] at listed
  obtain ⟨digit, member, rfl⟩ := List.mem_map.mp listed
  obtain ⟨same, low, high⟩ := digit_toNat member
  simp only [isDigit, Bool.and_eq_true, decide_eq_true_eq, UInt8.le_iff_toNat_le, same]
  exact ⟨low, high⟩

theorem toString_ne_nil (n : Nat) : text (toString n) ≠ [] := by
  rw [toList_toString]
  simp

theorem decimal_toString (n : Nat) : decimal (text (toString n)) = n := by
  have read : decimal (text (toString n)) = Nat.ofDigitChars 10 (Nat.toDigits 10 n) 0 := by
    rw [toList_toString, decimal, List.foldl_map, Nat.ofDigitChars_eq_foldl]
    refine List.foldl_ext _ _ _ fun value c digit => ?_
    rw [(digit_toNat digit).1, Nat.mul_comm]
    rfl
  rw [read, Nat.ofDigitChars_ten_toDigits]

end Digits

example : find (text "b") (text "abab") 2 = some 3 := by decide

example : stoull (text " 42\r\n") = .ok 42 := by decide

section Encoding

def Utf8 (bytes : Bytes) : Prop := (ByteArray.mk bytes.toArray).IsValidUTF8

instance (bytes : Bytes) : Decidable (Utf8 bytes) :=
  inferInstanceAs (Decidable (ByteArray.IsValidUTF8 _))

theorem Utf8.append {first second : Bytes} (one : Utf8 first) (two : Utf8 second) :
    Utf8 (first ++ second) := by
  have both := ByteArray.IsValidUTF8.append one two
  have joined : ByteArray.mk first.toArray ++ ByteArray.mk second.toArray =
      ByteArray.mk (first ++ second).toArray := by
    apply ByteArray.ext
    rw [ByteArray.data_append, List.append_toArray]
  rwa [joined] at both

/-- ASCII text is UTF-8. -/
theorem utf8_ascii {bytes : Bytes} (ascii : ∀ c ∈ bytes, c < 128) : Utf8 bytes := by
  have small : ∀ n < 128, Utf8 [UInt8.ofNat n] := by decide +kernel
  have one (c : UInt8) (less : c < 128) : Utf8 [c] := by
    have same : UInt8.ofNat c.toNat = c := UInt8.ofNat_toNat
    rw [← same]
    exact small c.toNat (UInt8.lt_iff_toNat_lt.mp less)
  induction bytes with
  | nil => decide
  | cons c rest ih =>
    have first := one c (ascii c (List.mem_cons_self ..))
    exact first.append (ih fun other inside => ascii other (List.mem_cons_of_mem _ inside))

theorem utf8_toString (n : Nat) : Utf8 (text (toString n)) := by
  apply utf8_ascii
  intro c listed
  have digit := isDigit_of_mem_toString listed
  simp only [isDigit, Bool.and_eq_true, decide_eq_true_eq, UInt8.le_iff_toNat_le] at digit
  rw [UInt8.lt_iff_toNat_lt]
  exact Nat.lt_of_le_of_lt digit.2 (by decide)

theorem utf8_toString_int (value : Int) : Utf8 (text (toString value)) := by
  cases value with
  | ofNat n => exact utf8_toString n
  | negSucc n =>
    have minus : Utf8 (text "-") := by decide +kernel
    have split : text (toString (Int.negSucc n)) = text "-" ++ text (toString (n + 1)) := by
      change text ("-" ++ toString (n + 1)) = _
      simp [text]
    rw [split]
    exact minus.append (utf8_toString (n + 1))

end Encoding

end LogMonitor.Library.ByteString
