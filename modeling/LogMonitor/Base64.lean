import LogMonitor.Library.ByteString
import Mathlib.Algebra.Order.Floor.Div
import Mathlib.Data.List.GetD
import Mathlib.GroupTheory.GroupAction.Ring

/-!
The base64url coding of the tokens. The encoder writes no padding; the decoder
reads both alphabets, passes over every other character and shifts six bits at
a time into an `int`.
-/

namespace LogMonitor.AuthManager
open Library.ByteString

def base64Chars : Bytes :=
  text "ABCDEFGHIJKLMNOPQRSTUVWXYZabcdefghijklmnopqrstuvwxyz0123456789-_"

/-- Up to three bytes in one word; what is missing is zero. -/
def packed (a b c : UInt8) : UInt32 := a.toUInt32 <<< 16 ||| b.toUInt32 <<< 8 ||| c.toUInt32

def base64Char (word shift : UInt32) : UInt8 :=
  base64Chars.getD ((word >>> shift) &&& 0x3F).toNat 0

def base64urlEncode : Bytes → Bytes
  | [] => []
  | [a] =>
    let b := packed a 0 0
    [base64Char b 18, base64Char b 12]
  | [a, a₁] =>
    let b := packed a a₁ 0
    [base64Char b 18, base64Char b 12, base64Char b 6]
  | a :: a₁ :: a₂ :: rest =>
    let b := packed a a₁ a₂
    base64Char b 18 :: base64Char b 12 :: base64Char b 6 :: base64Char b 0 :: base64urlEncode rest

def base64Value (c : UInt8) : Option Nat :=
  if 65 ≤ c ∧ c ≤ 90 then some (c.toNat - 65)
  else if 97 ≤ c ∧ c ≤ 122 then some (c.toNat - 97 + 26)
  else if 48 ≤ c ∧ c ≤ 57 then some (c.toNat - 48 + 52)
  else if c = 45 ∨ c = 43 then some 62
  else if c = 95 ∨ c = 47 then some 63
  else none

/-- The variables of the decoding loop; `buf` is an `int`. -/
structure Base64 where
  out : Bytes := []
  buf : BitVec 32 := 0
  bits : Nat := 0

def Base64.step (d : Base64) (c : UInt8) : Base64 :=
  match base64Value c with
  -- a character of no alphabet is passed over
  | none => d
  | some v =>
    let buf := d.buf <<< 6 ||| BitVec.ofNat 32 v
    let bits := d.bits + 6
    if 8 ≤ bits then
      ⟨d.out ++ [UInt8.ofBitVec ((buf.sshiftRight (bits - 8)).setWidth 8)], buf, bits - 8⟩
    else ⟨d.out, buf, bits⟩

def base64urlDecode (input : Bytes) : Bytes := (input.foldl Base64.step {}).out

theorem length_base64Chars : base64Chars.length = 64 := by decide +kernel

theorem base64Value_chars : ∀ v < 64, base64Value (base64Chars.getD v 0) = some v := by
  decide +kernel

theorem sextet_lt (word shift : UInt32) : ((word >>> shift) &&& 0x3F).toNat < 64 := by
  rw [UInt32.toNat_and]
  exact Nat.lt_succ_of_le Nat.and_le_right

theorem base64Value_char (word shift : UInt32) :
    base64Value (base64Char word shift) = some ((word >>> shift) &&& 0x3F).toNat :=
  base64Value_chars _ (sextet_lt word shift)

theorem base64Char_mem (word shift : UInt32) : base64Char word shift ∈ base64Chars := by
  have inside : ((word >>> shift) &&& 0x3F).toNat < base64Chars.length := by
    rw [length_base64Chars]
    exact sextet_lt word shift
  rw [base64Char, List.getD_eq_getElem _ _ inside]
  exact List.getElem_mem inside

theorem base64urlEncode_mem {data : Bytes} {c : UInt8} (written : c ∈ base64urlEncode data) :
    c ∈ base64Chars := by
  induction data using base64urlEncode.induct with
  | case1 => simp [base64urlEncode] at written
  | case2 a =>
    simp only [base64urlEncode, List.mem_cons, List.not_mem_nil, or_false] at written
    rcases written with rfl | rfl <;> exact base64Char_mem _ _
  | case3 a a₁ =>
    simp only [base64urlEncode, List.mem_cons, List.not_mem_nil, or_false] at written
    rcases written with rfl | rfl | rfl <;> exact base64Char_mem _ _
  | case4 a a₁ a₂ rest ih =>
    simp only [base64urlEncode, List.mem_cons] at written
    rcases written with rfl | rfl | rfl | rfl | later
    · exact base64Char_mem _ _
    · exact base64Char_mem _ _
    · exact base64Char_mem _ _
    · exact base64Char_mem _ _
    · exact ih later

/-- `buf << 6 | v` for the character with the six bits of a word above `shift`. -/
def shiftIn (buf : BitVec 32) (word shift : UInt32) : BitVec 32 :=
  buf <<< 6 ||| ((word >>> shift) &&& 0x3F).toBitVec

def pushed (buf : BitVec 32) (bits : Nat) : UInt8 :=
  UInt8.ofBitVec ((buf.sshiftRight bits).setWidth 8)

theorem step_char (d : Base64) (word shift : UInt32) :
    d.step (base64Char word shift) =
      let buf := shiftIn d.buf word shift
      if 8 ≤ d.bits + 6 then ⟨d.out ++ [pushed buf (d.bits + 6 - 8)], buf, d.bits + 6 - 8⟩
      else ⟨d.out, buf, d.bits + 6⟩ := by
  have value : BitVec.ofNat 32 ((word >>> shift) &&& 0x3F).toNat =
      ((word >>> shift) &&& 0x3F).toBitVec := by
    rw [← UInt32.toNat_toBitVec, BitVec.ofNat_toNat, BitVec.setWidth_eq]
  simp only [Base64.step, base64Value_char, value, shiftIn, pushed]

/-- A shift puts six bits of the word below those of the buffer. -/
theorem getLsbD_shiftIn (buf : BitVec 32) (word : UInt32) {shift : UInt32} (small : shift < 32)
    {i : Nat} (inside : i < 32) :
    (shiftIn buf word shift).getLsbD i =
      if i < 6 then word.toBitVec.getLsbD (shift.toNat + i) else buf.getLsbD (i - 6) := by
  have reduced : shift.toNat % 32 = shift.toNat := Nat.mod_eq_of_lt small
  have masks : ∀ i < 32, (63#32).getLsbD i = decide (i < 6) := by decide
  simp only [shiftIn, UInt32.toBitVec_and, UInt32.toBitVec_shiftRight, UInt32.toBitVec_ofNat,
    BitVec.getLsbD_or, BitVec.getLsbD_and, masks i inside]
  by_cases low : i < 6
  · simp [low, reduced]
  · have within : i - 6 < 32 := by omega
    simp [low, inside, BitVec.getLsbD_eq_getElem within]

/-- Two characters of one word leave twelve bits of it at the end of the buffer, and the byte
that is pushed is taken from these. -/
theorem getLsbD_pushed (buf : BitVec 32) (word : UInt32) {shift next : UInt32} {bits i : Nat}
    (small : shift < 32) (later : shift.toNat = next.toNat + 6) (few : bits ≤ 4) (inside : i < 8) :
    (pushed (shiftIn (shiftIn buf word shift) word next) bits).toBitVec.getLsbD i =
      word.toBitVec.getLsbD (next.toNat + bits + i) := by
  have bound : next < 32 := by
    rw [UInt32.lt_iff_toNat_lt] at small ⊢
    omega
  have inBuffer : bits + i < 32 := by omega
  have inByte : ¬32 ≤ i := by omega
  simp only [pushed, UInt8.toBitVec_ofBitVec, BitVec.getLsbD_setWidth, BitVec.getLsbD_sshiftRight,
    inside, inByte, inBuffer, decide_true, decide_false, Bool.not_false, Bool.true_and, if_true,
    getLsbD_shiftIn _ word bound inBuffer]
  split
  · rw [Nat.add_assoc]
  · rw [getLsbD_shiftIn _ word small (by omega), if_pos (by omega), later]
    congr 1
    omega

theorem pushed_eq (buf : BitVec 32) {word shift next : UInt32} {bits : Nat} {c : UInt8}
    (small : shift < 32) (later : shift.toNat = next.toNat + 6) (few : bits ≤ 4)
    (same : ∀ i < 8, word.toBitVec.getLsbD (next.toNat + bits + i) = c.toBitVec.getLsbD i) :
    pushed (shiftIn (shiftIn buf word shift) word next) bits = c := by
  apply UInt8.eq_of_toBitVec_eq
  ext i inside
  rw [← BitVec.getLsbD_eq_getElem, ← BitVec.getLsbD_eq_getElem,
    getLsbD_pushed buf word small later few inside]
  exact same i inside

theorem pushed_first (buf : BitVec 32) (a b c : UInt8) :
    pushed (shiftIn (shiftIn buf (packed a b c) 18) (packed a b c) 12) 4 = a := by
  refine pushed_eq buf (by decide) rfl (by decide) fun i inside => ?_
  have inWord : 16 + i < 32 := by omega
  have above : 16 + i - 8 = 8 + i := by omega
  have beyond (x : UInt8) (j : Nat) : x.toBitVec.getLsbD (16 + j) = false :=
    BitVec.getLsbD_of_ge _ _ (by omega)
  simp [packed, inside, inWord, above, beyond]

theorem pushed_second (buf : BitVec 32) (a b c : UInt8) :
    pushed (shiftIn (shiftIn buf (packed a b c) 12) (packed a b c) 6) 2 = b := by
  refine pushed_eq buf (by decide) rfl (by decide) fun i inside => ?_
  have inWord : 8 + i < 32 := by omega
  have below : 8 + i < 16 := by omega
  simp [packed, inside, inWord, below]

theorem pushed_third (buf : BitVec 32) (a b c : UInt8) :
    pushed (shiftIn (shiftIn buf (packed a b c) 6) (packed a b c) 0) 0 = c := by
  refine pushed_eq buf (by decide) rfl (by decide) fun i inside => ?_
  have inWord : i < 32 := by omega
  have below : i < 16 := by omega
  simp [packed, inside, inWord, below]

/-- Whatever is left in the buffer, an aligned decoder appends what was encoded. -/
theorem foldl_step_base64urlEncode (data out : Bytes) (buf : BitVec 32) :
    ((base64urlEncode data).foldl Base64.step ⟨out, buf, 0⟩).out = out ++ data := by
  induction data using base64urlEncode.induct generalizing out buf with
  | case1 => simp [base64urlEncode]
  | case2 a => simp [base64urlEncode, step_char, pushed_first]
  | case3 a a₁ => simp [base64urlEncode, step_char, pushed_first, pushed_second]
  | case4 a a₁ a₂ rest ih =>
    simp [base64urlEncode, step_char, pushed_first, pushed_second, pushed_third, ih]

theorem decode_encode (data : Bytes) : base64urlDecode (base64urlEncode data) = data := by
  rw [base64urlDecode, foldl_step_base64urlEncode, List.nil_append]

def UrlSafe (c : UInt8) : Prop :=
  (65 ≤ c ∧ c ≤ 90) ∨ (97 ≤ c ∧ c ≤ 122) ∨ (48 ≤ c ∧ c ≤ 57) ∨ c = 45 ∨ c = 95

instance (c : UInt8) : Decidable (UrlSafe c) := inferInstanceAs (Decidable (_ ∨ _))

theorem urlSafe_chars : ∀ c ∈ base64Chars, UrlSafe c := by decide +kernel

theorem length_base64urlEncode (data : Bytes) :
    (base64urlEncode data).length = (4 * data.length) ⌈/⌉ 3 := by
  rw [Nat.ceilDiv_eq_add_pred_div]
  induction data using base64urlEncode.induct with
  | case1 => simp [base64urlEncode]
  | case2 a => simp [base64urlEncode]
  | case3 a a₁ => simp [base64urlEncode]
  | case4 a a₁ a₂ rest ih =>
    simp only [base64urlEncode, List.length_cons, ih]
    omega

/-- The encoding is URL-safe, has no padding, and is undone by the decoder. -/
theorem base64url_round_trip :
    Function.Injective base64urlEncode ∧ ∀ data : Bytes,
      (∀ c ∈ base64urlEncode data, UrlSafe c) ∧
      (base64urlEncode data).length = (4 * data.length) ⌈/⌉ 3 ∧
      base64urlDecode (base64urlEncode data) = data :=
  ⟨Function.LeftInverse.injective decode_encode, fun data =>
    ⟨fun c written => urlSafe_chars c (base64urlEncode_mem written), length_base64urlEncode data,
      decode_encode data⟩⟩

example : base64urlEncode (text "lm?") = text "bG0_" := by decide

example : base64urlDecode (text "bG0_\n") = text "lm?" := by decide

end LogMonitor.AuthManager
