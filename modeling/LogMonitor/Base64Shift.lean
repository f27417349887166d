import LogMonitor.Library.Digits
import LogMonitor.Token

/-!
The shift of the decoding loop. The buffer is an `int` that is never masked, so
it holds all that was read, and `buf << 6` is defined only as long as that is
few digits.
-/

namespace LogMonitor.AuthManager
open Library Library.ByteString Library.Digits

/-- What C++17 asks for `buf << 6` of an `int`. -/
def ShiftDefined (buf : BitVec 32) : Prop := 0 ≤ buf.toInt ∧ buf.toInt * 64 < 2 ^ 32

instance (buf : BitVec 32) : Decidable (ShiftDefined buf) := inferInstanceAs (Decidable (_ ∧ _))

/-- The buffer before each character of the input, also before those that are passed over. -/
def BufferInRange (input : Bytes) : Prop :=
  ∀ before c after, input = before ++ c :: after →
    ShiftDefined (before.foldl Base64.step {}).buf

def ShiftsInRange (input : Bytes) : Prop :=
  ∀ before c after v, input = before ++ c :: after → base64Value c = some v →
    ShiftDefined (before.foldl Base64.step {}).buf

def sextets (input : Bytes) : List Nat := input.filterMap base64Value

/-- After leading zeros at most four digits, or five of which the first is below four. -/
def Narrow (digits : List Nat) : Prop :=
  (significant digits).length ≤ 4 ∨
    (significant digits).length = 5 ∧ ∀ d ∈ (significant digits).head?, d < 4

theorem base64Value_lt {c : UInt8} {v : Nat} (value : base64Value c = some v) : v < 64 := by
  unfold base64Value at value
  split at value
  next upper =>
    cases value
    have top : c.toNat ≤ 90 := UInt8.le_iff_toNat_le.mp upper.2
    omega
  split at value
  next lower =>
    cases value
    have top : c.toNat ≤ 122 := UInt8.le_iff_toNat_le.mp lower.2
    omega
  split at value
  next digit =>
    cases value
    have top : c.toNat ≤ 57 := UInt8.le_iff_toNat_le.mp digit.2
    omega
  split at value
  next => cases value; decide
  split at value
  next => cases value; decide
  next => cases value

theorem sextets_lt (input : Bytes) : ∀ v ∈ sextets input, v < 64 := by
  intro v listed
  obtain ⟨c, -, value⟩ := List.mem_filterMap.mp listed
  exact base64Value_lt value

theorem shiftLeft_or (n : Nat) {v : Nat} (small : v < 64) :
    BitVec.ofNat 32 n <<< 6 ||| BitVec.ofNat 32 v = BitVec.ofNat 32 (n * 64 + v) := by
  apply BitVec.eq_of_toNat_eq
  have shifted : (n % 2 ^ 32) <<< 6 % 2 ^ 32 = (n % 2 ^ 26) <<< 6 := by
    rw [Nat.shiftLeft_eq, Nat.shiftLeft_eq]
    omega
  have fits : v % 2 ^ 32 = v := Nat.mod_eq_of_lt (by omega)
  rw [BitVec.toNat_or, BitVec.toNat_shiftLeft, BitVec.toNat_ofNat, BitVec.toNat_ofNat,
    BitVec.toNat_ofNat, shifted, fits, ← Nat.shiftLeft_add_eq_or_of_lt small, Nat.shiftLeft_eq]
  omega

/-- The buffer holds every value that was read, modulo 2^32. -/
theorem buf_eq (input : Bytes) :
    (input.foldl Base64.step {}).buf = BitVec.ofNat 32 (number 64 (sextets input)) := by
  induction input using List.reverseRecOn with
  | nil => rfl
  | append_singleton input c ih =>
    rw [List.foldl_append, sextets, List.filterMap_append, ← sextets]
    generalize input.foldl Base64.step {} = d at ih
    rw [List.foldl_cons, List.foldl_nil, Base64.step]
    cases value : base64Value c with
    | none => simpa [value] using ih
    | some v =>
      have shift := shiftLeft_or (number 64 (sextets input)) (base64Value_lt value)
      rw [← ih, ← number_concat] at shift
      simp only [List.filterMap_cons, value, List.filterMap_nil]
      split
      next => exact shift
      next => exact shift

/-- As long as nothing has wrapped, the shift is defined for 26 bits. -/
theorem shiftDefined_iff {n : Nat} (fits : n < 2 ^ 32) :
    ShiftDefined (BitVec.ofNat 32 n) ↔ n < 2 ^ 26 := by
  rw [ShiftDefined, BitVec.toInt_eq_toNat_cond, BitVec.toNat_ofNat, Nat.mod_eq_of_lt fits]
  split <;> omega

/-- The first digit that makes the number too large does so before anything wraps. -/
theorem all_defined_iff {digits : List Nat} (each : ∀ v ∈ digits, v < 64) :
    (∀ read, read <+: digits → ShiftDefined (BitVec.ofNat 32 (number 64 read))) ↔
      number 64 digits < 2 ^ 26 := by
  constructor
  · intro defined
    induction digits using List.reverseRecOn with
    | nil => decide
    | append_singleton digits v ih =>
      have earlier : number 64 digits < 2 ^ 26 :=
        ih (fun u listed => each u (List.mem_append_left _ listed))
          fun read front => defined read (front.trans (List.prefix_append _ _))
      have last : v < 64 := each v (by simp)
      have fits : number 64 (digits ++ [v]) < 2 ^ 32 := by
        rw [number_concat]
        omega
      exact (shiftDefined_iff fits).mp (defined _ (List.prefix_refl _))
  · rintro small read ⟨more, rfl⟩
    have fewer := number_le_append (by decide : 0 < 64) read more
    exact (shiftDefined_iff (by omega)).mpr (by omega)

theorem narrow_iff {digits : List Nat} (each : ∀ v ∈ digits, v < 64) :
    Narrow digits ↔ number 64 digits < 2 ^ 26 := by
  have bound : 2 ^ 26 = 4 * 64 ^ 4 := by decide
  rw [bound, number_lt_iff (by decide) each (by decide) (by decide)]
  rfl

theorem proper_prefix_iff {α : Type} {list before : List α} :
    (∃ x after, list = before ++ x :: after) ↔ list ≠ [] ∧ before <+: list.dropLast := by
  constructor
  · rintro ⟨x, after, rfl⟩
    rw [List.dropLast_append_of_ne_nil (List.cons_ne_nil x after)]
    exact ⟨by simp, List.prefix_append _ _⟩
  · rintro ⟨filled, more, shape⟩
    obtain ⟨x, after, rest⟩ :=
      List.exists_cons_of_ne_nil (List.concat_ne_nil (list.getLast filled) more)
    refine ⟨x, after, ?_⟩
    rw [← rest, ← List.append_assoc, shape, List.dropLast_concat_getLast]

theorem defined_nil : ShiftDefined (BitVec.ofNat 32 (number 64 [])) := by decide

theorem bufferInRange_iff (input : Bytes) :
    BufferInRange input ↔ Narrow (sextets input.dropLast) := by
  rw [narrow_iff (sextets_lt _), ← all_defined_iff (sextets_lt _)]
  constructor
  · rintro inRange read ⟨more, shape⟩
    obtain ⟨before, rest, split, rfl, -⟩ := List.filterMap_eq_append_iff.mp shape.symm
    by_cases empty : input = []
    · rw [empty] at split
      obtain ⟨rfl, -⟩ := List.append_eq_nil_iff.mp split.symm
      exact defined_nil
    · obtain ⟨c, after, whole⟩ := proper_prefix_iff.mpr ⟨empty, rest, split.symm⟩
      have defined := inRange before c after whole
      rwa [buf_eq] at defined
  · intro defined before c after whole
    rw [buf_eq]
    exact defined _ ((proper_prefix_iff.mp ⟨c, after, whole⟩).2.filterMap _)

theorem shiftsInRange_iff (input : Bytes) :
    ShiftsInRange input ↔ Narrow (sextets input).dropLast := by
  have each : ∀ v ∈ (sextets input).dropLast, v < 64 :=
    fun v listed => sextets_lt input v (List.mem_of_mem_dropLast listed)
  rw [narrow_iff each, ← all_defined_iff each]
  constructor
  · intro inRange read front
    by_cases empty : sextets input = []
    · obtain rfl : read = [] := by
        rw [empty] at front
        exact List.prefix_nil.mp front
      exact defined_nil
    · obtain ⟨v, more, shape⟩ := proper_prefix_iff.mpr ⟨empty, front⟩
      obtain ⟨first, rest, rfl, rfl, behind⟩ := List.filterMap_eq_append_iff.mp shape
      obtain ⟨skipped, c, after, rfl, none, value, -⟩ := List.filterMap_eq_cons_iff.mp behind
      have defined := inRange (first ++ skipped) c after v (List.append_assoc ..).symm value
      have nothing : skipped.filterMap base64Value = [] := List.filterMap_eq_nil_iff.mpr none
      rwa [buf_eq, sextets, List.filterMap_append, nothing, List.append_nil] at defined
  · rintro defined before c after v rfl value
    rw [buf_eq]
    have shape : sextets (before ++ c :: after) = sextets before ++ v :: sextets after := by
      rw [sextets, List.filterMap_append, List.filterMap_cons, value]
      rfl
    exact defined _ (proper_prefix_iff.mp ⟨v, _, shape⟩).2

/-- The buffer stays in range before every character, and wherever it is shifted, exactly if what
is read before the last one is narrow. -/
theorem shift_in_range_iff (input : Bytes) :
    (BufferInRange input ↔ Narrow (sextets input.dropLast)) ∧
      (ShiftsInRange input ↔ Narrow (sextets input).dropLast) :=
  ⟨bufferInRange_iff input, shiftsInRange_iff input⟩

def emailPayload : Bytes := text "eyJlbWFpbCI6"

theorem emailPayload_shifted_out : ¬BufferInRange emailPayload ∧ ¬ShiftsInRange emailPayload := by
  have out : ¬ShiftDefined ((text "eyJlbW").foldl Base64.step {}).buf := by decide
  have shape : emailPayload = text "eyJlbW" ++ 70 :: text "pbCI6" := by decide
  exact ⟨fun inRange => out (inRange _ _ _ shape), fun inRange => out (inRange _ _ _ 5 shape rfl)⟩

/-! ### What the tokens hold -/

theorem toNat_packed (a b c : UInt8) :
    (packed a b c).toNat = a.toNat * 65536 + b.toNat * 256 + c.toNat := by
  have first : (a.toUInt32 <<< 16).toNat = a.toNat <<< 16 := by
    simp only [UInt32.toNat_shiftLeft, UInt8.toNat_toUInt32, UInt32.reduceToNat, Nat.reduceMod,
      Nat.shiftLeft_eq]
    have := a.toNat_lt
    omega
  have second : (b.toUInt32 <<< 8).toNat = b.toNat <<< 8 := by
    simp only [UInt32.toNat_shiftLeft, UInt8.toNat_toUInt32, UInt32.reduceToNat, Nat.reduceMod,
      Nat.shiftLeft_eq]
    have := b.toNat_lt
    omega
  have upper : a.toNat <<< 16 ||| b.toNat <<< 8 = (a.toNat <<< 8 + b.toNat) <<< 8 := by
    rw [Nat.shiftLeft_add_eq_or_of_lt b.toNat_lt, Nat.shiftLeft_or_distrib, ← Nat.shiftLeft_add]
  rw [packed, UInt32.toNat_or, UInt32.toNat_or, first, second, UInt8.toNat_toUInt32, upper,
    ← Nat.shiftLeft_add_eq_or_of_lt c.toNat_lt, Nat.shiftLeft_eq, Nat.shiftLeft_eq]
  omega

theorem first_sextet (a b c : UInt8) :
    ((packed a b c >>> 18) &&& 0x3F).toNat = a.toNat / 4 := by
  have first := a.toNat_lt
  have second := b.toNat_lt
  have third := c.toNat_lt
  have mask : (0x3F : UInt32).toNat = 2 ^ 6 - 1 := rfl
  have shift : (18 : UInt32).toNat % 32 = 18 := rfl
  rw [UInt32.toNat_and, mask, Nat.and_two_pow_sub_one_eq_mod, UInt32.toNat_shiftRight, shift,
    toNat_packed, Nat.shiftRight_eq_div_pow]
  omega

theorem length_sextets_encode (data : Bytes) :
    (sextets (base64urlEncode data)).length = (base64urlEncode data).length := by
  have valued : ∀ c ∈ base64Chars, (base64Value c).isSome := by decide +kernel
  exact List.filterMap_length_eq_length.mpr fun c written => valued c (base64urlEncode_mem written)

theorem encoded_out_of_range {a : UInt8} {rest : Bytes} (shown : 16 ≤ a) (long : 3 ≤ rest.length) :
    ¬ShiftsInRange (base64urlEncode (a :: rest)) := by
  obtain ⟨a₁, a₂, more, rfl⟩ : ∃ a₁ a₂ more, rest = a₁ :: a₂ :: more := by
    match rest, long with
    | a₁ :: a₂ :: more, _ => exact ⟨a₁, a₂, more, rfl⟩
  have first : 4 ≤ a.toNat / 4 := by
    have low : 16 ≤ a.toNat := UInt8.le_iff_toNat_le.mp shown
    omega
  obtain ⟨others, shape⟩ : ∃ others, sextets (base64urlEncode (a :: a₁ :: a₂ :: more)) =
      a.toNat / 4 :: others := by
    rw [base64urlEncode, sextets, List.filterMap_cons, base64Value_char, first_sextet]
    exact ⟨_, rfl⟩
  have count := length_sextets_encode (a :: a₁ :: a₂ :: more)
  rw [length_base64urlEncode, Nat.ceilDiv_eq_add_pred_div, shape] at count
  simp only [List.length_cons] at count long
  have some : others ≠ [] := by
    rintro rfl
    rw [List.length_nil] at count
    omega
  rw [shiftsInRange_iff, shape, List.dropLast_cons_of_ne_nil some, Narrow,
    significant_cons (by omega), List.length_cons, List.length_dropLast]
  rintro (few | ⟨-, small⟩)
  · omega
  · exact absurd (small _ rfl) (Nat.not_lt.mpr first)

/-- The payload of every token of `create_token` is such a text, as a JSON object begins with its
brace; `verify_token` decodes none of them in range. -/
theorem createToken_out_of_range {jwt : Jwt} {dump : Json → Option Bytes}
    {userId email token rest : Bytes} {now : Int64} {jti : Vector UInt8 16}
    (written : dump (payload ⟨userId, email, now, now + tokenExpirySeconds, randomHex jti⟩) =
      some (123 :: rest)) (long : 3 ≤ rest.length)
    (made : createToken jwt dump userId email now (some jti) = .returned token) :
    ∃ header body signature, splitToken token = some (header, body, signature) ∧
      ¬ShiftsInRange body :=
  ⟨_, _, _, splitToken_createToken written made, encoded_out_of_range (by decide) long⟩

end LogMonitor.AuthManager
