import LogMonitor.Library.ByteString
import Mathlib.Algebra.Ring.Nat

/-!
Fixed-width little-endian numbers, and an input stream whose failures show only
in its state: a read that comes up short stores what there was, leaves the rest
of the destination as it was, and makes every later read do nothing.
-/

namespace LogMonitor.Library.BinaryStream
open ByteString

def encode : Nat → Nat → Bytes
  | 0, _ => []
  | width + 1, n => UInt8.ofNat n :: encode width (n / 256)

def decode : Bytes → Nat
  | [] => 0
  | byte :: bytes => byte.toNat + 256 * decode bytes

@[simp] theorem length_encode (width n : Nat) : (encode width n).length = width := by
  induction width generalizing n with
  | zero => rfl
  | succ width ih => rw [encode, List.length_cons, ih]

theorem decode_encode (width n : Nat) : decode (encode width n) = n % 256 ^ width := by
  induction width generalizing n with
  | zero => rw [encode, decode, pow_zero, Nat.mod_one]
  | succ width ih =>
    rw [encode, decode, ih, UInt8.toNat_ofNat', pow_succ' 256 width, Nat.mod_mul]

theorem decode_encode_of_lt {width n : Nat} (small : n < 256 ^ width) :
    decode (encode width n) = n := by
  rw [decode_encode, Nat.mod_eq_of_lt small]

theorem encode_decode (bytes : Bytes) : encode bytes.length (decode bytes) = bytes := by
  induction bytes with
  | nil => rfl
  | cons byte bytes ih =>
    have low : UInt8.ofNat (byte.toNat + 256 * decode bytes) = byte := by
      apply UInt8.toNat_inj.mp
      rw [UInt8.toNat_ofNat', Nat.add_mul_mod_self_left, Nat.mod_eq_of_lt byte.toNat_lt]
    have high : (byte.toNat + 256 * decode bytes) / 256 = decode bytes := by
      have := byte.toNat_lt
      omega
    rw [List.length_cons, decode, encode, low, high, ih]

theorem decode_lt (bytes : Bytes) : decode bytes < 256 ^ bytes.length := by
  rw [← encode_decode bytes, decode_encode, length_encode]
  exact Nat.mod_lt _ (Nat.pow_pos (by decide))

theorem decode_append (bytes more : Bytes) :
    decode (bytes ++ more) = decode bytes + 256 ^ bytes.length * decode more := by
  induction bytes with
  | nil => rw [List.nil_append, decode, List.length_nil, pow_zero, one_mul, zero_add]
  | cons byte bytes ih =>
    rw [List.cons_append, decode, ih, decode, List.length_cons, pow_succ' 256 bytes.length,
      mul_add, mul_assoc, add_assoc]

theorem encode_zero (width : Nat) : encode width 0 = List.replicate width 0 := by
  induction width with
  | zero => rfl
  | succ width ih =>
    rw [encode, Nat.zero_div, ih]
    rfl

theorem decode_zeros (n : Nat) : decode (List.replicate n 0) = 0 := by
  induction n with
  | zero => rfl
  | succ n ih =>
    rw [List.replicate_succ, decode, ih]
    rfl

structure InputStream where
  remaining : Bytes
  failed : Bool

namespace InputStream

/-- `in.read(destination, size)`, with the destination's bytes before and after. -/
def read (destination : Bytes) (input : InputStream) : Bytes × InputStream :=
  if input.failed then (destination, input)
  else
    (input.remaining.take destination.length ++ destination.drop input.remaining.length,
      ⟨input.remaining.drop destination.length, input.remaining.length < destination.length⟩)

/-- A read into the bytes of a number that held `initial`. -/
def readNumber (width initial : Nat) (input : InputStream) : Nat × InputStream :=
  let (bytes, input) := input.read (encode width initial)
  (decode bytes, input)

theorem read_failed {destination : Bytes} {input : InputStream} (failed : input.failed = true) :
    input.read destination = (destination, input) :=
  if_pos failed

theorem read_whole {destination bytes : Bytes} (rest : Bytes)
    (same : bytes.length = destination.length) :
    read destination ⟨bytes ++ rest, false⟩ = (bytes, ⟨rest, false⟩) := by
  have enough : destination.length ≤ (bytes ++ rest).length := by
    rw [List.length_append]
    omega
  unfold read
  rw [if_neg (by simp), List.drop_of_length_le enough, ← same, List.take_left, List.drop_left,
    List.append_nil]
  simp

theorem read_enough {destination bytes : Bytes} (enough : destination.length ≤ bytes.length) :
    read destination ⟨bytes, false⟩ =
      (bytes.take destination.length, ⟨bytes.drop destination.length, false⟩) := by
  have whole := read_whole (bytes.drop destination.length) (List.length_take_of_le enough)
  rwa [List.take_append_drop] at whole

theorem read_short {destination bytes : Bytes} (short : bytes.length < destination.length) :
    read destination ⟨bytes, false⟩ = (bytes ++ destination.drop bytes.length, ⟨[], true⟩) := by
  unfold read
  rw [if_neg (by simp), List.take_of_length_le short.le, List.drop_of_length_le short.le]
  simp [short]

theorem readNumber_failed {width initial : Nat} {input : InputStream} (failed : input.failed = true)
    (small : initial < 256 ^ width) : input.readNumber width initial = (initial, input) := by
  simp only [readNumber, read_failed failed, decode_encode_of_lt small]

theorem readNumber_whole {width initial : Nat} {bytes : Bytes} (rest : Bytes)
    (same : bytes.length = width) :
    readNumber width initial ⟨bytes ++ rest, false⟩ = (decode bytes, ⟨rest, false⟩) := by
  simp only [readNumber, read_whole rest (same.trans (length_encode width initial).symm)]

theorem readNumber_enough {width initial : Nat} {bytes : Bytes} (enough : width ≤ bytes.length) :
    readNumber width initial ⟨bytes, false⟩ =
      (decode (bytes.take width), ⟨bytes.drop width, false⟩) := by
  simp only [readNumber, read_enough (show (encode width initial).length ≤ bytes.length by simpa),
    length_encode]

/-- A number that is zero before the read gets the value of the bytes there are. -/
theorem readNumber_cut {width : Nat} {bytes : Bytes} (short : bytes.length < width) :
    readNumber width 0 ⟨bytes, false⟩ = (decode bytes, ⟨[], true⟩) := by
  have zeros : (encode width 0).drop bytes.length = List.replicate (width - bytes.length) 0 := by
    rw [encode_zero, List.drop_replicate]
  simp only [readNumber, read_short (show bytes.length < (encode width 0).length by simpa), zeros,
    decode_append, decode_zeros, mul_zero, add_zero]

theorem readNumber_short {width initial : Nat} {bytes : Bytes} (short : bytes.length < width) :
    readNumber width initial ⟨bytes, false⟩ =
      (decode (bytes ++ (encode width initial).drop bytes.length), ⟨[], true⟩) := by
  simp only [readNumber, read_short (show bytes.length < (encode width initial).length by simpa)]

end InputStream

end LogMonitor.Library.BinaryStream
