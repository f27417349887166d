import LogMonitor.Library.ByteString

/-!
The random identifiers of the account stores. What `RAND_bytes` yields is an
input of each call; when it fails, `random_hex` throws.
-/

namespace LogMonitor.AuthManager
open Library.ByteString

def hexDigit (n : Nat) : UInt8 := (text "0123456789abcdef").getD n 48

def bytesToHex (data : Bytes) : Bytes :=
  data.flatMap fun byte => [hexDigit (byte.toNat / 16), hexDigit (byte.toNat % 16)]

/-- `random_hex(n)` on the bytes that were drawn. -/
def randomHex {n : Nat} (drawn : Vector UInt8 n) : Bytes := bytesToHex drawn.toList

theorem length_randomHex {n : Nat} (drawn : Vector UInt8 n) :
    (randomHex drawn).length = 2 * n := by
  have double : ∀ data : Bytes, (bytesToHex data).length = 2 * data.length := by
    intro data
    induction data with
    | nil => rfl
    | cons byte data ih =>
      rw [bytesToHex, List.flatMap_cons, List.length_append, ← bytesToHex, ih]
      simp only [List.length_cons, List.length_nil]
      omega
  rw [randomHex, double, Vector.length_toList]

theorem randomHex_ne_nil {n : Nat} (drawn : Vector UInt8 (n + 1)) : randomHex drawn ≠ [] := by
  apply List.ne_nil_of_length_pos
  rw [length_randomHex]
  omega

example : bytesToHex [0x0f, 0xa0] = text "0fa0" := by decide

end LogMonitor.AuthManager
