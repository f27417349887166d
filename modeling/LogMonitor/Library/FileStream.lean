import LogMonitor.Library.ByteString

/-!
An input stream on a file that others append to. A read goes on as far as the
file reaches at that moment; the position is told and changed only while the
stream has not failed.
-/

namespace LogMonitor.Library
open ByteString

/-- The position, `eofbit` and `failbit`. -/
structure FileStream where
  pos : Nat
  eof : Bool
  fail : Bool
deriving DecidableEq

namespace FileStream

def newline : UInt8 := 10

def good (s : FileStream) : Bool := !s.eof && !s.fail

theorem good_iff {s : FileStream} : s.good = true ↔ s.eof = false ∧ s.fail = false := by
  simp [good]

def clear (s : FileStream) : FileStream := { s with eof := false, fail := false }

/-- `seekg` to a position from the beginning; `-1` is the position of a failure. -/
def seekg (s : FileStream) (pos : Int) : FileStream :=
  let s := { s with eof := false }
  if s.fail then s
  else if pos < 0 then { s with fail := true }
  else { s with pos := pos.toNat }

/-- `seekg(0, std::ios::end)` on a file of this size. -/
def seekEnd (s : FileStream) (size : Nat) : FileStream :=
  let s := { s with eof := false }
  if s.fail then s else { s with pos := size }

/-- `tellg`, which fails on a stream that is at its end. -/
def tellg (s : FileStream) : FileStream × Int :=
  if s.good then (s, s.pos) else ({ s with fail := true }, -1)

/-- `std::getline` on this content, with the line if the stream has not failed after it. -/
def getline (s : FileStream) (content : Bytes) : FileStream × Option Bytes :=
  if s.good then
    let rest := content.drop s.pos
    let line := rest.takeWhile (· ≠ newline)
    if line.length < rest.length then ({ s with pos := s.pos + (line.length + 1) }, some line)
    else if line = [] then ({ s with eof := true, fail := true }, none)
    else ({ s with pos := s.pos + line.length, eof := true }, some line)
  else ({ s with fail := true }, none)

theorem getline_of_not_good {s : FileStream} (ended : s.good = false) (content : Bytes) :
    s.getline content = ({ s with fail := true }, none) := by
  rw [getline, ended, if_neg Bool.false_ne_true]

theorem takeWhile_line {line : Bytes} (absent : newline ∉ line) (more : Bytes) :
    (line ++ more).takeWhile (· ≠ newline) = line ++ more.takeWhile (· ≠ newline) := by
  apply List.takeWhile_append_of_pos
  intro byte listed
  exact decide_eq_true fun same => absent (same ▸ listed)

theorem getline_of_line {s : FileStream} (good : s.good = true) {content line more : Bytes}
    (absent : newline ∉ line) (rest : content.drop s.pos = line ++ newline :: more) :
    s.getline content = ({ s with pos := s.pos + (line.length + 1) }, some line) := by
  have taken : (line ++ newline :: more).takeWhile (· ≠ newline) = line := by
    rw [takeWhile_line absent, List.takeWhile_cons_of_neg (by simp), List.append_nil]
  have shorter : line.length < (line ++ newline :: more).length := by
    rw [List.length_append, List.length_cons]
    omega
  simp only [getline, good, if_true, rest, taken, shorter]

theorem getline_of_tail {s : FileStream} (good : s.good = true) {content rest : Bytes}
    (absent : newline ∉ rest) (left : content.drop s.pos = rest) :
    s.getline content =
      if rest = [] then ({ s with eof := true, fail := true }, none)
      else ({ s with pos := s.pos + rest.length, eof := true }, some rest) := by
  have taken : rest.takeWhile (· ≠ newline) = rest := by
    have whole := takeWhile_line absent []
    rwa [List.takeWhile_nil, List.append_nil] at whole
  simp only [getline, good, if_true, left, taken, Nat.lt_irrefl, if_false]

end FileStream

end LogMonitor.Library
