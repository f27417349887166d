import LogMonitor.Library.ByteString

/-!
An output stream on a file opened for appending. What is put into it waits in a
buffer, from which any part may reach the file at any time; after a failed
write the stream takes nothing more, and nobody is told.
-/

namespace LogMonitor.Library
open ByteString

structure OutputStream where
  opened : Bool
  bad : Bool
  file : Bytes
  buffered : Bytes

namespace OutputStream

variable {s : OutputStream}

def good (s : OutputStream) : Bool := s.opened && !s.bad

theorem good_iff : s.good = true ↔ s.opened = true ∧ s.bad = false := by
  simp [good]

/-- `operator<<` up to what it writes through. -/
def put (s : OutputStream) (bytes : Bytes) : OutputStream :=
  if s.good then { s with buffered := s.buffered ++ bytes } else s

def spill (s : OutputStream) (count : Nat) : OutputStream :=
  { s with
    file := s.file ++ s.buffered.take count
    buffered := s.buffered.drop count }

/-- A write that fails after these many bytes: the buffer is not emptied. -/
def failAfter (s : OutputStream) (count : Nat) : OutputStream :=
  { s with
    bad := true
    file := s.file ++ s.buffered.take count }

/-- `flush`, where no write fails. -/
def flush (s : OutputStream) : OutputStream :=
  if s.good then s.spill s.buffered.length else s

theorem put_opened (s : OutputStream) (bytes : Bytes) : (s.put bytes).opened = s.opened := by
  unfold put
  split <;> rfl

theorem flush_opened (s : OutputStream) : s.flush.opened = s.opened := by
  unfold flush
  split <;> rfl

theorem put_of_not_good (closed : s.good = false) (bytes : Bytes) : s.put bytes = s := by
  rw [put, closed, if_neg Bool.false_ne_true]

theorem flush_of_not_good (closed : s.good = false) : s.flush = s := by
  rw [flush, closed, if_neg Bool.false_ne_true]

theorem flush_buffered (good : s.flush.good = true) : s.flush.buffered = [] := by
  cases before : s.good with
  | true =>
    rw [flush, before, if_pos rfl]
    exact List.drop_length
  | false =>
    rw [flush_of_not_good before, before] at good
    cases good

/-- The stream was opened on a file with the old content, and these bytes were put into it. -/
structure Holds (s : OutputStream) (old written : Bytes) : Prop where
  open_ : s.good = true → s.file ++ s.buffered = old ++ written
  cut : ∃ reached, reached <+: written ∧ s.file = old ++ reached

variable {old written : Bytes}

theorem Holds.empty (old : Bytes) (opened : Bool) :
    (OutputStream.mk opened false old []).Holds old [] := by
  constructor
  · intro _
    rfl
  · exact ⟨[], List.prefix_refl [], (List.append_nil old).symm⟩

theorem Holds.put (holds : s.Holds old written) (bytes : Bytes) :
    (s.put bytes).Holds old (written ++ bytes) := by
  obtain ⟨reached, before, file⟩ := holds.cut
  have longer : reached <+: written ++ bytes := before.trans (List.prefix_append written bytes)
  unfold OutputStream.put
  split
  next good =>
    constructor
    · intro _
      rw [← List.append_assoc, holds.open_ good, List.append_assoc]
    · exact ⟨reached, longer, file⟩
  next closed =>
    constructor
    · intro good
      exact absurd good closed
    · exact ⟨reached, longer, file⟩

theorem Holds.reaches (holds : s.Holds old written) (good : s.good = true) (count : Nat) :
    ∃ reached, reached <+: written ∧ s.file ++ s.buffered.take count = old ++ reached := by
  obtain ⟨reached, ⟨rest, shape⟩, file⟩ := holds.cut
  have whole := holds.open_ good
  have left : s.buffered = rest := by
    rw [file, ← shape, List.append_assoc, List.append_cancel_left_eq,
      List.append_cancel_left_eq] at whole
    exact whole
  apply Exists.intro (reached ++ s.buffered.take count)
  constructor
  · rw [← shape, left]
    exact (List.prefix_append_right_inj reached).mpr (List.take_prefix count rest)
  · rw [file, List.append_assoc]

theorem Holds.spill (holds : s.Holds old written) (good : s.good = true) (count : Nat) :
    (s.spill count).Holds old written := by
  constructor
  · intro _
    calc s.file ++ s.buffered.take count ++ s.buffered.drop count
        = s.file ++ s.buffered := by rw [List.append_assoc, List.take_append_drop]
      _ = old ++ written := holds.open_ good
  · exact holds.reaches good count

theorem Holds.failAfter (holds : s.Holds old written) (good : s.good = true) (count : Nat) :
    (s.failAfter count).Holds old written := by
  constructor
  · intro still
    have whole : (s.failAfter count).bad = false := (good_iff.mp still).2
    cases whole
  · exact holds.reaches good count

theorem Holds.flush (holds : s.Holds old written) : s.flush.Holds old written := by
  cases good : s.good with
  | true =>
    rw [OutputStream.flush, good, if_pos rfl]
    exact holds.spill good _
  | false => rwa [flush_of_not_good good]

theorem Holds.file_eq (holds : s.Holds old written) (good : s.good = true)
    (flushed : s.buffered = []) : s.file = old ++ written := by
  have whole := holds.open_ good
  rwa [flushed, List.append_nil] at whole

end OutputStream

end LogMonitor.Library
