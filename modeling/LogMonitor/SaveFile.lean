import LogMonitor.Library.ByteString

/-!
The two files of a save and the steps that change them: opening the temporary
file, writing to it, renaming it over the target. Opening and writing fail
silently, in the state of the stream; a failed rename throws.
-/

namespace LogMonitor
open Library.ByteString

/-- The file at `persistence_path_` and the one at `persistence_path_ + ".tmp"`. -/
structure Files where
  target : Option Bytes
  tmp : Option Bytes

structure Disk where
  opens : Bool
  /-- How many bytes there is room for. -/
  room : Nat
  renames : Bool

/-- A disk that does everything it is asked to, for files of up to `room` bytes. -/
def Disk.sound (room : Nat) : Disk := ⟨true, room, true⟩

/-- Opening for output empties the file. -/
def Files.openTmp (files : Files) (disk : Disk) : Files :=
  if disk.opens then { files with tmp := some [] } else files

/-- On a stream that is not open, writing does nothing. -/
def Files.writeTmp (files : Files) (disk : Disk) (bytes : Bytes) : Files :=
  if disk.opens then { files with tmp := some (bytes.take disk.room) } else files

/-- `std::filesystem::rename(tmp, persistence_path_)`; `none` is its exception. -/
def Files.rename (files : Files) (disk : Disk) : Option Files :=
  match files.tmp with
  | none => none
  | some content => if disk.renames then some ⟨some content, none⟩ else none

/-- The routine of the two account stores, with whether it returns. The text is `none` when
`dump` throws, which happens with the temporary file open. -/
def saveLocked (disk : Disk) (dumped : Option Bytes) (files : Files) : Files × Bool :=
  let files := files.openTmp disk
  match dumped with
  | none => (files, false)
  | some bytes =>
    let files := files.writeTmp disk bytes
    match files.rename disk with
    | some files => (files, true)
    | none => (files, false)

theorem saveLocked_snd (disk : Disk) (dumped : Option Bytes) (files : Files) :
    (saveLocked disk dumped files).2 =
      (dumped.isSome && (disk.opens || files.tmp.isSome) && disk.renames) := by
  cases dumped with
  | none => rfl
  | some bytes =>
    cases opened : disk.opens with
    | true =>
      cases renamed : disk.renames <;>
        simp [saveLocked, Files.openTmp, Files.writeTmp, Files.rename, opened, renamed]
    | false =>
      cases left : files.tmp with
      | none => simp [saveLocked, Files.openTmp, Files.writeTmp, Files.rename, opened, left]
      | some content =>
        cases renamed : disk.renames <;>
          simp [saveLocked, Files.openTmp, Files.writeTmp, Files.rename, opened, left, renamed]

/-- The routine of the log store, which gives up when the file does not open and catches
what the rename throws. -/
def writeToDisk (disk : Disk) (encoding : Bytes) (files : Files) : Files :=
  if disk.opens then
    let files := (files.openTmp disk).writeTmp disk encoding
    (files.rename disk).getD files
  else files

theorem writeToDisk_sound (encoding : Bytes) (files : Files) :
    (writeToDisk (.sound encoding.length) encoding files).target = some encoding := by
  simp [writeToDisk, Disk.sound, Files.openTmp, Files.writeTmp, Files.rename]

/-- The target has its content from before the save, or the complete encoding if there is one. -/
def Kept (before after : Files) (encoding : Option Bytes) : Prop :=
  after.target = before.target ∨ encoding.isSome ∧ after.target = encoding

/-- The rename moves nothing, or what was written is complete, or it happens to be what the
target held anyway. -/
def WriteSafe (disk : Disk) (encoding : Bytes) (files : Files) : Prop :=
  disk.renames = false ∨ encoding.length ≤ disk.room ∨
    files.target = some (encoding.take disk.room)

/-- What the rename finds when the temporary file was not opened is left from earlier. -/
def StaleSafe (disk : Disk) (dumped : Option Bytes) (files : Files) : Prop :=
  disk.renames = false ∨ files.tmp = none ∨ files.tmp = files.target ∨ files.tmp = dumped

/-- When the log store's routine is safe: a file that does not open is noticed. -/
def LogSaveSafe (disk : Disk) (encoding : Bytes) (files : Files) : Prop :=
  disk.opens = false ∨ WriteSafe disk encoding files

/-- When the routine of the account stores is safe: a writer that throws ends the call, and
otherwise the rename comes whether or not the file opened. -/
def AccountSaveSafe (disk : Disk) (dumped : Option Bytes) (files : Files) : Prop :=
  dumped = none ∨ (disk.opens = true ∧ ∃ text, dumped = some text ∧ WriteSafe disk text files) ∨
    (disk.opens = false ∧ StaleSafe disk dumped files)

theorem writeToDisk_kept_iff (disk : Disk) (encoding : Bytes) (files : Files) :
    Kept files (writeToDisk disk encoding files) (some encoding) ↔
      LogSaveSafe disk encoding files := by
  obtain ⟨opens, room, renames⟩ := disk
  unfold LogSaveSafe WriteSafe
  cases opens with
  | false => simp [Kept, writeToDisk]
  | true =>
    cases renames with
    | false => simp [Kept, writeToDisk, Files.openTmp, Files.writeTmp, Files.rename]
    | true =>
      simp [Kept, writeToDisk, Files.openTmp, Files.writeTmp, Files.rename, or_comm,
        eq_comm (a := files.target)]

theorem saveLocked_kept_iff (disk : Disk) (dumped : Option Bytes) (files : Files) :
    Kept files (saveLocked disk dumped files).1 dumped ↔ AccountSaveSafe disk dumped files := by
  obtain ⟨opens, room, renames⟩ := disk
  unfold AccountSaveSafe WriteSafe StaleSafe
  cases dumped with
  | none => cases opens <;> simp [Kept, saveLocked, Files.openTmp]
  | some text =>
    cases opens with
    | true =>
      cases renames with
      | false => simp [Kept, saveLocked, Files.openTmp, Files.writeTmp, Files.rename]
      | true =>
        simp [Kept, saveLocked, Files.openTmp, Files.writeTmp, Files.rename, or_comm,
          eq_comm (a := files.target)]
    | false =>
      cases left : files.tmp with
      | none => simp [Kept, saveLocked, Files.openTmp, Files.writeTmp, Files.rename, left]
      | some content =>
        cases renames <;>
          simp [Kept, saveLocked, Files.openTmp, Files.writeTmp, Files.rename, left]

end LogMonitor
