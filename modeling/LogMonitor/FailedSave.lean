import LogMonitor.TsdbRestart
import LogMonitor.UserStore

/-!
The three save routines on a disk that fails somewhere. All write a temporary
file and rename it; none asks the stream whether the writing worked, and the
account stores do not even ask whether the file is open.
-/

namespace LogMonitor
open Library Library.ByteString

/-- For every state of the three stores and every disk: the file holds its previous content or
the complete encoding if and only if the save is safe. -/
theorem saved_file_kept_iff (store : Tsdb.Store) (files : Files) (users : UserStore.State)
    (projects : ProjectStore.State) (env : AccountEnvironment) :
    (Kept files (writeToDisk env.disk (Tsdb.writeBinary store) files)
          (some (Tsdb.writeBinary store)) ↔
        LogSaveSafe env.disk (Tsdb.writeBinary store) files) ∧
      (Kept users.files (users.save env).1.files (env.dump (UserStore.encoding users.users)) ↔
        AccountSaveSafe env.disk (env.dump (UserStore.encoding users.users)) users.files) ∧
      (Kept projects.files (projects.save env).1.files
          (env.dump (ProjectStore.encoding projects.projects)) ↔
        AccountSaveSafe env.disk (env.dump (ProjectStore.encoding projects.projects))
          projects.files) := by
  refine ⟨?_, ?_, ?_⟩
  · exact writeToDisk_kept_iff env.disk (Tsdb.writeBinary store) files
  · exact saveLocked_kept_iff env.disk (env.dump (UserStore.encoding users.users)) users.files
  · exact saveLocked_kept_iff env.disk (env.dump (ProjectStore.encoding projects.projects))
      projects.files

def fullDisk : Disk := ⟨true, 0, true⟩

def fullDiskEnvironment : AccountEnvironment where
  idDraw := none
  keyDraw := none
  now := 0
  disk := fullDisk
  dump := fun _ => some (text "[]")

/-- Each of the three puts an empty file in the place of the good one. -/
theorem full_disk_empties_file :
    ¬Kept ⟨some (text "old"), none⟩
        (writeToDisk fullDisk (Tsdb.writeBinary Tsdb.Store.empty) ⟨some (text "old"), none⟩)
        (some (Tsdb.writeBinary Tsdb.Store.empty)) ∧
      ¬Kept ⟨some (text "old"), none⟩
        ((UserStore.empty ⟨some (text "old"), none⟩).save fullDiskEnvironment).1.files
        (some (text "[]")) ∧
      ¬Kept ⟨some (text "old"), none⟩
        ((ProjectStore.empty ⟨some (text "old"), none⟩).save fullDiskEnvironment).1.files
        (some (text "[]")) := by
  unfold Kept
  refine ⟨?_, ?_, ?_⟩ <;> decide

end LogMonitor
