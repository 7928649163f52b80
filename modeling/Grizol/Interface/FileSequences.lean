import Grizol.Interface.StoredFiles
import Grizol.Library.Transition

/-!
# The sequence numbers of files

Five operations take numbers from `next_sequence_id`, and a process that starts anew has
forgotten the counter. `sequencesGiven` are the numbers an operation is given,
`KeepsUnique` says that no statement of it finds one of them taken.
-/

set_option autoImplicit false

namespace Grizol.Interface

open Grizol.Library
open Grizol.Model Grizol.Model.Syncthing

/-- The calls that write or remove files, and a restart. -/
inductive SequenceEvent where
  | replaceIndex (index : Index) (deviceId : DeviceId)
  | insertFileInfo (folder : String) (deviceId : DeviceId) (fileInfo : List FileInfo)
  | replaceFileInfo (folder : String) (deviceId : DeviceId) (fileInfo : List FileInfo)
      (moveFile : Bool)
  | mvFileInfo (folder : String) (deviceId : DeviceId) (origFileInfo : FileInfo)
      (destFileName : String) (destFileLocations : List FileLocation)
  | rmFileInfo (folder : String) (deviceId : DeviceId) (fileName : String)
  | restart

/-- The state an operation leaves, whether it returns or panics. -/
def sequenceStep (s : BepState) : SequenceEvent → Option BepState
  | .replaceIndex index deviceId =>
      some (RustM.endState ((BepState.replaceIndex index deviceId).run s))
  | .insertFileInfo folder deviceId fileInfo =>
      some (RustM.endState ((BepState.insertFileInfo folder deviceId fileInfo).run s))
  | .replaceFileInfo folder deviceId fileInfo moveFile =>
      some (RustM.endState ((BepState.replaceFileInfo folder deviceId fileInfo moveFile).run s))
  | .mvFileInfo folder deviceId origFileInfo destFileName destFileLocations =>
      some (RustM.endState ((BepState.mvFileInfo folder deviceId origFileInfo destFileName
        destFileLocations).run s))
  | .rmFileInfo folder deviceId fileName =>
      some (RustM.endState ((BepState.rmFileInfo folder deviceId fileName).run s))
  | .restart => some (.new s.db)

/-- The files an operation numbers. -/
def filesToNumber : SequenceEvent → List FileInfo
  | .replaceIndex index _ => index.files
  | .insertFileInfo _ _ fileInfo | .replaceFileInfo _ _ fileInfo _ => fileInfo
  | .mvFileInfo .. | .rmFileInfo .. | .restart => []

/-- How often an operation calls `next_sequence_id`. -/
def sequenceCalls : SequenceEvent → ℕ
  | .replaceIndex index _ => index.files.length
  | .insertFileInfo _ _ fileInfo | .replaceFileInfo _ _ fileInfo _ => fileInfo.length
  | .mvFileInfo .. => 1
  | .rmFileInfo .. | .restart => 0

/-- The numbers that calls of `next_sequence_id` return, up to one that panics. -/
def sequencesGiven : ℕ → BepState → List Int64
  | 0, _ => []
  | calls + 1, s =>
      match BepState.nextSequenceId.run s with
      | .ok sequence s' => sequence :: sequencesGiven calls s'
      | .error _ _ => []

/-- No file finds its number at a row of another one when its statements are executed. -/
def NeverTaken (write : FileInfo → Database → Rust Database) (folder : String)
    (deviceId : DeviceId) : List FileInfo → Database → Prop
  | [], _ => True
  | file :: files, tx =>
      tx.sequenceFree ⟨folder, deviceId, file.name⟩ file.sequence = true ∧
        ∀ tx', write file tx = .ok tx' → NeverTaken write folder deviceId files tx'

/-- `UNIQUE(sequence)` holds with every statement of an operation. -/
def KeepsUnique (s : BepState) : SequenceEvent → Prop
  | .replaceIndex index deviceId =>
      ∀ files s', (BepState.assignSequences index.files).run s = .ok files s' →
        NeverTaken (BepState.upsertFile index.folder deviceId) index.folder deviceId files
          (s.db.deleteFileInfo fun k => k.folder = index.folder && k.device = deviceId)
  | .insertFileInfo folder deviceId fileInfo =>
      ∀ files s', (BepState.assignSequences fileInfo).run s = .ok files s' →
        NeverTaken (BepState.upsertFile folder deviceId) folder deviceId files s.db
  | .replaceFileInfo folder deviceId fileInfo _ =>
      ∀ files s', (BepState.assignSequences fileInfo).run s = .ok files s' →
        NeverTaken (BepState.replaceFile folder deviceId) folder deviceId (notDeleted files) s.db
  | .mvFileInfo folder deviceId origFileInfo _ _ =>
      ∀ sequence s', BepState.nextSequenceId.run s = .ok sequence s' →
        s.db.sequenceFree ⟨folder, deviceId, origFileInfo.name⟩ sequence = true
  | .rmFileInfo .. | .restart => True

/-- **An operation is given new numbers**: each is above those of all rows, they increase from
call to call and so from file to file, and no statement finds one taken. -/
structure FreshSequences (s : BepState) (e : SequenceEvent) : Prop where
  above : ∀ sequence ∈ sequencesGiven (sequenceCalls e) s, ∀ k r,
    s.db.bepFileInfo.get k = some r → r.sequence < sequence
  increasing : (sequencesGiven (sequenceCalls e) s).Pairwise (· < ·)
  files : ∀ files s', (BepState.assignSequences (filesToNumber e)).run s = .ok files s' →
    files.Pairwise fun f g => f.sequence < g.sequence
  unique : KeepsUnique s e

end Grizol.Interface
