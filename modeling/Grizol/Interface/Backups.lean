import Grizol.Interface.IndexCache
import Grizol.Model.BepProcessor

/-!
# What the messages of peers may do to the files of this device

A peer tells its files with an `Index` and changes to them with an `IndexUpdate`. The
files of this device are the backup: a file that is not flagged deleted may be replaced
by a newer one of the same name, but stays (`FilesKept`). A run has messages, answers
to requests and calls of the state in any order.
-/

set_option autoImplicit false

namespace Grizol.Interface

open Grizol.Library
open Grizol.Model Grizol.Model.Syncthing

/-- What can happen on a node: a message that is handled on its own, or a call on its indices. -/
inductive NodeEvent where
  | index (received : Index) (peer : DeviceId) (clock : ℕ → ℕ)
  | indexUpdate (received : IndexUpdate) (peer : DeviceId) (clock : ℕ → ℕ)
  | response (response : Response) (outcomes : BepProcessor.ResponseOutcomes)
  | call (e : IndexEvent)

section Step

variable (hash : String → ℕ → ℕ → UInt64) (sha256 : Bytes → Bytes)
  (debugRequest : Request → String)

/-- One event, with the state that a panic leaves where there is one. -/
def nodeStep (p : BepProcessor) : NodeEvent → Option BepProcessor
  | .index received peer clock =>
      some (RustM.endState ((BepProcessor.handleIndex received peer clock).run p))
  | .indexUpdate received peer clock =>
      some (RustM.endState ((BepProcessor.handleIndexUpdate received peer clock).run p))
  | .response response outcomes =>
      some (RustM.endState
        ((BepProcessor.processResponse hash sha256 debugRequest response outcomes).run p))
  | .call e => (indexStep p.state e).map fun s => { p with state := s }

end Step

/-- The size and the blocks of two files are the same. -/
structure SameContent (f g : FileInfo) : Prop where
  size : f.size = g.size
  blocks : f.blocks.Perm g.blocks

/-- Every file of a device that was not flagged deleted is still there and not flagged, and
has its content or that of an offered file of its name that is not flagged either. -/
def FilesKept (offered : List FileInfo) (deviceId : DeviceId) (db db' : Database) : Prop :=
  ∀ key old, key.device = deviceId → stored db key = some old → old.deleted = false →
    ∃ new, stored db' key = some new ∧ new.deleted = false ∧
      (SameContent new old ∨
        ∃ file ∈ offered, file.name = key.name ∧ file.deleted = false ∧ SameContent new file)

/-- **Messages of peers delete nothing.** An `Index` offers its files, an `IndexUpdate` also
those known of the peer before. -/
def KeepsFiles (p : BepProcessor) : NodeEvent → BepProcessor → Prop
  | .index received peer _, p' =>
      peer ≠ p.config.localDeviceId →
        FilesKept received.files p.config.localDeviceId p.state.db p'.state.db
  | .indexUpdate received peer _, p' =>
      peer ≠ p.config.localDeviceId →
        FilesKept (received.files ++ (known p.state received.folder peer).files)
          p.config.localDeviceId p.state.db p'.state.db
  | .response _ _, _ | .call _, _ => True

/-- Files put over those of a device delete none: the last of a name that is there and not
flagged deleted is not flagged either, and its blocks with those that are there make its
own content or the old one. -/
def DeletesNothing (db : Database) (folder : String) (deviceId : DeviceId)
    (files : List FileInfo) : Prop :=
  ∀ name old file, stored db ⟨folder, deviceId, name⟩ = some old → old.deleted = false →
    lastNamed files name = some file →
      file.deleted = false ∧
        (file.blocks.Perm (keptBlocks (some old) files name) ∨
          file.size = old.size ∧ old.blocks.Perm (keptBlocks (some old) files name))

/-- What is needed of an `Index`: if the database takes it, and takes its difference to the
files of this device, then the difference deletes nothing. -/
def OffersNoDeletion (p : BepProcessor) : NodeEvent → Prop
  | .index received peer _ =>
      (∀ file ∈ received.files, Accepted p.state.db received.folder peer file) →
      ∀ diff, diffIndices received.folder received
          (known p.state received.folder p.config.localDeviceId) = .ok (.ok diff) →
        (∀ file ∈ diff.newlyAddedFiles,
          Accepted p.state.db received.folder p.config.localDeviceId file) →
        DeletesNothing p.state.db received.folder p.config.localDeviceId diff.newlyAddedFiles
  | .indexUpdate _ _ _ | .response _ _ | .call _ => True

end Grizol.Interface
