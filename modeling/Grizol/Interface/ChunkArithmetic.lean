import Grizol.Model.MessageHandlers

/-!
# The number of chunks of a file

Two places compute with the sizes that a peer announced: the writer of a file has a flag
for each chunk, and a file is complete when as many of its blocks are stored as are
expected.
-/

set_option autoImplicit false

namespace Grizol.Interface

open Grizol.Library
open Grizol.Model Grizol.Model.Syncthing

/-- The file is recorded, and what is asked for under the id is a part of it. -/
structure Offers (folder name : String) (file : FileInfo) (requestId : Int32)
    (p : BepProcessor) : Prop where
  recorded : p.state.fileInfo folder p.config.localDeviceId name = some file
  request : ∀ r, p.state.getRequest requestId = some r → r.folder = folder ∧ r.name = name

variable (hash : String → ℕ → ℕ → UInt64) (sha256 : Bytes → Bytes)
  (debugRequest : Request → String)

/-- A handler after turns, each with the processor it finds: other tasks run in between. -/
def afterTurns (h : ResponseHandler) (turns : List (BepProcessor × TurnOutcome)) :
    ResponseHandler :=
  turns.foldl (fun h t => (h.act hash sha256 debugRequest t.1 t.2).1) h

/-- **The arithmetic on the chunks of a file is defined and consistent.** -/
structure ChunksAgree (file : FileInfo) : Prop where
  /-- While the file is recorded no handler of a response for a part of it divides by zero. -/
  stored : ∀ folder name response turns,
    (∀ t ∈ turns, Offers folder name file response.id t.1) →
      (afterTurns hash sha256 debugRequest (.new response) turns).pc ≠ .panicked .divideByZero
  /-- With its sizes as they are read there is a writer and a number of expected blocks, and the
  writer of a file that is not empty has as many chunks. -/
  counted : ∀ path fileSize chunkSize, BepProcessor.toSize file.size.toInt = .ok fileSize →
    BepProcessor.toSize file.blockSize.toInt = .ok chunkSize →
      ∃ w n, FileWriter.new hash path fileSize chunkSize = .ok w ∧
        BepState.expectedBlocks file.size file.blockSize = .ok n ∧
        (0 < file.size.toInt → (w.writingChunk.length : ℤ) = n)

/-- The block size is not zero, and added to the size of the file it stays an `i64`. (Where it is
negative a handler stops as it reads it.) -/
def SizesFit (file : FileInfo) : Prop :=
  file.blockSize ≠ 0 ∧ file.size.toInt + file.blockSize.toInt < 2 ^ 63

instance (file : FileInfo) : Decidable (SizesFit file) :=
  inferInstanceAs (Decidable (_ ∧ _))

end Grizol.Interface
