import Grizol.Interface.SharedWriter

/-!
# A consolidation that fails

A consolidation goes through many states of the disk: it truncates the file, and removes
each chunk once it has been copied. When it fails the data should still be there, in the
files of the chunks or in the file itself, and a file that was complete before should be.
-/

set_option autoImplicit false

namespace Grizol.Interface

open Grizol.Library Grizol.Model

section

variable (w : FileWriter) (files : FileStore)

/-- The files of the chunks are there as they were. -/
def ChunksKept (files' : FileStore) : Prop :=
  ∀ i < w.writingChunk.length, ∀ content, files.get (w.chunkPath i) = some content →
    files'.get (w.chunkPath i) = some content

/-- There is a file for every chunk. -/
def AllChunks : Prop := ∀ i < w.writingChunk.length, (files.get (w.chunkPath i)).isSome = true

/-- The file holds the content of all chunks. -/
def HoldsAll (files' : FileStore) : Prop :=
  AllChunks w files ∧ files'.get w.filePath = some (joined w files w.writingChunk.length)

/-- A file of the full size was there. -/
def CompleteBefore : Prop :=
  ∃ content, files.get w.filePath = some content ∧ content.length = w.fileSize

/-- **Nothing is lost**: the files of the chunks are kept or the file holds them all, and a file
that was complete is not left shorter. -/
structure DataKept (files' : FileStore) : Prop where
  chunks : ChunksKept w files files' ∨ HoldsAll w files files'
  target : CompleteBefore w files →
    ∃ content, files'.get w.filePath = some content ∧ w.fileSize ≤ content.length

/-- Where a consolidation on its own fails: at the operation of `pc`, which ends with
`outcome`. -/
def FailsAt (outcomes : ℕ → Outcome) (pc : FileWriter.ConsolidatePc) (outcome : Outcome) : Prop :=
  ∃ k m w' files' e, k + 1 + m = 4 + 6 * w.writingChunk.length ∧ outcomes m = outcome ∧
    Transition.runFor (fun outcome s => s.1.consolidateStep s.2.1 outcome s.2.2)
      (fun j => outcomes (j + (m + 1))) k (w, files, FileWriter.ConsolidatePc.enter) =
        (w', files', pc) ∧
    (∀ result, pc ≠ .returned result) ∧
    (w'.consolidateStep files' outcome pc).2.2 = .returned (.error e)

/-- What the operation at this point leaves in the file when it fails, if the file has been
opened by then: the chunks that were copied before, and what is written of the next. -/
def copiedAt (outcome : Outcome) : FileWriter.ConsolidatePc → Option Bytes
  | .openChunk i | .readChunk i | .seek i _ => some (joined w files i)
  | .writeAll i buf =>
      match outcome with
      | .ok => some (joined w files (i + 1))
      | .fails written =>
          some (FileStore.writeAt (joined w files i) (i * w.chunkSize) (buf.take written))
  | .syncAll i | .removeChunk i => some (joined w files (i + 1))
  | _ => none

/-- The number of chunks whose files are removed by then. -/
def removedAt : FileWriter.ConsolidatePc → ℕ
  | .openChunk i | .readChunk i | .seek i _ | .writeAll i _ | .syncAll i | .removeChunk i => i
  | _ => 0

/-- **What is needed of the operation that fails**: if the file has been opened by then, no chunk
has been removed or the content is complete, and if a complete file was there the new content
has reached its size. -/
def FailsHarmlessly (outcome : Outcome) (pc : FileWriter.ConsolidatePc) : Prop :=
  ∀ content, copiedAt w files outcome pc = some content →
    (removedAt pc = 0 ∨ AllChunks w files ∧ content = joined w files w.writingChunk.length) ∧
      (CompleteBefore w files → w.fileSize ≤ content.length)

end

end Grizol.Interface
