import Grizol.Interface.SharedWriter

/-!
# The chunks a writer accepts

A file of `fileSize` bytes is written in chunks of `chunkSize`, of which the last may be
shorter. A writer should accept the chunks that are pieces of such a file and no others, so
that any that cover the file consolidate to one of its size.
-/

set_option autoImplicit false

namespace Grizol.Interface

open Grizol.Library Grizol.Model

/-- The data of a call of `write_chunk` and its offset. -/
structure Chunk where
  data : Bytes
  offset : ℕ

namespace Chunk

variable (fileSize chunkSize : ℕ) (c : Chunk)

/-- A piece of a file of this size, at its position. -/
structure WellFormed : Prop where
  aligned : c.offset % chunkSize = 0
  inside : c.offset < fileSize
  length : c.data.length = min chunkSize (fileSize - c.offset)

/-- `write_chunk` returns `Ok` when no file operation fails. -/
def Accepted (w : FileWriter) (files : FileStore) : Prop :=
  (w.writeChunk files c.data c.offset fun _ => .ok).2.2 = .returned (.ok ())

/-- **What is needed of a chunk**: one for the last position, where the code looks at its length
only to see that it is not above `chunkSize`, has what is left of the file. -/
def FitsLast : Prop :=
  c.offset = fileSize / chunkSize * chunkSize → c.offset < fileSize →
    c.data.length ≤ chunkSize → c.data.length = fileSize - c.offset

end Chunk

/-- The chunks are written by one call each, one after the other. -/
def writeChunks : List Chunk → FileWriter → FileStore → FileWriter × FileStore
  | [], w, files => (w, files)
  | c :: chunks, w, files =>
      let (w, files, _) := w.writeChunk files c.data c.offset fun _ => .ok
      writeChunks chunks w files

/-- There is a chunk for every position. -/
def Cover (fileSize chunkSize : ℕ) (chunks : List Chunk) : Prop :=
  ∀ i < chunkCount fileSize chunkSize, ∃ c ∈ chunks, c.offset = i * chunkSize

/-- The consolidation returns `Ok` and the file has its size. -/
def BuildsFile (w : FileWriter) (files : FileStore) : Prop :=
  (w.consolidate files fun _ => .ok).2.2 = .returned (.ok ()) ∧
    ∃ content, (w.consolidate files fun _ => .ok).2.1.get w.filePath = some content ∧
      content.length = w.fileSize

/-- **Exactly the well-formed chunks are accepted**, by every writer of the file that is writing
chunks; and if all of them are and they cover the file, they build it. -/
structure AcceptsWellFormed (fileSize chunkSize : ℕ) (chunks : List Chunk) : Prop where
  accepts : ∀ c ∈ chunks, ∀ (w : FileWriter) files n, w.fileSize = fileSize →
    w.chunkSize = chunkSize → w.state = .writingChunks n →
      (c.Accepted w files ↔ c.WellFormed fileSize chunkSize)
  builds : ∀ (w : FileWriter) files, w.fileSize = fileSize → w.chunkSize = chunkSize →
    w.state = .writingChunks 0 → w.writingChunk.all (fun flag => !flag) = true →
      (∀ c ∈ chunks, c.Accepted w files) → Cover fileSize chunkSize chunks →
        BuildsFile (writeChunks chunks w files).1 (writeChunks chunks w files).2

end Grizol.Interface
