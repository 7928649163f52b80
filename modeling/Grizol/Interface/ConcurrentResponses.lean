import Grizol.Interface.StoredFiles
import Grizol.Model.MessageHandlers

/-!
# The responses for the blocks of one file

A file that `replace_file_info` recorded is answered block by block; each handler
writes its block and marks it, and the one that finds all blocks marked concludes the
file. The handlers take turns in any order.
-/

set_option autoImplicit false

namespace Grizol.Interface

open Grizol.Library
open Grizol.Model Grizol.Model.Syncthing

/-- The sizes of a file that is not negative. -/
def byteSize (file : FileInfo) : ℕ := file.size.toInt.toNat

/-- The size of the blocks of a file. -/
def blockBytes (file : FileInfo) : ℕ := file.blockSize.toInt.toNat

/-- The blocks of a file that is not empty cover it, at the multiples of the block size, and
their hashes differ. -/
structure Tiled (file : FileInfo) : Prop where
  size : 0 < file.size.toInt
  blockSize : 0 < file.blockSize.toInt
  blocks : (file.blocks.map fun b => (b.offset.toInt, b.size.toInt)).Perm
    ((List.range (chunkCount (byteSize file) (blockBytes file))).map fun i =>
      (((i * blockBytes file : ℕ) : ℤ),
        ((min (blockBytes file) (byteSize file - i * blockBytes file) : ℕ) : ℤ)))
  hashes : (file.blocks.map BlockInfo.hash).Nodup

/-- The rows of the file are those `replace_file_info` recorded: it was the last of its name
that was not flagged deleted. -/
def Recorded (db : Database) (folder : String) (deviceId : DeviceId) (file : FileInfo) : Prop :=
  ∃ s s' fileInfo, (BepState.rmReplaceFileInfo folder deviceId fileInfo).run s = .ok () s' ∧
    lastNamed (fileInfo.filter fun f => !f.deleted) file.name = some file ∧
    db.bepFileInfo.get ⟨folder, deviceId, file.name⟩ =
      s'.db.bepFileInfo.get ⟨folder, deviceId, file.name⟩ ∧
    db.blockRowsOf ⟨folder, deviceId, file.name⟩ = s'.db.blockRowsOf ⟨folder, deviceId, file.name⟩

/-- The request asks for this block of the file. -/
structure AsksFor (folder : String) (file : FileInfo) (block : BlockInfo) (r : Request) : Prop where
  folder : r.folder = folder
  name : r.name = file.name
  offset : r.offset = block.offset
  hash : r.hash = block.hash

/-- Every block is answered by one response, with its data. -/
structure AnsweredOnce (sha256 : Bytes → Bytes) (p : BepProcessor) (folder : String)
    (file : FileInfo) (responses : Fin file.blocks.length → Response) : Prop where
  ids : ∀ i j, (responses i).id = (responses j).id → i = j
  requests : ∀ i, ∃ r, p.state.getRequest (responses i).id = some r ∧
    AsksFor folder file file.blocks[i] r
  data : ∀ i, sha256 (responses i).data = file.blocks[i].hash
  length : ∀ i, ((responses i).data.length : ℤ) = file.blocks[i].size.toInt

/-- The key of a file in the map of writers. -/
def writerKey (folder : String) (file : FileInfo) : String := folder ++ "/" ++ file.name

/-- If there is a writer for the file it is a new one. -/
def FreshWriter (hash : String → ℕ → ℕ → UInt64) (m : StorageManager) (folder : String)
    (file : FileInfo) : Prop :=
  ∀ w, m.fileWriters.get (writerKey folder file) = some w →
    FileWriter.new hash (m.absPath (writerKey folder file)) (byteSize file) (blockBytes file) =
      .ok w

/-- The handler got `AllBlocks`. -/
def GotAllBlocks (h : ResponseHandler) : Prop := h.uploadStatus = some (.ok .allBlocks)

/-- The handler is about to conclude: it has not entered `consolidate` yet. -/
def Concluding (h : ResponseHandler) : Prop :=
  (∃ request fileSize blockSize, h.pc = .concludeWriter request fileSize blockSize) ∨
    ∃ request, h.pc = .consolidate request .enter

/-- What `conclude_block_storage` finds: the writer of the file, with no call counted and no
flag set, and a file for every chunk with the data of its block. -/
def AllWritten (m : StorageManager) (folder : String) (file : FileInfo)
    (responses : Fin file.blocks.length → Response) : Prop :=
  ∃ w, m.fileWriters.get (writerKey folder file) = some w ∧
    w.filePath = m.absPath (writerKey folder file) ∧ w.fileSize = byteSize file ∧
    w.chunkSize = blockBytes file ∧ w.state = .writingChunks 0 ∧
    w.writingChunk.all (fun flag => !flag) = true ∧
    ∀ chunkPos < w.writingChunk.length, ∃ i,
      file.blocks[i].offset.toInt = ((chunkPos * blockBytes file : ℕ) : ℤ) ∧
        m.disk.get (w.chunkPath chunkPos) = some (responses i).data

/-- **All blocks are found once.** No handler finds too many blocks, at most one finds all of
them, when all have been told the status one has, and by then every block is written. -/
structure FoundOnce (folder : String) (file : FileInfo)
    (responses : Fin file.blocks.length → Response)
    (s : Processes (Fin file.blocks.length) ResponseHandler BepProcessor) : Prop where
  noError : ∀ i e, (s.process i).uploadStatus ≠ some (.error e)
  once : ∀ i j, GotAllBlocks (s.process i) → GotAllBlocks (s.process j) → i = j
  complete : (∀ i, (s.process i).uploadStatus.isSome = true) → ∃ i, GotAllBlocks (s.process i)
  written : ∀ i, GotAllBlocks (s.process i) → ∀ j, (s.process j).stored = some (.ok ())
  concluding : ∀ i, GotAllBlocks (s.process i) → Concluding (s.process i) →
    AllWritten s.shared.storageManager folder file responses

end Grizol.Interface
