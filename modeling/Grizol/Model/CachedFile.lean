import Grizol.Model.Fuse

/-!
# Reading from the read cache

`read_cached` of `storage.rs`. A read of the operating system returns any number of bytes,
but at least one before the end of the file and the buffer. The buffer is handed to every
read as a whole, and the cursor, which a read moves, is moved once more after it.
-/

set_option autoImplicit false

namespace Grizol.Model

open Grizol.Library

/-- What the operating system answers to the calls of one `read_cached`: to the open, to the
seeks, and to the reads, by one less than the bytes each returns at most. -/
structure CachedReadOutcomes where
  openFile : Except String Unit
  seek : ℕ → Bool
  read : ℕ → Except String ℕ

namespace StorageManager

section

variable (outcomes : CachedReadOutcomes) (content : Bytes) (size : ℕ)

/-- The loop of `read_cached`; `n` counts the reads, `pos` is the cursor. -/
def readLoop : ℕ → ℕ → ℕ → Bytes → ℕ → Rust (Except String Bytes)
  | 0, _, _, buffer, totalReadBytes =>
      if totalReadBytes < size then .error .divergence else pure (.ok buffer)
  | fuel + 1, n, pos, buffer, totalReadBytes =>
      if totalReadBytes < size then
        match outcomes.read n with
        | .error e => pure (.error ("Failed to read file " ++ e))
        | .ok most =>
            let bytes := (content.drop pos).take (min (most + 1) buffer.length)
            let readBytes := bytes.length
            let buffer := bytes ++ buffer.drop readBytes
            if readBytes = 0 then pure (.ok buffer)
            else if outcomes.seek (n + 1) then
              readLoop fuel (n + 1) (pos + readBytes + readBytes) buffer
                (totalReadBytes + readBytes)
            else .error (.expect "Failed to seek")
      else pure (.ok buffer)

end

/-- `read_cached`: every turn of the loop but the last reads a byte, so it takes no more than
`size`. -/
def readCached (readCache : ReadCacheConfig) (files : FileStore) (file : GrizolFileInfo)
    (baseOffset : Int64) (size : UInt32) (outcomes : CachedReadOutcomes) :
    Rust (Except String Bytes) :=
  let filePath := GrizolFS.cachePath readCache file.folder file.fileInfo.name
  match outcomes.openFile, files.get filePath with
  | .error e, _ => pure (.error e)
  | .ok (), none => pure (.error "No such file or directory (os error 2)")
  | .ok (), some content => do
      let pos ← Rust.unwrap (toUsize baseOffset)
      if outcomes.seek 0 then
        readLoop outcomes content size.toNat size.toNat 0 pos (List.replicate size.toNat 0) 0
      else .error (.expect "Failed to seek")

end StorageManager

end Grizol.Model
