import Grizol.Library.FileStore
import Grizol.Library.Transition
import Grizol.Model.Syncthing

/-!
# The file writer

`file_writer.rs`: a file is written as chunks of one size, each in a file of its own,
and consolidated when all are there. `write_chunk` and `consolidate` await between
their file operations, so each is a machine whose steps (one lock section, atomic
access or file operation each) can interleave with those of other calls on the
same writer. A step that asks the operating system is told its outcome.

A call made on its own is its machine run to the end.
-/

set_option autoImplicit false

namespace Grizol.Model

open Grizol.Library

/-- The kinds of `io::Error` that are raised here; `os` stands for what the operating
system reports. -/
inductive ErrorKind where
  | invalidData
  | other
  | alreadyExists
  | os
  deriving DecidableEq, Repr

/-- An error of a call, as `std::io::Error`: its kind and its message. -/
structure IoError where
  kind : ErrorKind
  message : String
  deriving DecidableEq, Repr

/-- Either so many calls are writing chunks, or one consolidates. -/
inductive FileWriterState where
  | writingChunks (n : ℕ)
  | consolidating
  deriving DecidableEq, Repr

/-- `FileWriter`. There is one flag for every chunk, and the chunks are not empty. -/
structure FileWriter where
  filePath : String
  fileSize : ℕ
  chunkSize : ℕ
  writingChunk : List Bool
  suffix : String
  state : FileWriterState
  chunkSize_pos : 0 < chunkSize
  writingChunk_length : writingChunk.length = chunkCount fileSize chunkSize
  deriving DecidableEq

namespace FileWriter

/-- `FileWriter::new`; `hash` is what `DefaultHasher` makes of the path and the two
sizes. -/
def new (hash : String → ℕ → ℕ → UInt64) (filePath : String) (fileSize chunkSize : ℕ) :
    Rust FileWriter := do
  let sum ← Rust.add 64 fileSize chunkSize
  let sum ← Rust.sub sum 1
  let _ ← Rust.div sum chunkSize
  if h : 0 < chunkSize then
    pure {
      filePath := filePath
      fileSize := fileSize
      chunkSize := chunkSize
      writingChunk := List.replicate (chunkCount fileSize chunkSize) false
      suffix := toString (hash filePath fileSize chunkSize).toNat
      state := .writingChunks 0
      chunkSize_pos := h
      writingChunk_length := List.length_replicate }
  else .error .divideByZero

variable (w : FileWriter)

/-- The file of a chunk. -/
def chunkPath (chunkPos : ℕ) : String :=
  w.filePath ++ ".part_" ++ toString chunkPos ++ "." ++ w.suffix

/-- The writer with its state replaced. -/
def setState (state : FileWriterState) : FileWriter := { w with state := state }

/-- The writer with one flag replaced. -/
def setWriting (chunkPos : ℕ) (flag : Bool) : FileWriter :=
  { w with
    writingChunk := w.writingChunk.set chunkPos flag
    writingChunk_length := by rw [List.length_set, w.writingChunk_length] }

@[simp] theorem setState_filePath (st : FileWriterState) :
    (w.setState st).filePath = w.filePath := rfl

@[simp] theorem setState_fileSize (st : FileWriterState) :
    (w.setState st).fileSize = w.fileSize := rfl

@[simp] theorem setState_chunkSize (st : FileWriterState) :
    (w.setState st).chunkSize = w.chunkSize := rfl

@[simp] theorem setState_suffix (st : FileWriterState) : (w.setState st).suffix = w.suffix := rfl

@[simp] theorem setState_state (st : FileWriterState) : (w.setState st).state = st := rfl

@[simp] theorem setState_writingChunk (st : FileWriterState) :
    (w.setState st).writingChunk = w.writingChunk := rfl

@[simp] theorem setWriting_filePath (i : ℕ) (b : Bool) :
    (w.setWriting i b).filePath = w.filePath := rfl

@[simp] theorem setWriting_fileSize (i : ℕ) (b : Bool) :
    (w.setWriting i b).fileSize = w.fileSize := rfl

@[simp] theorem setWriting_chunkSize (i : ℕ) (b : Bool) :
    (w.setWriting i b).chunkSize = w.chunkSize := rfl

@[simp] theorem setWriting_suffix (i : ℕ) (b : Bool) : (w.setWriting i b).suffix = w.suffix := rfl

@[simp] theorem setWriting_state (i : ℕ) (b : Bool) : (w.setWriting i b).state = w.state := rfl

@[simp] theorem setWriting_writingChunk (i : ℕ) (b : Bool) :
    (w.setWriting i b).writingChunk = w.writingChunk.set i b := rfl

@[simp] theorem chunkPath_setState (st : FileWriterState) (i : ℕ) :
    (w.setState st).chunkPath i = w.chunkPath i := rfl

@[simp] theorem chunkPath_setWriting (i j : ℕ) (b : Bool) :
    (w.setWriting i b).chunkPath j = w.chunkPath j := rfl

/-- A chunk is not written to the file itself. -/
theorem chunkPath_ne_filePath (i : ℕ) : w.chunkPath i ≠ w.filePath := by
  intro h
  have hlen := congrArg String.length h
  have hdot : ".part_".length = 6 := rfl
  simp only [chunkPath, String.length_append] at hlen
  omega

/-- Different chunks are written to different files. -/
theorem chunkPath_inj {i j : ℕ} (h : w.chunkPath i = w.chunkPath j) : i = j := by
  simp only [chunkPath, String.append_left_inj, String.append_right_inj] at h
  have hdigits : Nat.toDigits 10 i = Nat.toDigits 10 j := by
    rw [← Nat.toList_repr, ← Nat.toList_repr]
    exact congrArg String.toList h
  rw [← Nat.ofDigitChars_toDigits (by decide) (by decide) (b := 10) (n := i), hdigits,
    Nat.ofDigitChars_toDigits (by decide) (by decide)]

/-- `compare_exchange(false, true)` on a flag: the value found is `ok` when it was the
one expected and `error` when it was not. -/
def compareExchange (chunkPos : ℕ) : FileWriter × Except Bool Bool :=
  if w.writingChunk.getD chunkPos false then (w, .error true)
  else (w.setWriting chunkPos true, .ok false)

/-- Where a call of `write_chunk` stands. -/
inductive WritePc where
  | check
  | openEmpty
  | enter
  | acquire
  | openChunk
  | setLen
  | writeAll
  | syncAll
  | release
  | leave
  | returned (result : Except IoError Unit)
  | panicked (fault : Fault)
  deriving DecidableEq, Repr

/-- An error of the operating system; its text is not modelled. -/
def osError : IoError := ⟨.os, "os error"⟩

/-- The checks of `write_chunk` on its arguments. -/
def checkChunk (data : Bytes) (offset : ℕ) : WritePc :=
  if offset = 0 ∧ w.fileSize = 0 then .openEmpty
  else if offset % w.chunkSize ≠ 0 then
    .returned (.error ⟨.invalidData,
      "Alignment is at multiples of " ++ toString w.chunkSize ++
        ", trying to write unaligned chunk at offset " ++ toString offset ++
        " for file " ++ w.filePath⟩)
  else if w.fileSize ≤ offset then
    .returned (.error ⟨.invalidData,
      "Trying to write at position " ++ toString offset ++
        ", which is larger then the file " ++ toString w.fileSize⟩)
  else
    let lastOffset := w.fileSize / w.chunkSize * w.chunkSize
    if data.length ≠ w.chunkSize ∧ ¬ (data.length < w.chunkSize ∧ offset = lastOffset) then
      .returned (.error ⟨.invalidData,
        "Wrong chunk size " ++ toString data.length ++ " for file " ++ w.filePath ++
          " at offset " ++ toString offset⟩)
    else .enter

/-- One step of `write_chunk(data, offset)`. -/
def writeStep (files : FileStore) (data : Bytes) (offset : ℕ) (outcome : Outcome) :
    WritePc → FileWriter × FileStore × WritePc
  | .check => (w, files, w.checkChunk data offset)
  | .openEmpty =>
      match outcome with
      | .ok => (w, files.insert (w.chunkPath 0) [], .returned (.ok ()))
      | .fails _ => (w, files, .returned (.error osError))
  | .enter =>
      match w.state with
      | .consolidating =>
          (w, files, .returned (.error ⟨.other,
            "Trying to write at position " ++ toString offset ++
              ", which is larger then the file " ++ toString w.fileSize⟩))
      | .writingChunks x => (w.setState (.writingChunks (x + 1)), files, .acquire)
  | .acquire =>
      let chunkPos := offset / w.chunkSize
      match w.compareExchange chunkPos with
      | (w, .ok true) =>
          (w, files, .returned (.error ⟨.alreadyExists,
            "chunk_pos " ++ toString chunkPos ++ " for file " ++ w.filePath ++
              " is currently being written"⟩))
      | (w, _) => (w, files, .openChunk)
  | .openChunk =>
      let chunkPos := offset / w.chunkSize
      match outcome with
      | .ok => (w, files.insert (w.chunkPath chunkPos) [], .setLen)
      | .fails _ => (w.setWriting chunkPos false, files, .returned (.error osError))
  | .setLen =>
      match outcome with
      | .ok =>
          (w, FileStore.update files (w.chunkPath (offset / w.chunkSize))
            (FileStore.resize · data.length), .writeAll)
      | .fails _ => (w, files, .returned (.error osError))
  | .writeAll =>
      match outcome with
      | .ok =>
          (w, FileStore.update files (w.chunkPath (offset / w.chunkSize))
            (FileStore.writeAt · 0 data), .syncAll)
      | .fails written =>
          (w, FileStore.update files (w.chunkPath (offset / w.chunkSize))
            (FileStore.writeAt · 0 (data.take written)), .returned (.error osError))
  | .syncAll =>
      match outcome with
      | .ok => (w, files, .release)
      | .fails _ => (w, files, .returned (.error osError))
  | .release => (w.setWriting (offset / w.chunkSize) false, files, .leave)
  | .leave =>
      match w.state with
      | .writingChunks 0 => (w, files, .panicked .overflow)
      | .writingChunks (x + 1) => (w.setState (.writingChunks x), files, .returned (.ok ()))
      | .consolidating =>
          (w, files, .returned (.error ⟨.other, "This should never happen, famous last words"⟩))
  | .returned result => (w, files, .returned result)
  | .panicked fault => (w, files, .panicked fault)

/-- Where a call of `consolidate` stands; the loop over the chunks carries its counter and,
once read, the content of the chunk. -/
inductive ConsolidatePc where
  | enter
  | checkFlags
  | openTarget
  | openChunk (i : ℕ)
  | readChunk (i : ℕ)
  | seek (i : ℕ) (buf : Bytes)
  | writeAll (i : ℕ) (buf : Bytes)
  | syncAll (i : ℕ)
  | removeChunk (i : ℕ)
  | leave
  | returned (result : Except IoError Unit)
  deriving DecidableEq, Repr

/-- The head of the loop over the chunks. -/
def nextChunk (i : ℕ) : ConsolidatePc :=
  if i < w.writingChunk.length then .openChunk i else .leave

/-- One step of `consolidate`. -/
def consolidateStep (files : FileStore) (outcome : Outcome) :
    ConsolidatePc → FileWriter × FileStore × ConsolidatePc
  | .enter =>
      match w.state with
      | .consolidating =>
          (w, files, .returned
            (.error ⟨.other, "Currently consolidating cannot further consolidate"⟩))
      | .writingChunks 0 => (w.setState .consolidating, files, .checkFlags)
      | .writingChunks (_ + 1) =>
          (w, files, .returned (.error ⟨.other, "Currently writing cannot consolidate"⟩))
  | .checkFlags =>
      if w.writingChunk.all (fun flag => !flag) then (w, files, .openTarget)
      else (w, files, .leave)
  | .openTarget =>
      match outcome with
      | .ok => (w, files.insert w.filePath [], w.nextChunk 0)
      | .fails _ => (w, files, .returned (.error osError))
  | .openChunk i =>
      match outcome, files.get (w.chunkPath i) with
      | .ok, some _ => (w, files, .readChunk i)
      | _, _ => (w, files, .returned (.error osError))
  | .readChunk i =>
      match outcome with
      | .ok => (w, files, .seek i ((files.get (w.chunkPath i)).getD []))
      | .fails _ => (w, files, .returned (.error osError))
  | .seek i buf =>
      match outcome with
      | .ok => (w, files, .writeAll i buf)
      | .fails _ => (w, files, .returned (.error osError))
  | .writeAll i buf =>
      match outcome with
      | .ok =>
          (w, FileStore.update files w.filePath (FileStore.writeAt · (i * w.chunkSize) buf),
            .syncAll i)
      | .fails written =>
          (w, FileStore.update files w.filePath
            (FileStore.writeAt · (i * w.chunkSize) (buf.take written)),
            .returned (.error osError))
  | .syncAll i =>
      match outcome with
      | .ok => (w, files, .removeChunk i)
      | .fails _ => (w, files, .returned (.error osError))
  | .removeChunk i =>
      match outcome, files.get (w.chunkPath i) with
      | .ok, some _ => (w, files.erase (w.chunkPath i), w.nextChunk (i + 1))
      | _, _ => (w, files, .returned (.error osError))
  | .leave => (w.setState (.writingChunks 0), files, .returned (.ok ()))
  | .returned result => (w, files, .returned result)

/-- `write_chunk(data, offset)` on its own: no call takes more than ten steps. -/
def writeChunk (files : FileStore) (data : Bytes) (offset : ℕ) (outcomes : ℕ → Outcome) :
    FileWriter × FileStore × WritePc :=
  Transition.runFor (fun outcome s => s.1.writeStep s.2.1 data offset outcome s.2.2) outcomes 10
    (w, files, .check)

/-- `consolidate()` on its own: the longest run takes four steps and six for each chunk. -/
def consolidate (files : FileStore) (outcomes : ℕ → Outcome) :
    FileWriter × FileStore × ConsolidatePc :=
  Transition.runFor (fun outcome s => s.1.consolidateStep s.2.1 outcome s.2.2) outcomes
    (4 + 6 * w.writingChunk.length) (w, files, .enter)

end FileWriter

end Grizol.Model
