import Grizol.Library.Interleaving
import Grizol.Model.FileWriter

/-!
# Calls that share a file writer

Any number of calls of `write_chunk` and `consolidate` on one writer, which take turns
step by step. A consolidating call remembers the files it found when it entered, to
compare what it leaves with.
-/

set_option autoImplicit false

namespace Grizol.Interface

open Grizol.Library Grizol.Model

/-- What the calls share. -/
structure SharedWriter where
  writer : FileWriter
  files : FileStore

/-- A call that has begun: a write with its data, or a consolidation with the files it found. -/
inductive WriterCall where
  | write (data : Bytes) (offset : ℕ) (pc : FileWriter.WritePc)
  | consolidate (pc : FileWriter.ConsolidatePc) (found : FileStore)

namespace WriterCall

/-- One step of a call. -/
def act (outcome : Outcome) : WriterCall → SharedWriter → WriterCall × SharedWriter
  | .write data offset pc, s =>
      let (w, files, pc) := s.writer.writeStep s.files data offset outcome pc
      (.write data offset pc, ⟨w, files⟩)
  | .consolidate pc found, s =>
      let (w, files, pc') := s.writer.consolidateStep s.files outcome pc
      (.consolidate pc' (if pc = .enter then s.files else found), ⟨w, files⟩)

/-- The call is between incrementing and decrementing the counter of the writer. -/
def Writing : WriterCall → Prop
  | .write _ _ .acquire | .write _ _ .openChunk | .write _ _ .setLen | .write _ _ .writeAll
  | .write _ _ .syncAll | .write _ _ .release | .write _ _ .leave => True
  | _ => False

/-- The call is between entering `Consolidating` and returning. -/
def Consolidating : WriterCall → Prop
  | .write _ _ _ => False
  | .consolidate .enter _ | .consolidate (.returned _) _ => False
  | .consolidate _ _ => True

/-- The call has not begun. -/
def Fresh : WriterCall → Prop
  | .write _ _ pc => pc = .check
  | .consolidate pc _ => pc = .enter

/-- A write that returned `Ok`. -/
def Written (c : WriterCall) : Prop := ∃ data offset, c = .write data offset (.returned (.ok ()))

/-- A write that returned an error or panicked. -/
def Failed (c : WriterCall) : Prop :=
  ∃ data offset, (∃ e, c = .write data offset (.returned (.error e))) ∨
    ∃ fault, c = .write data offset (.panicked fault)

end WriterCall

/-- The file holds the chunks in their order, and no file of a chunk is left. -/
structure Consolidated (w : FileWriter) (chunks : List Bytes) (files : FileStore) : Prop where
  content : files.get w.filePath = some chunks.flatten
  size : chunks.flatten.length = w.fileSize
  gone : ∀ i < w.writingChunk.length, files.get (w.chunkPath i) = none

/-- The chunks before the `i`-th, each written at its position. -/
def joined (w : FileWriter) (found : FileStore) (i : ℕ) : Bytes :=
  (List.range i).foldl (fun content j =>
    FileStore.writeAt content (j * w.chunkSize) ((found.get (w.chunkPath j)).getD [])) []

/-- **Writers and consolidators exclude each other.** The last step of a consolidation is
where it returns `Ok`. -/
structure Exclusive {ι : Type} (s : Processes ι WriterCall SharedWriter) : Prop where
  apart : ∀ i j, (s.process i).Writing → ¬ (s.process j).Consolidating
  single : ∀ i j, (s.process i).Consolidating → (s.process j).Consolidating → i = j
  counted : ∀ i data offset, s.process i = .write data offset .leave →
    ∃ n, s.shared.writer.state = .writingChunks (n + 1)
  noPanic : ∀ i data offset fault, s.process i ≠ .write data offset (.panicked fault)
  free : ∀ i, (s.process i).Consolidating →
    s.shared.writer.writingChunk.all (fun flag => !flag) = true
  copied : ∀ i found, s.process i = .consolidate .leave found →
    (∀ j < s.shared.writer.writingChunk.length,
      (found.get (s.shared.writer.chunkPath j)).isSome = true) ∧
    s.shared.files.get s.shared.writer.filePath =
      some (joined s.shared.writer found s.shared.writer.writingChunk.length)

end Grizol.Interface
