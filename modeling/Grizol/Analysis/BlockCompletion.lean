import Grizol.Analysis.BlockMarking
import Grizol.Analysis.ConcurrentWrites
import Grizol.Analysis.WriterRegistry

/-!
# Exactly one handler completes a file

A handler goes through stages: it writes its block, marks it, and what the section that
marks it answers decides the rest. The rows that are marked are those of the handlers
that were answered, so the last one is told that all blocks are there. A handler that
has not been answered has not changed anything but the writer and the file of its
chunk, and until the one that was told enters `consolidate` those change as the calls
of `write_chunk` alone change them.
-/

set_option autoImplicit false

namespace Grizol.Analysis

open Grizol.Library
open Grizol.Model Grizol.Model.Syncthing Grizol.Interface

/-! ## The assumptions -/

section Blocks

/-- The position of a block in the file. -/
def blockOffset (file : FileInfo) (i : Fin file.blocks.length) : ℕ :=
  (file.blocks.get i).offset.toInt.toNat

variable {file : FileInfo}

/-- Every block of a tiled file is one of its pieces. -/
theorem blockOffset_of_tiled (htiled : Tiled file) (i : Fin file.blocks.length) :
    ∃ k < chunkCount (byteSize file) (blockBytes file),
      (file.blocks.get i).offset.toInt = ((k * blockBytes file : ℕ) : ℤ) ∧
      blockOffset file i = k * blockBytes file ∧
      (file.blocks.get i).size.toInt =
        ((min (blockBytes file) (byteSize file - k * blockBytes file) : ℕ) : ℤ) := by
  have hmem : ((file.blocks.get i).offset.toInt, (file.blocks.get i).size.toInt) ∈
      file.blocks.map fun b => (b.offset.toInt, b.size.toInt) :=
    List.mem_map_of_mem (List.getElem_mem _)
  obtain ⟨k, hk, hpiece⟩ := List.mem_map.mp (htiled.blocks.mem_iff.mp hmem)
  rw [Prod.mk.injEq] at hpiece
  refine ⟨k, List.mem_range.mp hk, hpiece.1.symm, ?_, hpiece.2.symm⟩
  rw [blockOffset, ← hpiece.1, Int.toNat_natCast]

/-- Every piece of a tiled file is one of its blocks. -/
theorem exists_block_of_tiled (htiled : Tiled file) {k : ℕ}
    (hk : k < chunkCount (byteSize file) (blockBytes file)) :
    ∃ i : Fin file.blocks.length, (file.blocks.get i).offset.toInt = ((k * blockBytes file : ℕ) : ℤ) := by
  have hmem := htiled.blocks.mem_iff.mpr
    (List.mem_map_of_mem (f := fun i => (((i * blockBytes file : ℕ) : ℤ),
      ((min (blockBytes file) (byteSize file - i * blockBytes file) : ℕ) : ℤ)))
      (List.mem_range.mpr hk))
  obtain ⟨b, hb, hpiece⟩ := List.mem_map.mp hmem
  obtain ⟨i, hi, rfl⟩ := List.mem_iff_getElem.mp hb
  exact ⟨⟨i, hi⟩, (Prod.mk.inj hpiece).1⟩

/-- Two blocks of a tiled file are at different positions. -/
theorem blockOffset_injective (htiled : Tiled file) {i j : Fin file.blocks.length}
    (h : blockOffset file i = blockOffset file j) : i = j := by
  have hpos : 0 < blockBytes file := by
    have hblockSize := htiled.blockSize
    unfold blockBytes
    omega
  have hnodup : ((List.range (chunkCount (byteSize file) (blockBytes file))).map fun i =>
      (((i * blockBytes file : ℕ) : ℤ),
        ((min (blockBytes file) (byteSize file - i * blockBytes file) : ℕ) : ℤ))).Nodup := by
    apply List.Nodup.map _ List.nodup_range
    intro a b hab
    have hoffset := Int.natCast_inj.mp (Prod.mk.inj hab).1
    exact Nat.eq_of_mul_eq_mul_right hpos hoffset
  have hblocks := htiled.blocks.nodup_iff.mpr hnodup
  obtain ⟨k, -, hoffset, hk, hsize⟩ := blockOffset_of_tiled htiled i
  obtain ⟨l, -, hoffset', hl, hsize'⟩ := blockOffset_of_tiled htiled j
  obtain rfl : k = l := Nat.eq_of_mul_eq_mul_right hpos (hk.symm.trans (h.trans hl))
  have hpiece : (file.blocks.map fun b => (b.offset.toInt, b.size.toInt)).get
        ⟨i, by rw [List.length_map]; exact i.isLt⟩ =
      (file.blocks.map fun b => (b.offset.toInt, b.size.toInt)).get
        ⟨j, by rw [List.length_map]; exact j.isLt⟩ := by
    rw [List.get_eq_getElem, List.get_eq_getElem, List.getElem_map, List.getElem_map,
      Prod.mk.injEq]
    exact ⟨hoffset.trans hoffset'.symm, hsize.trans hsize'.symm⟩
  exact Fin.ext (Fin.mk.inj (hblocks.get_inj_iff.mp hpiece))

end Blocks

/-- What the handlers of the responses rely on: `request` are the requests they find, `w₀` is
the writer of the file before any block is written. -/
structure Answers (hash : String → ℕ → ℕ → UInt64) (sha256 : Bytes → Bytes) (p₀ : BepProcessor)
    (folder : String) (file : FileInfo) (responses : Fin file.blocks.length → Response)
    (request : Fin file.blocks.length → Request) (w₀ : FileWriter) : Prop where
  tiled : Tiled file
  many : 8 * file.blocks.length ≤ BepState.maxVariables
  ids : ∀ i j, (responses i).id = (responses j).id → i = j
  asks : ∀ i, AsksFor folder file (file.blocks.get i) (request i)
  data : ∀ i, sha256 (responses i).data = (file.blocks.get i).hash
  directory : StorageManager.hasParent (p₀.storageManager.absPath (writerKey folder file)) = true
  writer : FileWriter.new hash (p₀.storageManager.absPath (writerKey folder file))
    (byteSize file) (blockBytes file) = .ok w₀
  good : ∀ i, GoodChunk (responses i).data (blockOffset file i) w₀
  apart : ∀ i j, blockOffset file i / w₀.chunkSize = blockOffset file j / w₀.chunkSize → i = j

/-! ## The stages of a handler -/

section Stages

/-- Where a handler is that was told that all blocks are there, once it looked the writer up. -/
def Finishing : ResponsePc → Prop
  | .consolidate _ _ | .copy _ _ _ _ | .updateLocations _ _ | .removeLocations _
  | .removeFile _ | .removeRequest _ | .returned _ | .panicked _ => True
  | _ => False

/-- Where the others are that were told. -/
def Leaving : ResponsePc → Prop
  | .removeRequest _ | .returned _ | .panicked _ => True
  | _ => False

/-- The stages of the handler of a response when no file operation fails. -/
inductive Stage (file : FileInfo) (response : Response) (request : Request) (offset : ℕ) :
    ResponseHandler → Prop
  | getRequest : Stage file response request offset (.new response)
  | fileInfo : Stage file response request offset ⟨response, .fileInfo request, none, none⟩
  | createDir : Stage file response request offset
      ⟨response, .createDir request (byteSize file) (blockBytes file), none, none⟩
  | openWriter : Stage file response request offset
      ⟨response, .openWriter request (byteSize file) (blockBytes file), none, none⟩
  | writeChunk (pc : FileWriter.WritePc) : Stage file response request offset
      ⟨response, .writeChunk request (byteSize file) (blockBytes file) offset pc, none, none⟩
  | updateState : Stage file response request offset
      ⟨response, .updateState request (byteSize file) (blockBytes file), some (.ok ()), none⟩
  | concludeWriter : Stage file response request offset
      ⟨response, .concludeWriter request (byteSize file) (blockBytes file), some (.ok ()),
        some (.ok .allBlocks)⟩
  | finishing {pc : ResponsePc} (hpc : Finishing pc) : Stage file response request offset
      ⟨response, pc, some (.ok ()), some (.ok .allBlocks)⟩
  | leaving {pc : ResponsePc} (hpc : Leaving pc) : Stage file response request offset
      ⟨response, pc, some (.ok ()), some (.ok .blocksMissing)⟩

/-- Where the call of `write_chunk` stands that a handler makes. -/
def writePc : ResponsePc → FileWriter.WritePc
  | .getRequest | .fileInfo _ | .createDir _ _ _ | .openWriter _ _ _ => .check
  | .writeChunk _ _ _ _ pc => pc
  | _ => .returned (.ok ())

/-- The handler has looked the writer of its file up. -/
def Opened : ResponsePc → Prop
  | .getRequest | .fileInfo _ | .createDir _ _ _ | .openWriter _ _ _ => False
  | _ => True

/-- The turns a handler still takes at most until its block is marked. -/
def statusStepsLeft (h : ResponseHandler) : ℕ :=
  match h.pc with
  | .getRequest => 15
  | .fileInfo _ => 14
  | .createDir _ _ _ => 13
  | .openWriter _ _ _ => 12
  | .writeChunk _ _ _ _ pc => writeStepsLeft pc + 2
  | .updateState _ _ _ => 1
  | _ => 0

variable {file : FileInfo} {response : Response} {request : Request} {offset : ℕ}
  {h : ResponseHandler}

/-- A handler that was told had written its block, and there was room for it. -/
theorem Stage.told (hstage : Stage file response request offset h)
    (htold : h.uploadStatus.isSome = true) :
    h.stored = some (.ok ()) ∧ writePc h.pc = .returned (.ok ()) ∧ Opened h.pc ∧
      statusStepsLeft h = 0 := by
  cases hstage with
  | getRequest | fileInfo | createDir | openWriter | writeChunk pc | updateState => cases htold
  | concludeWriter => exact ⟨rfl, rfl, trivial, rfl⟩
  | finishing hpc =>
      rename_i pc
      cases pc <;> first | exact hpc.elim | exact ⟨rfl, rfl, trivial, rfl⟩
  | leaving hpc =>
      rename_i pc
      cases pc <;> first | exact hpc.elim | exact ⟨rfl, rfl, trivial, rfl⟩

/-- At no stage has the status failed. -/
theorem Stage.noError (hstage : Stage file response request offset h) (e : String) :
    h.uploadStatus ≠ some (.error e) := by
  cases hstage <;> (intro herror; cases herror)

/-- A handler that takes no more turns for its status was told. -/
theorem Stage.told_of_left (hstage : Stage file response request offset h)
    (hleft : statusStepsLeft h = 0) : h.uploadStatus.isSome = true := by
  cases hstage with
  | getRequest | fileInfo | createDir | openWriter | updateState => cases hleft
  | writeChunk pc => exact absurd hleft (Nat.succ_ne_zero _)
  | concludeWriter => rfl
  | finishing hpc => rfl
  | leaving hpc => rfl

end Stages

/-! ## One turn -/

section Turns

/-- What the processor keeps for the handlers: the sizes of the file, the rows that are marked,
and the requests of the blocks that are not. -/
structure Shared (p₀ : BepProcessor) (folder : String) (file : FileInfo)
    (responses : Fin file.blocks.length → Response) (request : Fin file.blocks.length → Request)
    (marked : Fin file.blocks.length → Bool) (p : BepProcessor) : Prop where
  config : p.config = p₀.config
  manager : p.storageManager.config = p₀.storageManager.config
  row : ∃ row, p.state.db.bepFileInfo.get ⟨folder, p₀.config.localDeviceId, file.name⟩ = some row ∧
    row.size = file.size ∧ row.blockSize = file.blockSize
  blocks : p.state.db.blockRowsOf ⟨folder, p₀.config.localDeviceId, file.name⟩ =
    markedRows ⟨folder, p₀.config.localDeviceId, file.name⟩ file marked
  requests : ∀ i, marked i = false →
    p.state.outgoingRequests.get (responses i).id = some (request i)

/-- The writer of the file; before it is looked up it is the one that will be made. -/
def currentWriter (folder : String) (file : FileInfo) (w₀ : FileWriter) (p : BepProcessor) :
    FileWriter :=
  (p.storageManager.fileWriters.get (writerKey folder file)).getD w₀

variable {hash : String → ℕ → ℕ → UInt64} {sha256 : Bytes → Bytes}
  {debugRequest : Request → String} {p₀ p : BepProcessor} {folder : String} {file : FileInfo}
  {responses : Fin file.blocks.length → Response} {request : Fin file.blocks.length → Request}
  {w₀ : FileWriter} {marked : Fin file.blocks.length → Bool}

/-- A turn of a handler whose block is not marked: `h` and `p` become `h'` and `p'`. -/
structure WaitingTurn (p₀ : BepProcessor) (folder : String) (file : FileInfo)
    (responses : Fin file.blocks.length → Response) (request : Fin file.blocks.length → Request)
    (w₀ : FileWriter) (marked : Fin file.blocks.length → Bool) (i : Fin file.blocks.length)
    (h : ResponseHandler) (p : BepProcessor) (h' : ResponseHandler) (p' : BepProcessor) : Prop where
  stage : Stage file (responses i) (request i) (blockOffset file i) h'
  left : statusStepsLeft h' ≤ statusStepsLeft h - 1
  shared : Shared p₀ folder file responses request
    (Function.update marked i h'.uploadStatus.isSome) p'
  status : h'.uploadStatus = none ∨
    h'.uploadStatus = some (.ok (if ∀ j, Function.update marked i true j = true then .allBlocks
      else .blocksMissing))
  writes : (currentWriter folder file w₀ p', p'.storageManager.disk, writePc h'.pc) =
      (currentWriter folder file w₀ p, p.storageManager.disk, writePc h.pc) ∨
    (currentWriter folder file w₀ p', p'.storageManager.disk, writePc h'.pc) =
      (currentWriter folder file w₀ p).writeStep p.storageManager.disk (responses i).data
        (blockOffset file i) .ok (writePc h.pc)
  opened : (Opened h'.pc ∨
      (p.storageManager.fileWriters.get (writerKey folder file)).isSome = true) →
    (p'.storageManager.fileWriters.get (writerKey folder file)).isSome = true
  concluding : GotAllBlocks h' → Concluding h'

/-- A turn that changes no more than the stage. -/
theorem WaitingTurn.of_stage {i : Fin file.blocks.length} {h h' : ResponseHandler}
    (hshared : Shared p₀ folder file responses request marked p) (hmarked : marked i = false)
    (hstage : Stage file (responses i) (request i) (blockOffset file i) h')
    (hleft : statusStepsLeft h' ≤ statusStepsLeft h - 1) (hnone : h'.uploadStatus = none)
    (hwrites : writePc h'.pc = writePc h.pc) (hopened : ¬ Opened h'.pc) :
    WaitingTurn p₀ folder file responses request w₀ marked i h p h' p where
  stage := hstage
  left := hleft
  shared := by
    rw [hnone, Option.isSome_none, ← hmarked, Function.update_eq_self]
    exact hshared
  status := Or.inl hnone
  writes := Or.inl (by rw [hwrites])
  opened := by
    rintro (hnew | hsome)
    · exact absurd hnew hopened
    · exact hsome
  concluding := by
    intro hgot
    rw [GotAllBlocks, hnone] at hgot
    cases hgot

variable {i : Fin file.blocks.length} {outcome : TurnOutcome}

/-- The request of a block is for the file. -/
theorem Answers.key (ha : Answers hash sha256 p₀ folder file responses request w₀)
    (i : Fin file.blocks.length) :
    StorageManager.fileRelPath (request i) = writerKey folder file := by
  rw [StorageManager.fileRelPath, (ha.asks i).folder, (ha.asks i).name]
  rfl

/-- The writer has the sizes and the path of the file. -/
theorem Answers.blockBytes_pos (ha : Answers hash sha256 p₀ folder file responses request w₀) :
    w₀.chunkSize = blockBytes file ∧ w₀.fileSize = byteSize file ∧
      w₀.filePath = p₀.storageManager.absPath (writerKey folder file) := by
  obtain ⟨hpath, hsize, hchunk, -⟩ := new_spec ha.writer
  exact ⟨hchunk, hsize, hpath⟩

/-- The paths of the manager are those at the start. -/
theorem Shared.absPath (hshared : Shared p₀ folder file responses request marked p) (key : String) :
    p.storageManager.absPath key = p₀.storageManager.absPath key := by
  rw [StorageManager.absPath, StorageManager.absPath, hshared.manager]

/-- The turns before the writer is looked up. -/
theorem waitingTurn_before (ha : Answers hash sha256 p₀ folder file responses request w₀)
    (hshared : Shared p₀ folder file responses request marked p) (hmarked : marked i = false)
    (hok : outcome.file = .ok) {h : ResponseHandler}
    (hbefore : h = .new (responses i) ∨ h = ⟨responses i, .fileInfo (request i), none, none⟩ ∨
      h = ⟨responses i, .createDir (request i) (byteSize file) (blockBytes file), none, none⟩) :
    WaitingTurn p₀ folder file responses request w₀ marked i h p
      (h.act hash sha256 debugRequest p outcome).1
      (h.act hash sha256 debugRequest p outcome).2 := by
  rcases hbefore with rfl | rfl | rfl
  · have hact : ResponseHandler.act hash sha256 debugRequest (.new (responses i)) p outcome =
        (⟨responses i, .fileInfo (request i), none, none⟩, p) := by
      unfold ResponseHandler.act
      dsimp only [ResponseHandler.new, BepState.getRequest]
      rw [hshared.requests i hmarked]
      rfl
    rw [hact]
    exact WaitingTurn.of_stage hshared hmarked .fileInfo (Nat.le_refl _) rfl rfl id
  · have hdata : BepProcessor.checkData sha256 (responses i).data (request i).hash = .ok () := by
      rw [BepProcessor.checkData, ha.data i, (ha.asks i).hash]
      exact if_pos rfl
    obtain ⟨row, hrow, hsize, hblockSize⟩ := hshared.row
    have hsizes : BepProcessor.toSize row.size.toInt = .ok (byteSize file) ∧
        BepProcessor.toSize row.blockSize.toInt = .ok (blockBytes file) := by
      have hfile := ha.tiled.size
      have hblock := ha.tiled.blockSize
      rw [hsize, hblockSize, toSize_eq_ok, toSize_eq_ok, byteSize, blockBytes]
      omega
    have hact : ResponseHandler.act hash sha256 debugRequest
        ⟨responses i, .fileInfo (request i), none, none⟩ p outcome =
        (⟨responses i, .createDir (request i) (byteSize file) (blockBytes file), none, none⟩, p) := by
      unfold ResponseHandler.act
      dsimp only [ResponseHandler.actFileInfo]
      rw [hdata, BepState.fileInfo, (ha.asks i).folder, (ha.asks i).name, hshared.config, hrow]
      dsimp only [Option.map_some, FileRow.toFileInfo]
      rw [hsizes.1, hsizes.2]
      rfl
    rw [hact]
    exact WaitingTurn.of_stage hshared hmarked .createDir (Nat.le_refl _) rfl rfl id
  · have hact : ResponseHandler.act hash sha256 debugRequest
        ⟨responses i, .createDir (request i) (byteSize file) (blockBytes file), none, none⟩ p
          outcome =
        (⟨responses i, .openWriter (request i) (byteSize file) (blockBytes file), none, none⟩, p) := by
      unfold ResponseHandler.act
      dsimp only [ResponseHandler.actCreateDir]
      rw [ha.key, hshared.absPath, if_pos ha.directory, hok]
      rfl
    rw [hact]
    exact WaitingTurn.of_stage hshared hmarked .openWriter (Nat.le_refl _) rfl rfl id

/-- The turn that looks the writer up. -/
theorem waitingTurn_openWriter (ha : Answers hash sha256 p₀ folder file responses request w₀)
    (hshared : Shared p₀ folder file responses request marked p) (hmarked : marked i = false) :
    let h : ResponseHandler :=
      ⟨responses i, .openWriter (request i) (byteSize file) (blockBytes file), none, none⟩
    WaitingTurn p₀ folder file responses request w₀ marked i h p
      (h.act hash sha256 debugRequest p outcome).1
      (h.act hash sha256 debugRequest p outcome).2 := by
  intro h
  have hwriter : FileWriter.new hash (p.storageManager.absPath (writerKey folder file))
      (byteSize file) (blockBytes file) = .ok w₀ := by
    rw [hshared.absPath]
    exact ha.writer
  obtain ⟨k, -, hoffset, -⟩ := blockOffset_of_tiled ha.tiled i
  have husize : StorageManager.toUsize (request i).offset = some (blockOffset file i) := by
    rw [(ha.asks i).offset, StorageManager.toUsize, if_pos (by omega)]
    rfl
  have hact : h.act hash sha256 debugRequest p outcome =
      (⟨responses i, .writeChunk (request i) (byteSize file) (blockBytes file)
        (blockOffset file i) .check, none, none⟩,
      { p with storageManager := { p.storageManager with
          fileWriters := (p.storageManager.fileWriters.entryOrInsert (writerKey folder file)
            w₀).1 } }) := by
    unfold ResponseHandler.act
    dsimp only [h, ResponseHandler.actOpenWriter]
    rw [ha.key, ResponseHandler.continueWith, BepProcessor.onStorage_eq_ok
      (entryWriter_run hash p.storageManager (writerKey folder file) hwriter), husize]
    rfl
  have hget : (p.storageManager.fileWriters.entryOrInsert (writerKey folder file) w₀).1.get
      (writerKey folder file) = some (currentWriter folder file w₀ p) := by
    rw [AssocMap.get_entryOrInsert, if_pos rfl]
    rfl
  rw [hact]
  refine ⟨.writeChunk _, Nat.le_refl _, ?_, Or.inl rfl, Or.inl ?_, ?_, fun h => by cases h⟩
  · rw [Option.isSome_none, ← hmarked, Function.update_eq_self]
    exact ⟨hshared.config, hshared.manager, hshared.row, hshared.blocks, hshared.requests⟩
  · rw [currentWriter, hget]
    rfl
  · intro _
    dsimp only
    rw [hget]
    rfl

/-- A step of `write_chunk` that does not fail. -/
theorem waitingTurn_writeChunk (ha : Answers hash sha256 p₀ folder file responses request w₀)
    (hshared : Shared p₀ folder file responses request marked p) (hmarked : marked i = false)
    (hok : outcome.file = .ok) (pc : FileWriter.WritePc)
    (hopened : (p.storageManager.fileWriters.get (writerKey folder file)).isSome = true)
    (hway : UnderWay ((currentWriter folder file w₀ p).writeStep p.storageManager.disk
      (responses i).data (blockOffset file i) .ok pc).2.2) :
    let h : ResponseHandler := ⟨responses i, .writeChunk (request i) (byteSize file)
      (blockBytes file) (blockOffset file i) pc, none, none⟩
    WaitingTurn p₀ folder file responses request w₀ marked i h p
      (h.act hash sha256 debugRequest p outcome).1
      (h.act hash sha256 debugRequest p outcome).2 := by
  intro h
  obtain ⟨w, hget⟩ := Option.isSome_iff_exists.mp hopened
  have hcurrent : currentWriter folder file w₀ p = w := by
    rw [currentWriter, hget]
    rfl
  rw [hcurrent] at hway
  have hleft := writeStep_stepsLeft (responses i).data (blockOffset file i) w
    p.storageManager.disk .ok pc
  obtain ⟨w', disk', pc', hstep⟩ : ∃ w' disk' pc', w.writeStep p.storageManager.disk
      (responses i).data (blockOffset file i) .ok pc = (w', disk', pc') := ⟨_, _, _, rfl⟩
  rw [hstep] at hway hleft
  dsimp only at hway hleft
  -- the handler goes on with `update_block_storage_state` when the call returned
  obtain ⟨h', hact, hstage, hnone, hpc, hmeasure⟩ : ∃ h',
      h.act hash sha256 debugRequest p outcome = (h', { p with storageManager :=
        { p.storageManager with
          fileWriters := p.storageManager.fileWriters.insert (writerKey folder file) w'
          disk := disk' } }) ∧
      Stage file (responses i) (request i) (blockOffset file i) h' ∧ h'.uploadStatus = none ∧
      writePc h'.pc = pc' ∧ statusStepsLeft h' ≤ writeStepsLeft pc + 1 := by
    unfold ResponseHandler.act
    dsimp only [h, ResponseHandler.actWriteChunk]
    rw [ha.key, hget]
    dsimp only
    rw [hok, hstep]
    cases pc' with
    | panicked fault => exact hway.elim
    | returned result =>
        cases result with
        | error e => exact hway.elim
        | ok _ =>
            refine ⟨_, rfl, .updateState, rfl, rfl, ?_⟩
            exact Nat.le_add_left _ _
    | check | openEmpty | enter | acquire | openChunk | setLen | writeAll | syncAll | release
    | leave =>
        refine ⟨_, rfl, .writeChunk _, rfl, rfl, ?_⟩
        simp only [statusStepsLeft, ResponseHandler.goto, writeStepsLeft] at hleft ⊢
        omega
  have hget' : (p.storageManager.fileWriters.insert (writerKey folder file) w').get
      (writerKey folder file) = some w' := AssocMap.get_insert_self _ _ _
  rw [hact]
  refine ⟨hstage, hmeasure, ?_, Or.inl hnone, Or.inr ?_, ?_, ?_⟩
  · rw [hnone, Option.isSome_none, ← hmarked, Function.update_eq_self]
    exact ⟨hshared.config, hshared.manager, hshared.row, hshared.blocks, hshared.requests⟩
  · rw [hcurrent, hpc]
    dsimp only [h, writePc]
    rw [hstep, currentWriter, hget']
    rfl
  · intro _
    dsimp only
    rw [hget']
    rfl
  · intro hgot
    rw [GotAllBlocks, hnone] at hgot
    cases hgot

/-- Where the answer of `update_block_storage_state` sends a handler. -/
def afterStatus (file : FileInfo) (request : Request) : UploadStatus → ResponsePc
  | .blocksMissing => .removeRequest (.ok ())
  | .allBlocks => .concludeWriter request (byteSize file) (blockBytes file)

/-- The section that marks the block. -/
theorem waitingTurn_updateState (ha : Answers hash sha256 p₀ folder file responses request w₀)
    (hshared : Shared p₀ folder file responses request marked p) (hmarked : marked i = false)
    (hopened : (p.storageManager.fileWriters.get (writerKey folder file)).isSome = true) :
    let h : ResponseHandler := ⟨responses i, .updateState (request i) (byteSize file)
      (blockBytes file), some (.ok ()), none⟩
    WaitingTurn p₀ folder file responses request w₀ marked i h p
      (h.act hash sha256 debugRequest p outcome).1
      (h.act hash sha256 debugRequest p outcome).2 := by
  intro h
  obtain ⟨row, hrow, hsize, hblockSize⟩ := hshared.row
  have hmarks := updateBlockStorageState_marks ha.tiled ha.many hrow hsize hblockSize
    hshared.blocks (hshared.requests i hmarked) (ha.asks i)
  have hrows := blockRowsOf_mark hshared.blocks ha.tiled.hashes i
  generalize hall : (if ∀ j, Function.update marked i true j = true then UploadStatus.allBlocks
    else .blocksMissing) = status at hmarks
  have hact : h.act hash sha256 debugRequest p outcome =
      ({ h with
        pc := afterStatus file (request i) status
        uploadStatus := some (.ok status) },
      { p with state := { p.state with
          db := markHash p.state.db ⟨folder, p₀.config.localDeviceId, file.name⟩
            (file.blocks.get i).hash } }) := by
    rw [← hshared.config] at hmarks ⊢
    unfold ResponseHandler.act
    dsimp only [h, ResponseHandler.actUpdateState]
    rw [ResponseHandler.continueWith, BepProcessor.onState_eq_ok hmarks]
    cases status <;> rfl
  have hstage : Stage file (responses i) (request i) (blockOffset file i)
      { h with
        pc := afterStatus file (request i) status
        uploadStatus := some (.ok status) } := by
    cases status with
    | blocksMissing => exact .leaving trivial
    | allBlocks => exact .concludeWriter
  obtain ⟨-, hpc, -, hleft⟩ := hstage.told rfl
  rw [hact]
  refine ⟨hstage, ?_, ?_, Or.inr ?_, Or.inl ?_, fun _ => hopened, ?_⟩
  · rw [hleft]
    exact Nat.zero_le _
  · refine ⟨hshared.config, hshared.manager, ⟨row, hrow, hsize, hblockSize⟩, hrows, ?_⟩
    intro j hj
    apply hshared.requests
    by_cases hji : j = i
    · subst hji
      exact hmarked
    · rwa [Function.update_of_ne hji] at hj
  · rw [hall]
  · rw [hpc]
    rfl
  · intro hgot
    obtain rfl : status = .allBlocks := Except.ok.inj (Option.some.inj hgot)
    exact Or.inl ⟨_, _, _, rfl⟩

/-- A turn of a handler that was told the status of its file. -/
structure ToldTurn (p₀ : BepProcessor) (folder : String) (file : FileInfo)
    (responses : Fin file.blocks.length → Response) (request : Fin file.blocks.length → Request)
    (marked : Fin file.blocks.length → Bool) (i : Fin file.blocks.length)
    (h : ResponseHandler) (p : BepProcessor) (h' : ResponseHandler) (p' : BepProcessor) : Prop where
  stage : Stage file (responses i) (request i) (blockOffset file i) h'
  status : h'.uploadStatus = h.uploadStatus
  shared : Shared p₀ folder file responses request marked p'
  writes : (GotAllBlocks h' ∧ ¬ Concluding h') ∨
    ∀ w, p.storageManager.fileWriters.get (writerKey folder file) = some w →
      p'.storageManager.fileWriters.get (writerKey folder file) = some w ∧
        p'.storageManager.disk = p.storageManager.disk
  concluding : Concluding h' → Concluding h

/-- A handler that neither makes the writer nor enters is not concluding. -/
theorem not_concluding {h : ResponseHandler} (hwriter : ∀ request fileSize blockSize,
      h.pc ≠ .concludeWriter request fileSize blockSize)
    (henter : ∀ request, h.pc ≠ .consolidate request .enter) : ¬ Concluding h := by
  rintro (⟨request, fileSize, blockSize, hpc⟩ | ⟨request, hpc⟩)
  · exact hwriter _ _ _ hpc
  · exact henter _ hpc

/-- No step of `consolidate` leads back to where it enters. -/
theorem consolidateStep_ne_enter (w : FileWriter) (files : FileStore) (outcome : Outcome)
    (pc : FileWriter.ConsolidatePc) : (w.consolidateStep files outcome pc).2.2 ≠ .enter := by
  have hnext : ∀ i, w.nextChunk i ≠ .enter := by
    intro i
    unfold FileWriter.nextChunk
    split_ifs <;> (intro h; cases h)
  cases pc with
  | enter | checkFlags =>
      simp only [FileWriter.consolidateStep]
      split <;> (intro h; cases h)
  | openTarget =>
      cases outcome with
      | ok => exact hnext 0
      | fails n =>
          intro h
          cases h
  | openChunk i =>
      simp only [FileWriter.consolidateStep]
      split <;> (intro h; cases h)
  | readChunk i | seek i buf | writeAll i buf | syncAll i => cases outcome <;> (intro h; cases h)
  | removeChunk i =>
      simp only [FileWriter.consolidateStep]
      split
      · exact hnext (i + 1)
      · intro h
        cases h
  | leave | returned result =>
      intro h
      cases h

/-- What a turn leaves of the state is enough for the others. -/
theorem Shared.of_rows {p' : BepProcessor} (hshared : Shared p₀ folder file responses request marked p)
    (hconfig : p'.config = p.config) (hmanager : p'.storageManager.config = p.storageManager.config)
    (hfiles : p'.state.db.bepFileInfo = p.state.db.bepFileInfo)
    (hblocks : p'.state.db.bepBlockInfo = p.state.db.bepBlockInfo)
    (hqueue : ∀ j, marked j = false → p'.state.outgoingRequests.get (responses j).id =
      p.state.outgoingRequests.get (responses j).id) :
    Shared p₀ folder file responses request marked p' := by
  refine ⟨hconfig.trans hshared.config, hmanager.trans hshared.manager, ?_, ?_, ?_⟩
  · rw [hfiles]
    exact hshared.row
  · have hrows := hshared.blocks
    unfold Database.blockRowsOf at hrows ⊢
    rw [hblocks]
    exact hrows
  · intro j hj
    rw [hqueue j hj]
    exact hshared.requests j hj

/-- The shared part after a turn of a handler that was told. -/
theorem shared_told (ha : Answers hash sha256 p₀ folder file responses request w₀)
    (hshared : Shared p₀ folder file responses request marked p) (hmarked : marked i = true)
    {h : ResponseHandler} (hresponse : h.response = responses i)
    (hpc : ∀ request fileSize blockSize, h.pc ≠ .updateState request fileSize blockSize)
    (hmanager : (h.act hash sha256 debugRequest p outcome).2.storageManager.config =
      p.storageManager.config) :
    Shared p₀ folder file responses request marked (h.act hash sha256 debugRequest p outcome).2 := by
  obtain ⟨hstate, hconfig⟩ := @act_state hash sha256 debugRequest h p outcome
  obtain ⟨hfiles, hblocks, hqueue⟩ := stateAfter_told h p hpc
  rw [← hstate] at hfiles hblocks hqueue
  apply hshared.of_rows hconfig hmanager hfiles hblocks
  intro j hj
  apply hqueue
  intro hid
  rw [hresponse] at hid
  rw [ha.ids j i hid, hmarked] at hj
  cases hj

/-- A handler that concludes goes on until it returns, unless the writer is gone. -/
theorem act_finishing {h : ResponseHandler} (hpc : Finishing h.pc) :
    ∃ pc', (h.act hash sha256 debugRequest p outcome).1 = h.goto pc' ∧ Finishing pc' ∧
      (h.act hash sha256 debugRequest p outcome).2.storageManager.config =
        p.storageManager.config ∧
      ((∀ r, pc' ≠ .consolidate r .enter) ∨
        pc' = h.pc ∧ (h.act hash sha256 debugRequest p outcome).2 = p) := by
  obtain ⟨response, pc, stored, uploadStatus⟩ := h
  unfold ResponseHandler.act
  cases pc with
  | getRequest | fileInfo | createDir | openWriter | writeChunk | updateState
  | concludeWriter => exact hpc.elim
  | consolidate r pc =>
      dsimp only [ResponseHandler.actConsolidate]
      split
      · exact ⟨.consolidate r pc, rfl, trivial, rfl, Or.inr ⟨rfl, rfl⟩⟩
      · rename_i w hget
        dsimp only
        have hne := consolidateStep_ne_enter w p.storageManager.disk outcome.file pc
        split
        · exact ⟨_, rfl, trivial, rfl, Or.inl fun _ h => by cases h⟩
        · exact ⟨_, rfl, trivial, rfl, Or.inl fun _ h => by cases h⟩
        · refine ⟨_, rfl, trivial, rfl, Or.inl ?_⟩
          intro r' hpc'
          exact hne (ResponsePc.consolidate.inj hpc').2
  | copy r n storageBackends copied =>
      cases storageBackends with
      | nil => exact ⟨_, rfl, trivial, rfl, Or.inl fun _ h => by cases h⟩
      | cons b rest =>
          dsimp only [ResponseHandler.actCopy]
          cases outcome.command with
          | notStarted | waitFails => exact ⟨_, rfl, trivial, rfl, Or.inl fun _ h => by cases h⟩
          | exits success => exact ⟨_, rfl, trivial, rfl, Or.inl fun _ h => by cases h⟩
  | updateLocations r locations =>
      dsimp only [ResponseHandler.actUpdateLocations]
      rw [continueWith_snd, BepProcessor.onState_run]
      rcases continueWith_fst _ p _ _ with ⟨a, hnext⟩ | ⟨e, hnext⟩
      · rw [hnext]
        split_ifs <;> exact ⟨_, rfl, trivial, rfl, Or.inl fun _ h => by cases h⟩
      · rw [hnext]
        exact ⟨_, rfl, trivial, rfl, Or.inl fun _ h => by cases h⟩
  | removeLocations r | removeRequest stored =>
      dsimp only [ResponseHandler.actRemoveLocations, ResponseHandler.actRemoveRequest]
      rw [continueWith_snd, BepProcessor.onState_run]
      rcases continueWith_fst _ p _ _ with ⟨a, hnext⟩ | ⟨e, hnext⟩
      all_goals
        rw [hnext]
        exact ⟨_, rfl, trivial, rfl, Or.inl fun _ h => by cases h⟩
  | removeFile r =>
      dsimp only [ResponseHandler.actRemoveFile]
      rw [continueWith_snd, BepProcessor.onStorage_run]
      have hconfig : (RustM.endState ((StorageManager.rmLocalFile r.folder r.name
          outcome.file).run p.storageManager)).config = p.storageManager.config := by
        rw [StorageManager.rmLocalFile, EStateM.run_bind, RustM.run_getThe]
        dsimp only
        split <;> rfl
      rcases continueWith_fst _ p _ _ with ⟨a, hnext⟩ | ⟨e, hnext⟩
      all_goals
        rw [hnext]
        exact ⟨_, rfl, trivial, hconfig, Or.inl fun _ h => by cases h⟩
  | returned result | panicked fault =>
      exact ⟨_, rfl, trivial, rfl, Or.inl fun _ h => by cases h⟩

/-- A handler whose file is not complete leaves the writers alone. -/
theorem act_leaving {h : ResponseHandler} (hpc : Leaving h.pc) :
    ∃ pc', (h.act hash sha256 debugRequest p outcome).1 = h.goto pc' ∧ Leaving pc' ∧
      (h.act hash sha256 debugRequest p outcome).2.storageManager = p.storageManager := by
  obtain ⟨response, pc, stored, uploadStatus⟩ := h
  unfold ResponseHandler.act
  cases pc with
  | removeRequest stored =>
      dsimp only [ResponseHandler.actRemoveRequest]
      rw [continueWith_snd, BepProcessor.onState_run]
      rcases continueWith_fst _ p _ _ with ⟨a, hnext⟩ | ⟨e, hnext⟩
      all_goals
        rw [hnext]
        exact ⟨_, rfl, trivial, rfl⟩
  | returned result | panicked fault => exact ⟨_, rfl, trivial, rfl⟩
  | getRequest | fileInfo | createDir | openWriter | writeChunk | updateState | concludeWriter
  | consolidate | copy | updateLocations | removeLocations | removeFile => exact hpc.elim

/-- A turn of a handler that was told. -/
theorem toldTurn (ha : Answers hash sha256 p₀ folder file responses request w₀)
    (hshared : Shared p₀ folder file responses request marked p) (hmarked : marked i = true)
    {h : ResponseHandler} (hstage : Stage file (responses i) (request i) (blockOffset file i) h)
    (htold : h.uploadStatus.isSome = true) :
    ToldTurn p₀ folder file responses request marked i h p
      (h.act hash sha256 debugRequest p outcome).1
      (h.act hash sha256 debugRequest p outcome).2 := by
  cases hstage with
  | getRequest | fileInfo | createDir | openWriter | writeChunk pc | updateState => cases htold
  | concludeWriter =>
      obtain ⟨-, -, hlt⟩ := expectedBlocks_of_tiled ha.tiled ha.many
      have hpos : 0 < blockBytes file := by
        rw [← ha.blockBytes_pos.1]
        exact w₀.chunkSize_pos
      obtain ⟨w', hnew, -⟩ := new_eq_ok hash (writerKey folder file) hpos hlt
      have hact : ResponseHandler.act hash sha256 debugRequest
          ⟨responses i, .concludeWriter (request i) (byteSize file) (blockBytes file),
            some (.ok ()), some (.ok .allBlocks)⟩ p outcome =
          (⟨responses i, .consolidate (request i) .enter, some (.ok ()), some (.ok .allBlocks)⟩,
          { p with storageManager := { p.storageManager with
              fileWriters := (p.storageManager.fileWriters.entryOrInsert (writerKey folder file)
                w').1 } }) := by
        unfold ResponseHandler.act
        dsimp only [ResponseHandler.actConcludeWriter]
        rw [ha.key, ResponseHandler.continueWith, BepProcessor.onStorage_eq_ok
          (entryWriter_run hash p.storageManager (writerKey folder file) hnew)]
        rfl
      rw [hact]
      refine ⟨.finishing trivial, rfl, ?_, Or.inr ?_, fun _ => Or.inl ⟨_, _, _, rfl⟩⟩
      · exact ⟨hshared.config, hshared.manager, hshared.row, hshared.blocks, hshared.requests⟩
      · intro w hget
        refine ⟨?_, rfl⟩
        dsimp only
        rw [AssocMap.get_entryOrInsert, if_pos rfl, hget, Option.getD_some]
  | finishing hpc =>
      rename_i pc
      obtain ⟨pc', hnext, hpc', hmanager, hne⟩ := @act_finishing hash sha256 debugRequest p outcome
        ⟨responses i, pc, some (.ok ()), some (.ok .allBlocks)⟩ hpc
      have hshared' := @shared_told hash sha256 debugRequest p₀ p folder file responses request w₀
        marked i outcome ha hshared hmarked ⟨responses i, pc, some (.ok ()), some (.ok .allBlocks)⟩
        rfl (by rintro _ _ _ rfl; exact hpc) hmanager
      have hwriter : ∀ request fileSize blockSize,
          pc' ≠ .concludeWriter request fileSize blockSize := by
        rintro _ _ _ rfl
        exact hpc'
      rw [hnext]
      rcases hne with henter | ⟨rfl, hsame⟩
      · exact ⟨.finishing hpc', rfl, hshared', Or.inl ⟨rfl, not_concluding hwriter henter⟩,
          fun hconcluding => (not_concluding hwriter henter hconcluding).elim⟩
      · rw [hsame] at hshared' ⊢
        exact ⟨.finishing hpc', rfl, hshared', Or.inr fun w hget => ⟨hget, rfl⟩, id⟩
  | leaving hpc =>
      rename_i pc
      obtain ⟨pc', hnext, hpc', hmanager⟩ := @act_leaving hash sha256 debugRequest p outcome
        ⟨responses i, pc, some (.ok ()), some (.ok .blocksMissing)⟩ hpc
      have hshared' := @shared_told hash sha256 debugRequest p₀ p folder file responses request w₀
        marked i outcome ha hshared hmarked
        ⟨responses i, pc, some (.ok ()), some (.ok .blocksMissing)⟩ rfl
        (by rintro _ _ _ rfl; exact hpc) (by rw [hmanager])
      rw [hnext]
      refine ⟨.leaving hpc', rfl, hshared', Or.inr ?_, ?_⟩
      · intro w hget
        rw [hmanager]
        exact ⟨hget, rfl⟩
      · intro hconcluding
        apply (not_concluding _ _ hconcluding).elim
        · rintro _ _ _ rfl
          exact hpc'
        · rintro _ rfl
          exact hpc'

end Turns

/-! ## The invariant -/

section Invariant

variable {hash : String → ℕ → ℕ → UInt64} {sha256 : Bytes → Bytes}
  {debugRequest : Request → String} {p₀ p : BepProcessor} {folder : String} {file : FileInfo}
  {responses : Fin file.blocks.length → Response} {request : Fin file.blocks.length → Request}
  {w₀ : FileWriter}

/-- What holds whatever turns the handlers took. -/
structure CompletionInvariant (p₀ : BepProcessor) (folder : String) (file : FileInfo)
    (responses : Fin file.blocks.length → Response) (request : Fin file.blocks.length → Request)
    (w₀ : FileWriter) (s : Processes (Fin file.blocks.length) ResponseHandler BepProcessor) :
    Prop where
  shared : Shared p₀ folder file responses request
    (fun i => (s.process i).uploadStatus.isSome) s.shared
  stages : ∀ i, Stage file (responses i) (request i) (blockOffset file i) (s.process i)
  once : ∀ i j, GotAllBlocks (s.process i) → GotAllBlocks (s.process j) → i = j
  told : ∀ i, GotAllBlocks (s.process i) → ∀ j, (s.process j).uploadStatus.isSome = true
  complete : (∀ i, (s.process i).uploadStatus.isSome = true) → ∃ i, GotAllBlocks (s.process i)
  writes : (∃ i, GotAllBlocks (s.process i) ∧ ¬ Concluding (s.process i)) ∨
    WritesInvariant w₀ (fun i => (responses i).data) (blockOffset file)
      (fun i => writePc (s.process i).pc) (currentWriter folder file w₀ s.shared)
      s.shared.storageManager.disk ∧
    ∀ i, Opened (s.process i).pc →
      (s.shared.storageManager.fileWriters.get (writerKey folder file)).isSome = true

/-- A handler whose block is not marked takes a turn. -/
theorem waitingTurn (ha : Answers hash sha256 p₀ folder file responses request w₀)
    {marked : Fin file.blocks.length → Bool} {i : Fin file.blocks.length} {outcome : TurnOutcome}
    (hshared : Shared p₀ folder file responses request marked p) (hmarked : marked i = false)
    (hok : outcome.file = .ok) {h : ResponseHandler}
    (hstage : Stage file (responses i) (request i) (blockOffset file i) h)
    (hnone : h.uploadStatus = none)
    (hopened : Opened h.pc →
      (p.storageManager.fileWriters.get (writerKey folder file)).isSome = true)
    (hway : UnderWay ((currentWriter folder file w₀ p).writeStep p.storageManager.disk
      (responses i).data (blockOffset file i) .ok (writePc h.pc)).2.2) :
    WaitingTurn p₀ folder file responses request w₀ marked i h p
      (h.act hash sha256 debugRequest p outcome).1
      (h.act hash sha256 debugRequest p outcome).2 := by
  cases hstage with
  | getRequest => exact waitingTurn_before ha hshared hmarked hok (Or.inl rfl)
  | fileInfo => exact waitingTurn_before ha hshared hmarked hok (Or.inr (Or.inl rfl))
  | createDir => exact waitingTurn_before ha hshared hmarked hok (Or.inr (Or.inr rfl))
  | openWriter => exact waitingTurn_openWriter ha hshared hmarked
  | writeChunk pc => exact waitingTurn_writeChunk ha hshared hmarked hok pc (hopened trivial) hway
  | updateState => exact waitingTurn_updateState ha hshared hmarked (hopened trivial)
  | concludeWriter | finishing hpc | leaving hpc => cases hnone

variable {s s' : Processes (Fin file.blocks.length) ResponseHandler BepProcessor}
  {t : Turn (Fin file.blocks.length) TurnOutcome}

/-- The invariant after a turn of a handler that was told. -/
theorem completionInvariant_told (hinv : CompletionInvariant p₀ folder file responses request w₀ s)
    (htold : (s.process t.process).uploadStatus.isSome = true)
    (hturn : ToldTurn p₀ folder file responses request
      (fun i => (s.process i).uploadStatus.isSome) t.process (s.process t.process) s.shared
      (s'.process t.process) s'.shared)
    (hother : ∀ j, j ≠ t.process → s'.process j = s.process j) :
    CompletionInvariant p₀ folder file responses request w₀ s' := by
  have hstatus : ∀ j, (s'.process j).uploadStatus = (s.process j).uploadStatus := by
    intro j
    by_cases hj : j = t.process
    · rw [hj, hturn.status]
    · rw [hother j hj]
  have hgot : ∀ j, GotAllBlocks (s'.process j) ↔ GotAllBlocks (s.process j) := by
    intro j
    rw [GotAllBlocks, GotAllBlocks, hstatus]
  refine ⟨?_, ?_, ?_, ?_, ?_, ?_⟩
  · simp only [hstatus]
    exact hturn.shared
  · intro j
    by_cases hj : j = t.process
    · rw [hj]
      exact hturn.stage
    · rw [hother j hj]
      exact hinv.stages j
  · intro j k hgotj hgotk
    exact hinv.once j k ((hgot j).mp hgotj) ((hgot k).mp hgotk)
  · intro j hgotj k
    rw [hstatus]
    exact hinv.told j ((hgot j).mp hgotj) k
  · intro hall
    obtain ⟨j, hgotj⟩ := hinv.complete fun j => hstatus j ▸ hall j
    exact ⟨j, (hgot j).mpr hgotj⟩
  · obtain ⟨-, hpc, hopen, -⟩ := (hinv.stages t.process).told htold
    have htold' : (s'.process t.process).uploadStatus.isSome = true := by
      rw [hstatus]
      exact htold
    obtain ⟨-, hpc', -, -⟩ := hturn.stage.told htold'
    rcases hinv.writes with ⟨j, hgotj, hconcluding⟩ | ⟨hwrites, hopened⟩
    · refine Or.inl ⟨j, (hgot j).mpr hgotj, ?_⟩
      by_cases hj : j = t.process
      · subst hj
        exact fun hconcluding' => hconcluding (hturn.concluding hconcluding')
      · rw [hother j hj]
        exact hconcluding
    · rcases hturn.writes with hdone | hsame
      · exact Or.inl ⟨t.process, hdone⟩
      · obtain ⟨w, hget⟩ := Option.isSome_iff_exists.mp (hopened t.process hopen)
        obtain ⟨hget', hdisk⟩ := hsame w hget
        have hcurrent : currentWriter folder file w₀ s'.shared =
            currentWriter folder file w₀ s.shared := by
          rw [currentWriter, currentWriter, hget, hget']
        have hpcs : (fun j => writePc (s'.process j).pc) = fun j => writePc (s.process j).pc := by
          funext j
          by_cases hj : j = t.process
          · rw [hj, hpc, hpc']
          · rw [hother j hj]
        refine Or.inr ⟨?_, ?_⟩
        · rw [hcurrent, hdisk, hpcs]
          exact hwrites
        · intro _ _
          rw [hget']
          rfl

/-- The invariant after a turn of a handler whose block is not marked. -/
theorem completionInvariant_waiting (ha : Answers hash sha256 p₀ folder file responses request w₀)
    (hinv : CompletionInvariant p₀ folder file responses request w₀ s)
    (hnone : (s.process t.process).uploadStatus = none)
    (hwrites : WritesInvariant w₀ (fun i => (responses i).data) (blockOffset file)
      (fun i => writePc (s.process i).pc) (currentWriter folder file w₀ s.shared)
      s.shared.storageManager.disk)
    (hopened : ∀ i, Opened (s.process i).pc →
      (s.shared.storageManager.fileWriters.get (writerKey folder file)).isSome = true)
    (hturn : WaitingTurn p₀ folder file responses request w₀
      (fun i => (s.process i).uploadStatus.isSome) t.process (s.process t.process) s.shared
      (s'.process t.process) s'.shared)
    (hother : ∀ j, j ≠ t.process → s'.process j = s.process j) :
    CompletionInvariant p₀ folder file responses request w₀ s' := by
  -- nobody has been told that all blocks are there, for this one is missing
  have hnobody : ∀ j, ¬ GotAllBlocks (s.process j) := by
    intro j hgot
    have htold := hinv.told j hgot t.process
    rw [hnone] at htold
    cases htold
  have honly : ∀ j, GotAllBlocks (s'.process j) → j = t.process := by
    intro j hgot
    by_contra hj
    rw [hother j hj] at hgot
    exact hnobody j hgot
  have hmarked : ∀ f : ResponseHandler → Bool, (fun j => f (s'.process j)) =
      Function.update (fun j => f (s.process j)) t.process (f (s'.process t.process)) := by
    intro f
    funext j
    by_cases hj : j = t.process
    · rw [hj, Function.update_self]
    · rw [Function.update_of_ne hj, hother j hj]
  have hall : (∀ j, Function.update (fun j => (s.process j).uploadStatus.isSome) t.process true j =
      true) → ∀ j, j ≠ t.process → (s'.process j).uploadStatus.isSome = true := by
    intro h j hj
    have htold := h j
    rw [Function.update_of_ne hj] at htold
    rw [hother j hj]
    exact htold
  refine ⟨?_, ?_, ?_, ?_, ?_, Or.inr ⟨?_, ?_⟩⟩
  · rw [hmarked fun h => h.uploadStatus.isSome]
    exact hturn.shared
  · intro j
    by_cases hj : j = t.process
    · rw [hj]
      exact hturn.stage
    · rw [hother j hj]
      exact hinv.stages j
  · intro j k hgotj hgotk
    rw [honly j hgotj, honly k hgotk]
  · intro j hgot k
    rw [honly j hgot] at hgot
    by_cases hk : k = t.process
    · rw [hk, hgot]
      rfl
    · rcases hturn.status with hwaiting | hstatus
      · rw [GotAllBlocks, hwaiting] at hgot
        cases hgot
      · rw [GotAllBlocks, hstatus] at hgot
        split_ifs at hgot with hupdate
        · exact hall hupdate k hk
        · cases hgot
  · intro htold
    refine ⟨t.process, ?_⟩
    rcases hturn.status with hwaiting | hstatus
    · have hself := htold t.process
      rw [hwaiting] at hself
      cases hself
    · rw [GotAllBlocks, hstatus, if_pos]
      intro j
      by_cases hj : j = t.process
      · rw [hj, Function.update_self]
      · rw [Function.update_of_ne hj, ← hother j hj]
        exact htold j
  · have hpcs : (fun j => writePc (s'.process j).pc) = Function.update
        (fun j => writePc (s.process j).pc) t.process (writePc (s'.process t.process).pc) := by
      funext j
      by_cases hj : j = t.process
      · rw [hj, Function.update_self]
      · rw [Function.update_of_ne hj, hother j hj]
    rw [hpcs]
    rcases hturn.writes with hsame | hstep
    · simp only [Prod.mk.injEq] at hsame
      obtain ⟨hcurrent, hdisk, hpc⟩ := hsame
      rw [hcurrent, hdisk, hpc, Function.update_eq_self]
      exact hwrites
    · have hkept := writesInvariant_step ha.good ha.apart hwrites t.process
      rw [← hstep] at hkept
      exact hkept
  · intro j hopen
    apply hturn.opened
    by_cases hj : j = t.process
    · subst hj
      exact Or.inl hopen
    · rw [hother j hj] at hopen
      exact Or.inr (hopened j hopen)

/-- The invariant is kept by every turn, and a turn brings its handler closer to its status. -/
theorem completionInvariant_step (ha : Answers hash sha256 p₀ folder file responses request w₀)
    (hinv : CompletionInvariant p₀ folder file responses request w₀ s)
    (hok : t.outcome.file = .ok)
    (hstep : Processes.step (fun outcome h p => h.act hash sha256 debugRequest p outcome) s t =
      some s') :
    CompletionInvariant p₀ folder file responses request w₀ s' ∧
      statusStepsLeft (s'.process t.process) ≤ statusStepsLeft (s.process t.process) - 1 := by
  have hself := Processes.step_self hstep
  have hother : ∀ j, j ≠ t.process → s'.process j = s.process j :=
    fun j hj => Processes.step_other hstep hj
  have hprocess := congrArg Prod.fst hself
  have hshared := congrArg Prod.snd hself
  dsimp only at hprocess hshared
  cases hstatus : (s.process t.process).uploadStatus with
  | some status =>
      have htold : (s.process t.process).uploadStatus.isSome = true := by
        rw [hstatus]
        rfl
      have hturn := @toldTurn hash sha256 debugRequest _ _ _ _ _ _ _ _ _ t.outcome ha hinv.shared
        htold _ (hinv.stages t.process) htold
      rw [← hprocess, ← hshared] at hturn
      refine ⟨completionInvariant_told hinv htold hturn hother, ?_⟩
      have hdone := hturn.stage.told (by rw [hturn.status]; exact htold)
      rw [hdone.2.2.2]
      exact Nat.zero_le _
  | none =>
      obtain ⟨hwrites, hopened⟩ : _ ∧ _ := by
        refine hinv.writes.resolve_left ?_
        rintro ⟨j, hgot, -⟩
        have htold := hinv.told j hgot t.process
        rw [hstatus] at htold
        cases htold
      have hway := (writesInvariant_step ha.good ha.apart hwrites t.process).underWay t.process
      rw [Function.update_self] at hway
      have hturn := @waitingTurn hash sha256 debugRequest _ _ _ _ _ _ _ ha _ _ t.outcome
        hinv.shared (by simp [hstatus]) hok _ (hinv.stages t.process) hstatus
        (hopened t.process) hway
      rw [← hprocess, ← hshared] at hturn
      exact ⟨completionInvariant_waiting ha hinv hstatus hwrites hopened hturn hother, hturn.left⟩

/-- The invariant before the first turn. -/
theorem completionInvariant_start (ha : Answers hash sha256 p₀ folder file responses request w₀)
    (hrecorded : Recorded p₀.state.db folder p₀.config.localDeviceId file)
    (hrequests : ∀ i, p₀.state.getRequest (responses i).id = some (request i))
    (hfresh : FreshWriter hash p₀.storageManager folder file) :
    CompletionInvariant p₀ folder file responses request w₀
      ⟨p₀, fun i => .new (responses i)⟩ := by
  obtain ⟨hrow, hblocks, -⟩ := rows_of_recorded hrecorded
  obtain ⟨-, -, -, hstate, hfree⟩ := new_spec ha.writer
  have hfirst : ∃ i : Fin file.blocks.length, i.val = 0 := by
    have hpos : 0 < blockBytes file := by
      rw [← ha.blockBytes_pos.1]
      exact w₀.chunkSize_pos
    have hone : 0 < chunkCount (byteSize file) (blockBytes file) := by
      have hsize := ha.tiled.size
      rw [lt_chunkCount_iff hpos, byteSize]
      omega
    exact ⟨⟨0, by rw [(expectedBlocks_of_tiled ha.tiled ha.many).1]; exact hone⟩, rfl⟩
  refine ⟨⟨rfl, rfl, hrow, hblocks, fun i _ => hrequests i⟩, fun i => .getRequest,
    fun _ _ h => (by cases h), fun _ h => (by cases h), ?_,
    Or.inr ⟨?_, fun _ hopen => hopen.elim⟩⟩
  · intro htold
    obtain ⟨i, -⟩ := hfirst
    cases htold i
  · have hcurrent : currentWriter folder file w₀ p₀ = w₀ := by
      rw [currentWriter]
      cases hget : p₀.storageManager.fileWriters.get (writerKey folder file) with
      | none => rfl
      | some w => exact Except.ok.inj ((hfresh w hget).symm.trans ha.writer)
    rw [hcurrent]
    refine ⟨SameWriter.refl w₀, ?_, ?_, fun _ _ h => (by cases h), fun _ => trivial⟩
    · rw [hstate]
      simp [writePc, ResponseHandler.new, inside]
    · intro chunkPos hset
      rw [all_free_iff.mp hfree chunkPos] at hset
      cases hset

/-- What the invariant says about the handlers that were told. -/
theorem foundOnce_of_invariant (ha : Answers hash sha256 p₀ folder file responses request w₀)
    (hinv : CompletionInvariant p₀ folder file responses request w₀ s) :
    FoundOnce folder file responses s where
  noError i e := (hinv.stages i).noError e
  once := hinv.once
  complete := hinv.complete
  written i hgot j := ((hinv.stages j).told (hinv.told i hgot j)).1
  concluding := by
    intro i hgot hconcluding
    obtain ⟨hwrites, hopened⟩ : _ ∧ _ := by
      refine hinv.writes.resolve_left ?_
      rintro ⟨j, hgotj, hnot⟩
      rw [hinv.once j i hgotj hgot] at hnot
      exact hnot hconcluding
    obtain ⟨hstate, hfree, hfiles⟩ := written_of_writesInvariant hwrites
      fun j => ((hinv.stages j).told (hinv.told i hgot j)).2.1
    obtain ⟨w, hget⟩ := Option.isSome_iff_exists.mp
      (hopened i ((hinv.stages i).told (hinv.told i hgot i)).2.2.1)
    have hcurrent : currentWriter folder file w₀ s.shared = w := by
      rw [currentWriter, hget]
      rfl
    have hsame := hwrites.same
    rw [hcurrent] at hsame hstate hfree
    obtain ⟨hchunk, hsize, hpath⟩ := ha.blockBytes_pos
    refine ⟨w, hget, ?_, hsame.fileSize.trans hsize, hsame.chunkSize.trans hchunk, hstate, hfree, ?_⟩
    · rw [hsame.filePath, hpath, StorageManager.absPath, StorageManager.absPath,
        hinv.shared.manager]
    · intro chunkPos hlt
      rw [hsame.length, w₀.writingChunk_length, hsize, hchunk] at hlt
      obtain ⟨j, hoffset⟩ := exists_block_of_tiled ha.tiled hlt
      refine ⟨j, hoffset, ?_⟩
      have hpos := w₀.chunkSize_pos
      have hfile := hfiles j
      rw [blockOffset, hoffset, Int.toNat_natCast, ← hchunk, Nat.mul_div_cancel _ hpos] at hfile
      rw [hsame.chunkPath]
      exact hfile

end Invariant

/-- **Exactly one handler completes the file.** Every block of a file that was recorded is
answered once, the handlers take turns in any order, and no file operation fails; the
file has a directory. In every state they reach no handler was told that there are too
many blocks, at most one was told that all are there, and by then every block is
written. Once each took fifteen turns, one was told. -/
theorem foundOnce_of_run {hash : String → ℕ → ℕ → UInt64} {sha256 : Bytes → Bytes}
    {debugRequest : Request → String} {p₀ : BepProcessor} {folder : String} {file : FileInfo}
    {responses : Fin file.blocks.length → Response} (htiled : Tiled file)
    (hrecorded : Recorded p₀.state.db folder p₀.config.localDeviceId file)
    (hanswered : AnsweredOnce sha256 p₀ folder file responses)
    (hfresh : FreshWriter hash p₀.storageManager folder file)
    (hdirectory : StorageManager.hasParent
      (p₀.storageManager.absPath (writerKey folder file)) = true)
    {turns : List (Turn (Fin file.blocks.length) TurnOutcome)}
    (hok : ∀ t ∈ turns, t.outcome.file = .ok)
    {s : Processes (Fin file.blocks.length) ResponseHandler BepProcessor}
    (h : Transition.run
      (Processes.step fun outcome h p => h.act hash sha256 debugRequest p outcome)
      ⟨p₀, fun i => .new (responses i)⟩ turns = some s) :
    FoundOnce folder file responses s ∧
      ((∀ i, 15 ≤ Processes.turns i turns) → ∃ i, GotAllBlocks (s.process i)) := by
  obtain ⟨-, -, hmany⟩ := rows_of_recorded hrecorded
  obtain ⟨-, -, hlt⟩ := expectedBlocks_of_tiled htiled hmany
  obtain ⟨request, hrequest⟩ := Classical.skolem.mp hanswered.requests
  have hpos : 0 < blockBytes file := by
    have hblockSize := htiled.blockSize
    rw [blockBytes]
    omega
  obtain ⟨w₀, hnew, -, -, hsize, hchunk, -⟩ := new_eq_ok hash
    (p₀.storageManager.absPath (writerKey folder file)) hpos hlt
  have ha : Answers hash sha256 p₀ folder file responses request w₀ := by
    refine ⟨htiled, hmany, hanswered.ids, fun i => (hrequest i).2, hanswered.data, hdirectory, hnew,
      ?_, ?_⟩
    · intro i
      obtain ⟨k, hk, -, hoffset, hblock⟩ := blockOffset_of_tiled htiled i
      have hlength := (hanswered.length i).trans hblock
      rw [Int.natCast_inj] at hlength
      rw [hoffset, ← hchunk]
      rw [← hsize, ← hchunk] at hk hlength
      exact goodChunk_of_piece hk hlength
    · intro i j hij
      obtain ⟨k, -, -, hk, -⟩ := blockOffset_of_tiled htiled i
      obtain ⟨l, -, -, hl, -⟩ := blockOffset_of_tiled htiled j
      rw [hk, hl, hchunk, Nat.mul_div_cancel _ hpos, Nat.mul_div_cancel _ hpos] at hij
      apply blockOffset_injective htiled
      rw [hk, hl, hij]
  have hstart := completionInvariant_start ha hrecorded (fun i => (hrequest i).1) hfresh
  have hmeets : Transition.Meets
      (Processes.step fun outcome (h : ResponseHandler) p =>
        h.act hash sha256 debugRequest p outcome)
      (fun _ t => t.outcome.file = .ok) ⟨p₀, fun i => ResponseHandler.new (responses i)⟩ turns :=
    Transition.meets_of_forall_mem hok _
  have hinv := Transition.invariant_run_of_meets _ hstart
    (fun s t s' hinv ht hstep => (completionInvariant_step ha hinv ht hstep).1) hmeets h
  refine ⟨foundOnce_of_invariant ha hinv, ?_⟩
  intro hturns
  apply hinv.complete
  intro i
  have hleft := Processes.measure_le_of_run statusStepsLeft hstart
    (fun s t s' hinv ht hstep => (completionInvariant_step ha hinv ht hstep).1)
    (fun s t s' hinv ht hstep => (completionInvariant_step ha hinv ht hstep).2) hmeets h i
  have hfifteen : statusStepsLeft (ResponseHandler.new (responses i)) = 15 := rfl
  have hleft : statusStepsLeft (s.process i) ≤ 15 - Processes.turns i turns := by
    rw [← hfifteen]
    exact hleft
  have hmany := hturns i
  exact (hinv.stages i).told_of_left (by omega)

/-! ## A file of two blocks -/

section Example

/-- The state of the device that recorded the file. -/
def pairRecorded : BepState :=
  RustM.endState ((BepState.rmReplaceFileInfo "default" serverDevice [pairFile]).run
    (BepState.new (.ofIndex [("default", serverDevice)])))

/-- The device with the requests for the blocks in its queue. -/
def pairProcessor : BepProcessor :=
  { config := serverConfig
    state := RustM.endState ((storeOutgoingRequests (pairRecorded.blocksInfo serverDevice .notStored)
      fun _ => 0).run pairRecorded)
    storageManager := .new serverConfig ["remote"] .empty }

/-- The responses with the two blocks. -/
def pairResponses (i : Fin pairFile.blocks.length) : Response :=
  if i.val = 0 then ⟨1, [1], 0⟩ else ⟨2, [2], 0⟩

/-- The requests for the two blocks. -/
def pairRequest (i : Fin pairFile.blocks.length) : Request :=
  { id := (pairResponses i).id, folder := "default", name := "a", size := 1,
    offset := pairFile.blocks[i].offset, hash := pairFile.blocks[i].hash, fromTemporary := false }

/-- The handlers take turns. -/
def pairTurns : List (Turn (Fin pairFile.blocks.length) TurnOutcome) :=
  (List.replicate 15 (List.finRange pairFile.blocks.length)).flatten.map
    (⟨·, ⟨.ok, .exits true⟩⟩)

/-- Witness: two blocks, whose handlers take turns. -/
theorem foundOnce_of_run_pair : ∃ s,
    Transition.run (Processes.step fun outcome h p =>
        h.act (fun _ _ _ => 0) pairHash (fun _ => "") p outcome)
      ⟨pairProcessor, fun i => .new (pairResponses i)⟩ pairTurns = some s ∧
    FoundOnce "default" pairFile pairResponses s ∧ ∃ i, GotAllBlocks (s.process i) := by
  obtain ⟨s, hrun⟩ : ∃ s, Transition.run (Processes.step fun outcome (h : ResponseHandler) p =>
        h.act (fun _ _ _ => 0) pairHash (fun _ => "") p outcome)
      ⟨pairProcessor, fun i => .new (pairResponses i)⟩ pairTurns = some s := ⟨_, rfl⟩
  have htiled : Tiled pairFile := ⟨by decide, by decide, by decide, by decide⟩
  have hrecorded : Recorded pairProcessor.state.db "default" serverDevice pairFile := by
    obtain ⟨s', hwritten⟩ : ∃ s', (BepState.rmReplaceFileInfo "default" serverDevice [pairFile]).run
        (BepState.new (.ofIndex [("default", serverDevice)])) = .ok () s' := ⟨_, rfl⟩
    have hdb : pairProcessor.state.db = s'.db := by
      have hend : pairRecorded = s' := congrArg RustM.endState hwritten
      rw [← hend]
      exact storeOutgoingRequests_db _ _ pairRecorded
    rw [hdb]
    exact ⟨_, s', [pairFile], hwritten, by decide, rfl, rfl⟩
  have hrequests : ∀ i, pairProcessor.state.getRequest (pairResponses i).id =
      some (pairRequest i) := by
    decide +kernel
  have hanswered : AnsweredOnce pairHash pairProcessor "default" pairFile pairResponses :=
    ⟨by decide, fun i => ⟨pairRequest i, hrequests i, rfl, rfl, rfl, rfl⟩, by decide, by decide⟩
  have hfresh : FreshWriter (fun _ _ _ => 0) pairProcessor.storageManager "default" pairFile := by
    intro w hw
    have hnone : pairProcessor.storageManager.fileWriters.get (writerKey "default" pairFile) =
        none := by decide
    rw [hnone] at hw
    cases hw
  obtain ⟨hfound, hall⟩ := foundOnce_of_run htiled hrecorded hanswered hfresh (by decide)
    (by decide) hrun
  exact ⟨s, hrun, hfound, hall (by decide)⟩

end Example

end Grizol.Analysis
