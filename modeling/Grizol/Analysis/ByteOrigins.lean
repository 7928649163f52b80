import Grizol.Analysis.OfferedBlocks
import Grizol.Analysis.ReceivedBlocks
import Grizol.Analysis.FileWriterCalls
import Grizol.Analysis.WriterRegistry
import Grizol.Interface.ByteOrigins

/-!
# Nothing is on the disk but what was delivered

A step of a file writer is at one file, and what it leaves there is what was there, zeros, or
bytes it was given: the data of its response, or a buffer that was read from a chunk. So
the origins of all bytes are kept by every step, and no order of the steps matters.
-/

set_option autoImplicit false

namespace Grizol.Analysis

open Grizol.Library Grizol.Model Grizol.Interface
open Grizol.Model.Syncthing

variable {codec : Codec} {hash : String → ℕ → ℕ → UInt64} {sha256 : Bytes → Bytes}
  {debugRequest : Request → String} {config : ConnectionConfig}

/-! ## Writers that stay -/

/-- The writers are still there, each for the same file. -/
def KeepsWriters (fileWriters fileWriters' : AssocMap String FileWriter) : Prop :=
  ∀ key w, fileWriters.get key = some w → ∃ w', fileWriters'.get key = some w' ∧ SameWriter w w'

section Writers

variable {fileWriters fileWriters' : AssocMap String FileWriter}

/-- Without a call the writers are kept. -/
theorem KeepsWriters.refl (fileWriters : AssocMap String FileWriter) :
    KeepsWriters fileWriters fileWriters := fun _ w hw => ⟨w, hw, .refl w⟩

/-- A path that is used is still used. -/
theorem KeepsWriters.uses (h : KeepsWriters fileWriters fileWriters') {path : String}
    (huses : ∃ key w, fileWriters.get key = some w ∧ Uses w path) :
    ∃ key w, fileWriters'.get key = some w ∧ Uses w path := by
  obtain ⟨key, w, hw, huses⟩ := huses
  obtain ⟨w', hw', hsame⟩ := h key w hw
  exact ⟨key, w', hw', (hsame.uses path).mpr huses⟩

/-- A writer may be replaced by the same one in another state. -/
theorem keepsWriters_insert {key : String} {w w' : FileWriter} (hw : fileWriters.get key = some w)
    (hsame : SameWriter w w') : KeepsWriters fileWriters (fileWriters.insert key w') := by
  intro key₁ w₁ hw₁
  rw [AssocMap.get_insert]
  split_ifs with hkey
  · subst hkey
    obtain rfl := Option.some.inj (hw.symm.trans hw₁)
    exact ⟨w', rfl, hsame⟩
  · exact ⟨w₁, hw₁, .refl w₁⟩

/-- A new writer leaves the others. -/
theorem keepsWriters_entryOrInsert (key : String) (fresh : FileWriter) :
    KeepsWriters fileWriters (fileWriters.entryOrInsert key fresh).1 := by
  intro key₁ w₁ hw₁
  rw [AssocMap.get_entryOrInsert]
  split_ifs with hkey
  · subst hkey
    exact ⟨w₁, by rw [hw₁]; rfl, .refl w₁⟩
  · exact ⟨w₁, hw₁, .refl w₁⟩

variable {files : FileStore} {delivered delivered' : String → ℕ → Bytes → Prop} {path : String}
  {k : ℕ} {b : UInt8}

/-- An origin is not lost to what comes later. -/
theorem byteFrom_mono (h : ByteFrom files fileWriters delivered path k b)
    (hkeeps : KeepsWriters fileWriters fileWriters')
    (hmore : ∀ key offset data, delivered key offset data → delivered' key offset data) :
    ByteFrom files fileWriters' delivered' path k b := by
  induction h with
  | kept hbyte => exact .kept hbyte
  | unwritten path k => exact .unwritten path k
  | received hwriter hdata hlength hbyte =>
      obtain ⟨w', hwriter', hsame⟩ := hkeeps _ _ hwriter
      rw [← hsame.chunkPath]
      rw [← hsame.chunkSize] at hdata hlength
      exact .received hwriter' (hmore _ _ _ hdata) hlength hbyte
  | consolidated hwriter _ ih =>
      obtain ⟨w', hwriter', hsame⟩ := hkeeps _ _ hwriter
      rw [← hsame.chunkPath] at ih
      rw [← hsame.chunkSize, ← hsame.filePath]
      exact .consolidated hwriter' ih

end Writers

/-! ## Steps of a writer -/

section Steps

variable {w : FileWriter} {files : FileStore} {outcome : Outcome} {path : String} {k : ℕ}
  {b : UInt8}

/-- A step of `write_chunk` writes the data to the file of its chunk. -/
theorem writeStep_bytes {data : Bytes} {offset : ℕ} {pc : FileWriter.WritePc}
    (h : FileStore.HasByte (w.writeStep files data offset outcome pc).2.1 path k b) :
    FileStore.HasByte files path k b ∨ b = 0 ∨
      pc = .writeAll ∧ path = w.chunkPath (offset / w.chunkSize) ∧ data[k]? = some b := by
  cases pc with
  | openEmpty | openChunk =>
      cases outcome with
      | ok => exact .inl h.of_insert_nil
      | fails n => exact .inl h
  | setLen =>
      cases outcome with
      | ok => exact h.of_resize.imp_right .inl
      | fails n => exact .inl h
  | writeAll =>
      cases outcome with
      | ok =>
          refine h.of_writeAt.imp_right (.imp_right fun ⟨hpath, j, hk, hbyte⟩ => ?_)
          rw [Nat.zero_add] at hk
          exact ⟨rfl, hpath, hk ▸ hbyte⟩
      | fails n =>
          refine h.of_writeAt.imp_right (.imp_right fun ⟨hpath, j, hk, hbyte⟩ => ?_)
          rw [Nat.zero_add] at hk
          rw [List.getElem?_take] at hbyte
          split_ifs at hbyte
          exact ⟨rfl, hpath, hk ▸ hbyte⟩
  | enter =>
      dsimp only [FileWriter.writeStep] at h
      split at h <;> exact .inl h
  | acquire =>
      dsimp only [FileWriter.writeStep] at h
      split at h <;> exact .inl h
  | syncAll => cases outcome <;> exact .inl h
  | leave =>
      dsimp only [FileWriter.writeStep] at h
      split at h <;> exact .inl h
  | _ => exact .inl h

/-- What a step of `write_chunk` was checked for. -/
def ChunkFits (w : FileWriter) (data : Bytes) (offset : ℕ) (pc : FileWriter.WritePc) : Prop :=
  pc = .check ∨ pc = .openEmpty ∨ w.chunkSize ∣ offset ∧ data.length ≤ w.chunkSize

/-- The check is passed only by data that fits. -/
theorem chunkFits_writeStep {data : Bytes} {offset : ℕ} {pc : FileWriter.WritePc}
    (h : ChunkFits w data offset pc) (hnot : ∀ result,
      (w.writeStep files data offset outcome pc).2.2 ≠ .returned result) :
    ChunkFits w data offset (w.writeStep files data offset outcome pc).2.2 := by
  rcases h with rfl | rfl | h
  · dsimp only [FileWriter.writeStep, FileWriter.checkChunk] at hnot ⊢
    split_ifs at hnot ⊢ with hempty haligned hinside hlength
    · exact .inr (.inl rfl)
    · exact absurd rfl (hnot _)
    · exact absurd rfl (hnot _)
    · exact absurd rfl (hnot _)
    · refine .inr (.inr ⟨Nat.dvd_of_mod_eq_zero (not_not.mp haligned), ?_⟩)
      by_contra hlong
      exact hlength ⟨by omega, by omega⟩
  · cases outcome <;> exact absurd rfl (hnot _)
  · exact .inr (.inr h)

/-- The chunk that is in the buffer of `consolidate`. -/
def buffered : FileWriter.ConsolidatePc → Option (ℕ × Bytes)
  | .seek i buf | .writeAll i buf => some (i, buf)
  | _ => none

/-- A step of `consolidate` writes its buffer to the file, at the place of the chunk. -/
theorem consolidateStep_bytes {pc : FileWriter.ConsolidatePc}
    (h : FileStore.HasByte (w.consolidateStep files outcome pc).2.1 path k b) :
    FileStore.HasByte files path k b ∨ b = 0 ∨
      ∃ i buf j, buffered pc = some (i, buf) ∧ path = w.filePath ∧ k = i * w.chunkSize + j ∧
        buf[j]? = some b := by
  cases pc with
  | openTarget =>
      cases outcome with
      | ok => exact .inl h.of_insert_nil
      | fails n => exact .inl h
  | writeAll i buf =>
      cases outcome with
      | ok =>
          exact h.of_writeAt.imp_right
            (.imp_right fun ⟨hpath, j, hk, hbyte⟩ => ⟨i, buf, j, rfl, hpath, hk, hbyte⟩)
      | fails n =>
          refine h.of_writeAt.imp_right (.imp_right fun ⟨hpath, j, hk, hbyte⟩ => ?_)
          rw [List.getElem?_take] at hbyte
          split_ifs at hbyte
          exact ⟨i, buf, j, rfl, hpath, hk, hbyte⟩
  | removeChunk i =>
      dsimp only [FileWriter.consolidateStep] at h
      split at h
      · exact .inl h.of_erase
      · exact .inl h
  | enter | openChunk i =>
      dsimp only [FileWriter.consolidateStep] at h
      split at h <;> exact .inl h
  | checkFlags =>
      dsimp only [FileWriter.consolidateStep] at h
      split_ifs at h <;> exact .inl h
  | readChunk i | seek i buf | syncAll i => cases outcome <;> exact .inl h
  | _ => exact .inl h

/-- The buffer is read from the file of a chunk. -/
theorem consolidateStep_buffered {pc : FileWriter.ConsolidatePc} {i : ℕ} {buf : Bytes}
    (h : buffered (w.consolidateStep files outcome pc).2.2 = some (i, buf)) :
    buffered pc = some (i, buf) ∨
      ∀ k b, buf[k]? = some b → FileStore.HasByte files (w.chunkPath i) k b := by
  cases pc with
  | readChunk i₁ =>
      cases outcome with
      | ok =>
          obtain ⟨rfl, rfl⟩ := Prod.mk.inj (Option.some.inj h)
          refine .inr fun k b hbyte => ?_
          cases hfile : files.get (w.chunkPath i₁) with
          | some content =>
              rw [hfile] at hbyte
              exact ⟨content, hfile, hbyte⟩
          | none =>
              rw [hfile] at hbyte
              cases hbyte
      | fails n => cases h
  | seek i₁ buf₁ =>
      cases outcome with
      | ok => exact .inl h
      | fails n => cases h
  | openTarget | removeChunk i₁ =>
      dsimp only [FileWriter.consolidateStep, FileWriter.nextChunk] at h
      repeat' split at h
      all_goals cases h
  | enter | openChunk i₁ =>
      dsimp only [FileWriter.consolidateStep] at h
      split at h <;> cases h
  | checkFlags =>
      dsimp only [FileWriter.consolidateStep] at h
      split_ifs at h <;> cases h
  | writeAll i₁ buf₁ | syncAll i₁ => cases outcome <;> cases h
  | _ => cases h

end Steps

/-! ## The manager -/

section Managers

variable {db : Database} {start m : StorageManager} {taken taken' : List CompleteMessage}

variable (db) in
/-- With more messages taken, what was offered stays so. -/
theorem offeredBy_mono (hmore : taken ⊆ taken') (b : BlockAt) (h : OfferedBy db taken b) :
    OfferedBy db taken' b := by
  refine offered_mono db (fun i hi => ?_) b h
  obtain ⟨m, hm, hi⟩ := List.mem_filterMap.mp hi
  exact List.mem_filterMap.mpr ⟨m, hmore hm, hi⟩

/-- And what was delivered stays so. -/
theorem delivered_mono (hmore : taken ⊆ taken') (key : String) (offset : ℕ) (data : Bytes)
    (h : Delivered sha256 db taken key offset data) :
    Delivered sha256 db taken' key offset data := by
  obtain ⟨block, hoffered, hkey, hoffset, x, hx, hbrings, hdata⟩ := h
  exact ⟨block, offeredBy_mono db hmore block hoffered, hkey, hoffset, x, hmore hx, hbrings, hdata⟩

/-- And so do the files hold only that. -/
theorem holdsDelivered_mono (hs : HoldsDelivered sha256 db start taken m) (hmore : taken ⊆ taken') :
    HoldsDelivered sha256 db start taken' m where
  writers key w hw := (hs.writers key w hw).imp_right fun ⟨block, hoffered, hkey⟩ =>
    ⟨block, offeredBy_mono db hmore block hoffered, hkey⟩
  touched := hs.touched
  bytes path k b hbyte := byteFrom_mono (hs.bytes path k b hbyte) (.refl _) (delivered_mono hmore)

/-- A writer takes a step, and is put back. -/
theorem holdsDelivered_insert (hs : HoldsDelivered sha256 db start taken m) {key : String}
    {w w' : FileWriter} {disk : FileStore} (hw : m.fileWriters.get key = some w)
    (hsame : SameWriter w w') (hframe : ∀ path, ¬ Uses w path → disk.get path = m.disk.get path)
    (hbytes : ∀ path k b, FileStore.HasByte disk path k b → FileStore.HasByte m.disk path k b ∨
      ByteFrom start.disk m.fileWriters (Delivered sha256 db taken) path k b) :
    HoldsDelivered sha256 db start taken
      { m with fileWriters := m.fileWriters.insert key w', disk := disk } := by
  have hkeeps := keepsWriters_insert hw hsame
  refine ⟨fun key₁ w₁ hw₁ => ?_, fun path hpath => ?_, fun path k b hbyte => ?_⟩
  · dsimp only at hw₁
    rw [AssocMap.get_insert] at hw₁
    split_ifs at hw₁ with hkey
    · obtain rfl := Option.some.inj hw₁
      rw [hkey, hsame.filePath]
      exact hs.writers key w hw
    · exact hs.writers key₁ w₁ hw₁
  · by_cases huses : Uses w path
    · exact ⟨key, w', AssocMap.get_insert_self _ _ _, (hsame.uses path).mpr huses⟩
    · dsimp only at hpath
      rw [hframe path huses] at hpath
      exact hkeeps.uses (hs.touched path hpath)
  · have hfrom : ByteFrom start.disk m.fileWriters (Delivered sha256 db taken) path k b :=
      (hbytes path k b hbyte).elim (hs.bytes path k b) id
    exact byteFrom_mono hfrom hkeeps fun _ _ _ h => h

/-- The writer of a file that was offered is looked up. -/
theorem holdsDelivered_entryOrInsert (hs : HoldsDelivered sha256 db start taken m) {key : String}
    {fresh : FileWriter} (hpath : fresh.filePath = start.absPath key)
    (hoffered : ∃ block, OfferedBy db taken block ∧ block.fileRelPath = key) :
    HoldsDelivered sha256 db start taken
      { m with fileWriters := (m.fileWriters.entryOrInsert key fresh).1 } := by
  have hkeeps : KeepsWriters m.fileWriters (m.fileWriters.entryOrInsert key fresh).1 :=
    keepsWriters_entryOrInsert key fresh
  refine ⟨fun key₁ w₁ hw₁ => ?_, fun path hpath => ?_, fun path k b hbyte => ?_⟩
  · dsimp only at hw₁
    rw [AssocMap.get_entryOrInsert] at hw₁
    split_ifs at hw₁ with hkey
    · subst hkey
      obtain rfl := Option.some.inj hw₁
      cases hw : m.fileWriters.get key₁ with
      | some w => exact hs.writers key₁ w hw
      | none => exact ⟨hpath, hoffered⟩
    · exact hs.writers key₁ w₁ hw₁
  · exact hkeeps.uses (hs.touched path hpath)
  · exact byteFrom_mono (hs.bytes path k b hbyte) hkeeps fun _ _ _ h => h

/-- The file of a writer is removed. -/
theorem holdsDelivered_erase (hs : HoldsDelivered sha256 db start taken m) {key path : String}
    {w : FileWriter} (hw : m.fileWriters.get key = some w) (hpath : path = w.filePath) :
    HoldsDelivered sha256 db start taken { m with disk := m.disk.erase path } := by
  refine ⟨hs.writers, fun path₁ hpath₁ => ?_, fun path₁ k b hbyte => ?_⟩
  · by_cases hsame : path₁ = path
    · exact ⟨key, w, hw, .inl (hsame.trans hpath)⟩
    · dsimp only at hpath₁
      rw [AssocMap.get_erase_of_ne _ hsame] at hpath₁
      exact hs.touched path₁ hpath₁
  · exact hs.bytes path₁ k b hbyte.of_erase

end Managers

/-! ## Handlers of responses -/

section Turns

variable {db : Database} {start m m' : StorageManager} {taken taken' : List CompleteMessage}
  {x : Response} {p : BepProcessor} {h : ResponseHandler}

/-- The writer of the file of a request is there. -/
abbrev Registered (m : StorageManager) (request : Request) : Prop :=
  ∃ w, m.fileWriters.get (StorageManager.fileRelPath request) = some w

/-- What the handler of a response has in its hands, where it stands: a request for an offered
block, data with its hash, data that fits its chunk, and the bytes of a chunk. -/
def ResponseDelivers (sha256 : Bytes → Bytes) (db : Database) (start : StorageManager)
    (taken : List CompleteMessage) (m : StorageManager) (x : Response) : ResponsePc → Prop
  | .fileInfo request => OfferedBy db taken (.ofRequest request)
  | .createDir request _ _ | .openWriter request _ _ =>
      OfferedBy db taken (.ofRequest request) ∧ sha256 x.data = request.hash
  | .writeChunk request _ _ offset pc =>
      OfferedBy db taken (.ofRequest request) ∧ sha256 x.data = request.hash ∧
        StorageManager.toUsize request.offset = some offset ∧
        ∃ w, m.fileWriters.get (StorageManager.fileRelPath request) = some w ∧
          ChunkFits w x.data offset pc
  | .updateState request _ _ | .concludeWriter request _ _ | .copy request _ _ _
  | .updateLocations request _ | .removeLocations request | .removeFile request =>
      Registered m request
  | .consolidate request pc =>
      ∃ w, m.fileWriters.get (StorageManager.fileRelPath request) = some w ∧
        ∀ i buf, buffered pc = some (i, buf) → ∀ k b, buf[k]? = some b →
          ByteFrom start.disk m.fileWriters (Delivered sha256 db taken) (w.chunkPath i) k b
  | _ => True

/-- A registered writer stays so. -/
theorem Registered.of_keeps {request : Request} (h : Registered m request)
    (hkeeps : KeepsWriters m.fileWriters m'.fileWriters) : Registered m' request := by
  obtain ⟨w, hw⟩ := h
  obtain ⟨w', hw', -⟩ := hkeeps _ w hw
  exact ⟨w', hw'⟩

/-- A chunk fits the same writer in another state. -/
theorem ChunkFits.of_same {w w' : FileWriter} {data : Bytes} {offset : ℕ}
    {pc : FileWriter.WritePc} (h : ChunkFits w data offset pc) (hsame : SameWriter w w') :
    ChunkFits w' data offset pc := by
  unfold ChunkFits at h ⊢
  rwa [hsame.chunkSize]

/-- With more messages taken, a handler still has what it should. -/
theorem ResponseDelivers.mono {pc : ResponsePc} (h : ResponseDelivers sha256 db start taken m x pc)
    (hkeeps : KeepsWriters m.fileWriters m'.fileWriters) (hmore : taken ⊆ taken') :
    ResponseDelivers sha256 db start taken' m' x pc := by
  cases pc with
  | fileInfo request => exact offeredBy_mono db hmore _ h
  | createDir request fileSize blockSize | openWriter request fileSize blockSize =>
      exact ⟨offeredBy_mono db hmore _ h.1, h.2⟩
  | writeChunk request fileSize blockSize offset pc =>
      obtain ⟨hoffered, hdata, hoffset, w, hw, hfits⟩ := h
      obtain ⟨w', hw', hsame⟩ := hkeeps _ w hw
      exact ⟨offeredBy_mono db hmore _ hoffered, hdata, hoffset, w', hw', hfits.of_same hsame⟩
  | updateState request fileSize blockSize | concludeWriter request fileSize blockSize
  | copy request n storageBackends copied | updateLocations request locations
  | removeLocations request | removeFile request => exact Registered.of_keeps h hkeeps
  | consolidate request pc =>
      obtain ⟨w, hw, hbuffer⟩ := h
      obtain ⟨w', hw', hsame⟩ := hkeeps _ w hw
      refine ⟨w', hw', fun i buf hbuf k b hbyte => ?_⟩
      rw [hsame.chunkPath]
      exact byteFrom_mono (hbuffer i buf hbuf k b hbyte) hkeeps (delivered_mono hmore)
  | _ => trivial

/-- A request that is queued is for a block that is known. -/
theorem known_of_getRequest {O : BlockAt → Prop} {s : BepState} (hinv : QueueInStep s)
    (hs : Knows O s) {id : Int32} {request : Request} (h : s.getRequest id = some request) :
    O (.ofRequest request) := by
  obtain ⟨own, hown⟩ := hinv.consistent.keyed id request h
  obtain ⟨t, hkey⟩ := (hinv.consistent.same id own).mp ⟨request, h, hown⟩
  obtain ⟨-, hoffered⟩ := hs.queue own (AssocMap.contains_iff.mpr ⟨_, hkey⟩)
  unfold OutgoingRequest.ofRequest at hown
  split_ifs at hown
  obtain rfl := Except.ok.inj hown
  exact hoffered

/-- After a turn of the handler of a response. -/
structure TurnDelivers (sha256 : Bytes → Bytes) (db : Database) (start : StorageManager)
    (taken : List CompleteMessage) (m m' : StorageManager) (x : Response) (pc : ResponsePc) :
    Prop where
  config : m'.config = m.config
  keeps : KeepsWriters m.fileWriters m'.fileWriters
  holds : HoldsDelivered sha256 db start taken m'
  handler : ResponseDelivers sha256 db start taken m' x pc

/-- A turn that leaves the files delivers what it had. -/
theorem TurnDelivers.of_same {pc : ResponsePc} (hs : HoldsDelivered sha256 db start taken m)
    (hpc : ResponseDelivers sha256 db start taken m x pc) :
    TurnDelivers sha256 db start taken m m x pc := ⟨rfl, .refl _, hs, hpc⟩

/-- A writer is found, or made, or cannot be made. -/
theorem entryWriter_cases (hash : String → ℕ → ℕ → UInt64) (m : StorageManager)
    (key path : String) (fileSize chunkSize : ℕ) :
    (∃ e, (StorageManager.entryWriter hash key path fileSize chunkSize).run m = .error e m) ∨
      ∃ w fresh, fresh.filePath = path ∧
        (StorageManager.entryWriter hash key path fileSize chunkSize).run m =
          .ok w { m with fileWriters := (m.fileWriters.entryOrInsert key fresh).1 } := by
  cases hnew : FileWriter.new hash path fileSize chunkSize with
  | ok fresh => exact .inr ⟨_, fresh, (new_spec hnew).1, entryWriter_run hash m key hnew⟩
  | error e =>
      refine .inl ⟨e, ?_⟩
      rw [StorageManager.entryWriter, EStateM.run_bind, hnew]
      rfl

/-- The turn that opens the writer registers it. -/
theorem turnDelivers_openWriter
    (hs : HoldsDelivered sha256 db start taken p.storageManager)
    (hconfig : p.storageManager.config = start.config) {request : Request}
    (hh : OfferedBy db taken (.ofRequest request) ∧ sha256 h.response.data = request.hash)
    (fileSize blockSize : ℕ) :
    TurnDelivers sha256 db start taken p.storageManager
      (h.actOpenWriter hash p request fileSize blockSize).2.storageManager h.response
      (h.actOpenWriter hash p request fileSize blockSize).1.pc := by
  unfold ResponseHandler.actOpenWriter ResponseHandler.continueWith
  dsimp only
  rcases entryWriter_cases hash p.storageManager (StorageManager.fileRelPath request)
    (p.storageManager.absPath (StorageManager.fileRelPath request)) fileSize blockSize with
    ⟨e, hrun⟩ | ⟨w, fresh, hpath, hrun⟩
  · rw [BepProcessor.onStorage_eq_error hrun]
    exact .of_same hs trivial
  · rw [BepProcessor.onStorage_eq_ok hrun]
    rw [StorageManager.absPath, hconfig] at hpath
    refine ⟨rfl, keepsWriters_entryOrInsert _ fresh,
      holdsDelivered_entryOrInsert hs hpath ⟨_, hh.1, rfl⟩, ?_⟩
    dsimp only
    split
    · trivial
    · rename_i offset hoffset
      refine ⟨hh.1, hh.2, hoffset, (p.storageManager.fileWriters.get
        (StorageManager.fileRelPath request)).getD fresh, ?_, .inl rfl⟩
      rw [AssocMap.get_entryOrInsert, if_pos rfl]

/-- The writer of a conclusion is found. -/
theorem turnDelivers_concludeWriter
    (hs : HoldsDelivered sha256 db start taken p.storageManager) {request : Request}
    (hh : Registered p.storageManager request) (fileSize blockSize : ℕ) :
    TurnDelivers sha256 db start taken p.storageManager
      (h.actConcludeWriter hash p request fileSize blockSize).2.storageManager h.response
      (h.actConcludeWriter hash p request fileSize blockSize).1.pc := by
  obtain ⟨found, hfound⟩ := hh
  unfold ResponseHandler.actConcludeWriter ResponseHandler.continueWith
  dsimp only
  rcases entryWriter_cases hash p.storageManager (StorageManager.fileRelPath request)
    (StorageManager.fileRelPath request) fileSize blockSize with
    ⟨e, hrun⟩ | ⟨w, fresh, -, hrun⟩
  · rw [BepProcessor.onStorage_eq_error hrun]
    exact .of_same hs trivial
  · rw [BepProcessor.onStorage_eq_ok hrun]
    unfold AssocMap.entryOrInsert
    rw [hfound]
    exact .of_same hs ⟨found, hfound, fun i buf hbuf => by cases hbuf⟩

/-- A step of `write_chunk`: its data is what was delivered for the chunk. -/
theorem turnDelivers_writeChunk
    (hs : HoldsDelivered sha256 db start taken p.storageManager)
    (htaken : .response h.response ∈ taken)
    (hcode : ErrorCode.ofInt32 h.response.code = some .noError) {request : Request}
    {fileSize blockSize offset : ℕ} {pc : FileWriter.WritePc}
    (hh : ResponseDelivers sha256 db start taken p.storageManager h.response
      (.writeChunk request fileSize blockSize offset pc)) (outcome : Outcome) :
    TurnDelivers sha256 db start taken p.storageManager
      (h.actWriteChunk p request fileSize blockSize offset pc outcome).2.storageManager h.response
      (h.actWriteChunk p request fileSize blockSize offset pc outcome).1.pc := by
  obtain ⟨hoffered, hdata, hoffset, w, hw, hfits⟩ := hh
  have hframe := writeStep_frame h.response.data offset w p.storageManager.disk outcome pc
  have hkeeps := keepsWriters_insert hw hframe.same
  have hbytes : ∀ path k b, FileStore.HasByte
      (w.writeStep p.storageManager.disk h.response.data offset outcome pc).2.1 path k b →
      FileStore.HasByte p.storageManager.disk path k b ∨
        ByteFrom start.disk p.storageManager.fileWriters (Delivered sha256 db taken) path k b := by
    intro path k b hbyte
    rcases writeStep_bytes hbyte with hbefore | rfl | ⟨rfl, rfl, hwritten⟩
    · exact .inl hbefore
    · exact .inr (.unwritten path k)
    · rcases hfits with hcheck | hempty | ⟨hdvd, hlength⟩
      · cases hcheck
      · cases hempty
      · refine .inr (.received hw ⟨.ofRequest request, hoffered, rfl, ?_, h.response, htaken,
          ⟨hcode, hdata⟩, rfl⟩ hlength hwritten)
        rw [Nat.div_mul_cancel hdvd]
        exact hoffset
  unfold ResponseHandler.actWriteChunk
  dsimp only
  rw [hw]
  refine ⟨rfl, hkeeps, holdsDelivered_insert hs hw hframe.same (fun path huses => ?_) hbytes, ?_⟩
  · exact hframe.files path fun i hi => huses (.inr ⟨i, hi⟩)
  · have hregistered : ∃ w', (p.storageManager.fileWriters.insert
        (StorageManager.fileRelPath request) (w.writeStep p.storageManager.disk h.response.data
          offset outcome pc).1).get (StorageManager.fileRelPath request) = some w' :=
      ⟨_, AssocMap.get_insert_self _ _ _⟩
    dsimp only
    split
    · rename_i result _
      cases result with
      | error e => trivial
      | ok u => exact hregistered
    · trivial
    · rename_i hnot _
      exact ⟨hoffered, hdata, hoffset, _, AssocMap.get_insert_self _ _ _,
        (chunkFits_writeStep hfits hnot).of_same hframe.same⟩

/-- A step of `consolidate`: its buffer is what was in the file of the chunk. -/
theorem turnDelivers_consolidate
    (hs : HoldsDelivered sha256 db start taken p.storageManager) {request : Request}
    {pc : FileWriter.ConsolidatePc}
    (hh : ResponseDelivers sha256 db start taken p.storageManager h.response
      (.consolidate request pc)) (outcome : Outcome) :
    TurnDelivers sha256 db start taken p.storageManager
      (h.actConsolidate p request pc outcome).2.storageManager h.response
      (h.actConsolidate p request pc outcome).1.pc := by
  obtain ⟨w, hw, hbuffer⟩ := hh
  have hframe := consolidateStep_frame w p.storageManager.disk outcome pc
  have hkeeps := keepsWriters_insert hw hframe.same
  have hbytes : ∀ path k b, FileStore.HasByte
      (w.consolidateStep p.storageManager.disk outcome pc).2.1 path k b →
      FileStore.HasByte p.storageManager.disk path k b ∨
        ByteFrom start.disk p.storageManager.fileWriters (Delivered sha256 db taken) path k b := by
    intro path k b hbyte
    rcases consolidateStep_bytes hbyte with hbefore | rfl | ⟨i, buf, j, hbuf, rfl, rfl, hwritten⟩
    · exact .inl hbefore
    · exact .inr (.unwritten path k)
    · exact .inr (.consolidated hw (hbuffer i buf hbuf j b hwritten))
  unfold ResponseHandler.actConsolidate
  dsimp only
  rw [hw]
  refine ⟨rfl, hkeeps, holdsDelivered_insert hs hw hframe.same hframe.files hbytes, ?_⟩
  have hregistered : (p.storageManager.fileWriters.insert (StorageManager.fileRelPath request)
      (w.consolidateStep p.storageManager.disk outcome pc).1).get
        (StorageManager.fileRelPath request) = some _ := AssocMap.get_insert_self _ _ _
  dsimp only
  split
  · trivial
  · exact ⟨_, hregistered⟩
  · refine ⟨_, hregistered, fun i buf hbuf k b hbyte => ?_⟩
    have hfrom : ByteFrom start.disk p.storageManager.fileWriters (Delivered sha256 db taken)
        (w.chunkPath i) k b := by
      rcases consolidateStep_buffered hbuf with hbefore | hread
      · exact hbuffer i buf hbefore k b hbyte
      · exact hs.bytes _ k b (hread k b hbyte)
    rw [hframe.same.chunkPath]
    exact byteFrom_mono hfrom hkeeps fun _ _ _ hd => hd

/-- The file that is removed is that of a writer. -/
theorem turnDelivers_removeFile
    (hs : HoldsDelivered sha256 db start taken p.storageManager)
    (hconfig : p.storageManager.config = start.config) {request : Request}
    (hh : Registered p.storageManager request) (outcome : Outcome) :
    TurnDelivers sha256 db start taken p.storageManager
      (h.actRemoveFile p request outcome).2.storageManager h.response
      (h.actRemoveFile p request outcome).1.pc := by
  obtain ⟨w, hw⟩ := hh
  have hpath : p.storageManager.localPath request.folder request.name = w.filePath := by
    rw [(hs.writers _ w hw).1, StorageManager.absPath, ← hconfig, StorageManager.localPath,
      StorageManager.fileRelPath, String.append_assoc, String.append_assoc, String.append_assoc,
      String.append_assoc, String.append_assoc]
  have hend : (h.actRemoveFile p request outcome).2.storageManager = p.storageManager ∨
      (h.actRemoveFile p request outcome).2.storageManager = { p.storageManager with
        disk := p.storageManager.disk.erase
          (p.storageManager.localPath request.folder request.name) } := by
    unfold ResponseHandler.actRemoveFile
    rw [continueWith_snd, BepProcessor.onStorage_run, StorageManager.rmLocalFile, EStateM.run_bind,
      RustM.run_getThe]
    dsimp only
    split
    · exact .inr rfl
    · exact .inl rfl
  have hpc : ResponseDelivers sha256 db start taken p.storageManager h.response
      (h.actRemoveFile p request outcome).1.pc := by
    unfold ResponseHandler.actRemoveFile
    rcases continueWith_fst h p (BepProcessor.onStorage (StorageManager.rmLocalFile request.folder
      request.name outcome)) _ with ⟨a, ha⟩ | ⟨e, he⟩
    · rw [ha]
      trivial
    · rw [he]
      trivial
  rcases hend with hend | hend
  · rw [hend]
    exact .of_same hs hpc
  · rw [hend]
    exact ⟨rfl, .refl _, holdsDelivered_erase hs hw hpath, hpc.mono (.refl _) (List.Subset.refl _)⟩

/-- A section on the tables leaves the files; the handler goes on where it is told. -/
theorem turnDelivers_onState
    (hs : HoldsDelivered sha256 db start taken p.storageManager) {α : Type}
    {held : RustM BepState α} {next : α → ResponseHandler}
    (hnext : ∀ a, ResponseDelivers sha256 db start taken p.storageManager x (next a).pc) :
    TurnDelivers sha256 db start taken p.storageManager
      (h.continueWith p (BepProcessor.onState held) next).2.storageManager x
      (h.continueWith p (BepProcessor.onState held) next).1.pc := by
  rw [continueWith_snd, BepProcessor.onState_run]
  refine .of_same hs ?_
  rcases continueWith_fst h p (BepProcessor.onState held) next with ⟨a, ha⟩ | ⟨e, he⟩
  · rw [ha]
    exact hnext a
  · rw [he]
    trivial

/-- One turn of `process_response`. -/
theorem turnDelivers_act (hinv : QueueInStep p.state) (hknows : Knows (OfferedBy db taken) p.state)
    (hs : HoldsDelivered sha256 db start taken p.storageManager)
    (hconfig : p.storageManager.config = start.config)
    (htaken : .response h.response ∈ taken)
    (hcode : ErrorCode.ofInt32 h.response.code = some .noError)
    (hh : ResponseDelivers sha256 db start taken p.storageManager h.response h.pc)
    (outcome : TurnOutcome) :
    TurnDelivers sha256 db start taken p.storageManager
      (h.act hash sha256 debugRequest p outcome).2.storageManager h.response
      (h.act hash sha256 debugRequest p outcome).1.pc := by
  unfold ResponseHandler.act
  cases hpc : h.pc with
  | getRequest =>
      dsimp only
      split
      · rename_i request hrequest
        exact .of_same hs (known_of_getRequest hinv hknows hrequest)
      · exact .of_same hs trivial
  | fileInfo request =>
      rw [hpc] at hh
      refine .of_same hs ?_
      dsimp only [ResponseHandler.actFileInfo]
      split
      · trivial
      · rename_i hchecked
        have hdata := hash_of_checkData hchecked
        split
        · trivial
        · split
          · exact ⟨hh, hdata⟩
          · trivial
          · trivial
  | createDir request fileSize blockSize =>
      rw [hpc] at hh
      refine .of_same hs ?_
      dsimp only [ResponseHandler.actCreateDir]
      split_ifs
      · split
        · trivial
        · exact hh
      · trivial
  | openWriter request fileSize blockSize =>
      rw [hpc] at hh
      exact turnDelivers_openWriter hs hconfig hh fileSize blockSize
  | writeChunk request fileSize blockSize offset pc =>
      rw [hpc] at hh
      exact turnDelivers_writeChunk hs htaken hcode hh outcome.file
  | updateState request fileSize blockSize =>
      rw [hpc] at hh
      refine turnDelivers_onState hs fun result => ?_
      dsimp only
      split
      · trivial
      · trivial
      · exact hh
  | concludeWriter request fileSize blockSize =>
      rw [hpc] at hh
      exact turnDelivers_concludeWriter hs hh fileSize blockSize
  | consolidate request pc =>
      rw [hpc] at hh
      exact turnDelivers_consolidate hs hh outcome.file
  | copy request n storageBackends copied =>
      rw [hpc] at hh
      refine .of_same hs ?_
      cases storageBackends with
      | nil => exact hh
      | cons storageBackend rest =>
          dsimp only [ResponseHandler.actCopy]
          split
          · trivial
          · trivial
          · exact hh
  | updateLocations request locations =>
      rw [hpc] at hh
      refine turnDelivers_onState hs fun _ => ?_
      split_ifs
      · exact hh
      · trivial
  | removeLocations request =>
      rw [hpc] at hh
      exact turnDelivers_onState hs fun _ => hh
  | removeFile request =>
      rw [hpc] at hh
      exact turnDelivers_removeFile hs hconfig hh outcome.file
  | removeRequest stored => exact turnDelivers_onState hs fun _ => trivial
  | returned result | panicked e =>
      refine .of_same hs ?_
      dsimp only
      rw [hpc]
      trivial

end Turns

/-! ## Runs -/

section Runs

variable {db : Database} {start m m' : StorageManager} {taken taken' : List CompleteMessage}
  {s s' : ServerState} {k k' : Connection} {event : ConnectionEvent} {r : ConnectionRecord}

/-- What a handler has in its hands. -/
def HandlerDelivers (sha256 : Bytes → Bytes) (db : Database) (start : StorageManager)
    (taken : List CompleteMessage) (m : StorageManager) : MessageHandler → Prop
  | .response h => .response h.response ∈ taken ∧
      ErrorCode.ofInt32 h.response.code = some .noError ∧
      ResponseDelivers sha256 db start taken m h.response h.pc
  | _ => True

/-- With more messages taken, any handler still has what it should. -/
theorem HandlerDelivers.mono {h : MessageHandler} (hh : HandlerDelivers sha256 db start taken m h)
    (hkeeps : KeepsWriters m.fileWriters m'.fileWriters) (hmore : taken ⊆ taken') :
    HandlerDelivers sha256 db start taken' m' h := by
  cases h with
  | response h => exact ⟨hmore hh.1, hh.2.1, hh.2.2.mono hkeeps hmore⟩
  | _ => trivial

/-- The state that all connections share, after the messages that were taken. -/
structure DeliveredInStep (sha256 : Bytes → Bytes) (db : Database) (start : StorageManager)
    (taken : List CompleteMessage) (s : ServerState) : Prop where
  inStep : QueueInStep s.processor.state
  knows : Knows (OfferedBy db taken) s.processor.state
  config : s.processor.storageManager.config = start.config
  holds : HoldsDelivered sha256 db start taken s.processor.storageManager

/-- A step of the files: the writers stay, and what is on the disk was delivered. -/
structure FilesDeliver (sha256 : Bytes → Bytes) (db : Database) (start : StorageManager)
    (taken : List CompleteMessage) (m m' : StorageManager) : Prop where
  config : m'.config = m.config
  keeps : KeepsWriters m.fileWriters m'.fileWriters
  holds : HoldsDelivered sha256 db start taken m'

/-- Files that are the same hold the same. -/
theorem filesDeliver_of_same (hs : HoldsDelivered sha256 db start taken m) (hsame : m' = m) :
    FilesDeliver sha256 db start taken m m' := by
  subst hsame
  exact ⟨rfl, .refl _, hs⟩

/-- A handler of an index leaves the files. -/
theorem storage_indexHandler (h : IndexHandler) (p : BepProcessor) :
    (h.act p).2.storageManager = p.storageManager := by
  cases hpc : h.pc with
  | writeIndices => rw [(act_writeIndices p hpc).1]
  | enqueue blocks => rw [(act_enqueue p hpc).1]
  | returned | panicked e =>
      unfold IndexHandler.act
      rw [hpc]

/-- A turn of any handler. -/
theorem delivers_act (hs : DeliveredInStep sha256 db start taken s) {h : MessageHandler}
    (hh : HandlerDelivers sha256 db start taken s.processor.storageManager h)
    (outcome : TurnOutcome) :
    FilesDeliver sha256 db start taken s.processor.storageManager
        (h.act hash sha256 debugRequest outcome s).2.processor.storageManager ∧
      HandlerDelivers sha256 db start taken
        (h.act hash sha256 debugRequest outcome s).2.processor.storageManager
        (h.act hash sha256 debugRequest outcome s).1 := by
  cases h with
  | clusterConfig h =>
      refine ⟨filesDeliver_of_same hs.holds (shares_act h s).storage, ?_⟩
      dsimp only [MessageHandler.act, MessageHandler.ofClusterConfig]
      split <;> trivial
  | index h =>
      refine ⟨filesDeliver_of_same hs.holds (storage_indexHandler h s.processor), ?_⟩
      dsimp only [MessageHandler.act, MessageHandler.ofIndex]
      split <;> trivial
  | response h =>
      obtain ⟨htaken, hcode, hpc⟩ := hh
      have hturn : TurnDelivers sha256 db start taken s.processor.storageManager
          (h.act hash sha256 debugRequest s.processor outcome).2.storageManager h.response
          (h.act hash sha256 debugRequest s.processor outcome).1.pc :=
        turnDelivers_act hs.inStep hs.knows hs.holds hs.config htaken hcode hpc outcome
      refine ⟨⟨hturn.config, hturn.keeps, hturn.holds⟩, ?_⟩
      dsimp only [MessageHandler.act, MessageHandler.ofResponse]
      split
      · trivial
      · trivial
      · refine ⟨?_, ?_, ?_⟩
        all_goals rw [act_response]
        · exact htaken
        · exact hcode
        · exact hturn.handler
  | returned results | panicked e => exact ⟨filesDeliver_of_same hs.holds rfl, trivial⟩

variable (config) in
/-- What is known of the handlers of a connection. -/
abbrev ClientDelivers (sha256 : Bytes → Bytes) (db : Database) (start : StorageManager)
    (taken : List CompleteMessage) (s : ServerState) (k : Connection) (r : ConnectionRecord) :
    Prop :=
  ConnectionFollows (HandlerDelivers sha256 db start taken s.processor.storageManager)
    (fun _ => True) k r

/-- A step writes only delivered bytes. -/
theorem filesDeliver_of_moved (hs : DeliveredInStep sha256 db start taken s)
    (hk : ClientDelivers sha256 db start taken s k r)
    (hmoved : Moved codec hash sha256 debugRequest config k s event k' s') :
    FilesDeliver sha256 db start taken s.processor.storageManager
      s'.processor.storageManager := by
  have hsame := filesDeliver_of_same hs.holds rfl
  cases hmoved with
  | turn i input task task' queued s' htask hturned hqueued =>
      have hbefore := hk.tasks task (List.mem_of_getElem? htask)
      cases hturned with
      | act h messages => exact (delivers_act hs hbefore input.outcome).1
      | _ => exact hsame
  | broken event events p outcome hevents hp hwritten =>
      rw [hp]
      exact filesDeliver_of_same hs.holds (requestsFor_storage config event s.processor)
  | wrote event events requests p data outcome hevents hrequests hdata =>
      have hstorage := requestsFor_storage config event s.processor
      rw [hrequests, RustM.endState_ok] at hstorage
      exact filesDeliver_of_same hs.holds hstorage
  | _ => exact hsame

/-- A step keeps the files in step with the messages taken. -/
theorem deliveredInStep_of_moved (hs : DeliveredInStep sha256 db start taken s)
    (hindices : ClientKnows db (taken.filterMap broughtIndex) k r)
    (hk : ClientDelivers sha256 db start taken s k r)
    (hmoved : Moved codec hash sha256 debugRequest config k s event k' s') :
    DeliveredInStep sha256 db start (taken ++ takenMessage k event) s' := by
  have hmore : taken ⊆ taken ++ takenMessage k event := List.subset_append_left _ _
  have hfiles := filesDeliver_of_moved hs hk hmoved
  exact ⟨(idsKept_of_moved hs.inStep hmoved).1,
    (knows_of_moved hs.inStep hs.knows hindices hmoved).1.mono (offeredBy_mono db hmore),
    hfiles.config.trans hs.config, holdsDelivered_mono hfiles.holds hmore⟩

/-- And the connection that takes it. -/
theorem clientDelivers_of_moved (hs : DeliveredInStep sha256 db start taken s)
    (hk : ClientDelivers sha256 db start taken s k r)
    (hmoved : Moved codec hash sha256 debugRequest config k s event k' s') :
    ClientDelivers sha256 db start (taken ++ takenMessage k event) s' k'
      (r.extend codec config s k event) := by
  have hmore : taken ⊆ taken ++ takenMessage k event := List.subset_append_left _ _
  have hkeeps := (filesDeliver_of_moved hs hk hmoved).keeps
  refine follows_of_moved hk hmoved (fun _ hh => hh.mono hkeeps hmore) (fun _ _ => trivial)
    (fun clock m hm => ?_) (fun h outcome hh heq => ?_) (fun _ _ _ _ => trivial) trivial
    fun _ => trivial
  · -- only a response without an error comes to a handler of its own
    cases m with
    | response x =>
        unfold MessageHandler.handleCompleteMessage MessageHandler.handleResponse
        dsimp only
        split
        · trivial
        · rename_i code hcode
          split_ifs with hne
          · trivial
          · refine ⟨List.mem_append_right _ hm, ?_, trivial⟩
            rw [ResponseHandler.new, hcode, ← not_not.mp hne]
    | _ => trivial
  · subst heq
    exact (delivers_act hs hh outcome).2.mono (.refl _) hmore

/-- **Nothing is on the disk but what was delivered.** However the connections of a server take
turns: no file is touched but those of the writers, which are of files that were offered, and
every byte of a file was there, is zero, or is that byte of data with the hash of an offered
block of the file, at the place of the block. -/
theorem holdsDelivered_of_run (codec : Codec) (hash : String → ℕ → ℕ → UInt64)
    (sha256 : Bytes → Bytes) (debugRequest : Request → String) (config : ConnectionConfig)
    {state : ServerState} {db : Database} (hstart : state.processor.state = .new db)
    (hwriters : state.processor.storageManager.fileWriters = .empty) {es : List ServerEvent}
    {s : Server}
    (hrun : Transition.run (serverStep codec hash sha256 debugRequest config) (.start state) es =
      some s) :
    HoldsDelivered sha256 db state.processor.storageManager
      (takenIn codec hash sha256 debugRequest config (.start state) es)
      s.state.processor.storageManager := by
  let start := state.processor.storageManager
  have hfirst : DeliveredInStep sha256 db start [] state := by
    refine ⟨?_, ?_, rfl, fun key w hw => ?_, fun path hpath => absurd rfl hpath,
      fun path k b hbyte => .kept hbyte⟩
    · rw [hstart]
      exact queueInStep_new db
    · rw [hstart]
      exact knows_new fun key hkey => .inl ⟨key, hkey, rfl⟩
    · rw [hwriters] at hw
      cases hw
  exact (server_of_run (fun _ => takenMessage) (P := DeliveredInStep sha256 db start)
    (Q := fun taken s k r => ClientKnows db (taken.filterMap broughtIndex) k r ∧
      ClientDelivers sha256 db start taken s k r) hfirst
    (fun _ _ d => ⟨follows_new d, follows_new d⟩)
    (fun taken s k event k' s' r hs ⟨hindices, hk⟩ hmoved => by
      refine ⟨deliveredInStep_of_moved hs hindices hk hmoved, ?_,
        clientDelivers_of_moved hs hk hmoved⟩
      rw [List.filterMap_append]
      exact clientKnows_of_moved hs.knows hindices hmoved)
    (fun taken s k event k' s' r k₂ r₂ hs ⟨_, hk⟩ hmoved ⟨hindices₂, hk₂⟩ => by
      have hmore : taken ⊆ taken ++ takenMessage k event := List.subset_append_left _ _
      exact ⟨hindices₂.mono (fun _ hh => hh.mono (offeredBy_mono db hmore)) fun _ _ => trivial,
        hk₂.mono (fun _ hh => hh.mono (filesDeliver_of_moved hs hk hmoved).keeps hmore)
          fun _ _ => trivial⟩) hrun).1.holds

/-- Witness: the one file of the disk is the chunk that came. -/
theorem holdsDelivered_of_run_fetched :
    ∃ s, Transition.run (serverStep fetchedMessages (fun _ _ _ => 0) pairHash (fun _ => "")
        unnamedConfig) (.start unsharedState) fetchedRun = some s ∧
      s.state.processor.storageManager.disk.entries.map Prod.snd = [[1]] ∧
      HoldsDelivered pairHash unsharedState.processor.state.db
        unsharedState.processor.storageManager
        (takenIn fetchedMessages (fun _ _ _ => 0) pairHash (fun _ => "") unnamedConfig
          (.start unsharedState) fetchedRun)
        s.state.processor.storageManager := by
  have hdisk : ((Transition.run (serverStep fetchedMessages (fun _ _ _ => 0) pairHash
      (fun _ => "") unnamedConfig) (.start unsharedState) fetchedRun).map fun s =>
        s.state.processor.storageManager.disk.entries.map Prod.snd) = some [[1]] := by
    decide +kernel
  obtain ⟨s, hrun, hone⟩ := Option.map_eq_some_iff.mp hdisk
  exact ⟨s, hrun, hone, holdsDelivered_of_run fetchedMessages (fun _ _ _ => 0) pairHash
    (fun _ => "") unnamedConfig rfl rfl hrun⟩

end Runs

end Grizol.Analysis
