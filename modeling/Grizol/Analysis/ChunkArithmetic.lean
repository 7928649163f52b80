import Grizol.Analysis.BlockMarking
import Grizol.Analysis.MarkedBlocks
import Grizol.Analysis.WriterRegistry
import Grizol.Interface.ChunkArithmetic

/-!
# When the arithmetic on chunks is defined

`FileWriter::new` works with `usize` and divides by the announced block size as it is;
`update_block_storage_state` works with `i64`. Both need a block size that is not zero, and
the second needs the sum of the sizes to be an `i64`. Nothing checks the sizes before.
-/

set_option autoImplicit false

namespace Grizol.Analysis

open Grizol.Library
open Grizol.Model Grizol.Model.Syncthing Grizol.Interface

/-! ## Numbers -/

section Numbers

variable {hash : String → ℕ → ℕ → UInt64} {fileSize chunkSize : ℕ}

/-- A cast divides nothing. -/
theorem toSize_ne_divideByZero (x : ℤ) : BepProcessor.toSize x ≠ .error .divideByZero := by
  rw [BepProcessor.toSize]
  split_ifs <;> simp [Rust.unwrap]

/-- Nor does a sum in the database. -/
theorem i64_ne_divideByZero (x : ℤ) : BepState.i64 x ≠ .error .divideByZero := by
  rw [BepState.i64]
  split_ifs <;> simp

/-- The number of expected blocks is not a quotient by zero. -/
theorem expectedBlocks_ne_divideByZero {byteSize : Int64} {blockSize : Int32}
    (hne : blockSize ≠ 0) :
    BepState.expectedBlocks byteSize blockSize ≠ .error .divideByZero := by
  rw [BepState.expectedBlocks]
  refine Rust.bind_ne_error (i64_ne_divideByZero _) fun sum _ => ?_
  refine Rust.bind_ne_error (i64_ne_divideByZero _) fun sum _ => ?_
  rw [if_neg hne]
  refine Rust.bind_ne_error (i64_ne_divideByZero _) fun blocks _ => ?_
  simp

/-- A writer with chunks of some size divides by that. -/
theorem new_ne_divideByZero (path : String) (hpos : 0 < chunkSize) :
    FileWriter.new hash path fileSize chunkSize ≠ .error .divideByZero := by
  rw [FileWriter.new]
  refine Rust.bind_ne_error ?_ fun sum _ => Rust.bind_ne_error ?_ fun sum _ =>
    Rust.bind_ne_error ?_ fun n _ => ?_
  · rw [Rust.add]
    split_ifs <;> simp
  · rw [Rust.sub]
    split_ifs <;> simp
  · rw [Rust.div_of_pos hpos]
    simp
  · rw [dif_pos hpos]
    simp

end Numbers

/-! ## Sections -/

section Sections

variable {hash : String → ℕ → ℕ → UInt64} {e : Fault} {p : BepProcessor}

/-- A call on the state avoids what the state does. -/
theorem avoids_onState {α : Type} {x : RustM BepState α} (h : RustM.Avoids e x p.state) :
    RustM.Avoids e (BepProcessor.onState x) p := by
  cases hrun : x.run p.state with
  | ok a s => exact RustM.avoids_of_ok (BepProcessor.onState_eq_ok hrun)
  | error e' s =>
      refine RustM.avoids_of_ne (BepProcessor.onState_eq_error hrun) ?_
      rintro rfl
      exact h s hrun

/-- A call on the storage manager avoids what the manager does. -/
theorem avoids_onStorage {α : Type} {x : RustM StorageManager α}
    (h : RustM.Avoids e x p.storageManager) : RustM.Avoids e (BepProcessor.onStorage x) p := by
  cases hrun : x.run p.storageManager with
  | ok a m => exact RustM.avoids_of_ok (BepProcessor.onStorage_eq_ok hrun)
  | error e' m =>
      refine RustM.avoids_of_ne (BepProcessor.onStorage_eq_error hrun) ?_
      rintro rfl
      exact h m hrun

/-- A call on the queue avoids what the queue does. -/
theorem avoids_onQueue {α : Type} {x : RustM OutgoingRequests α} {s : BepState}
    (h : RustM.Avoids e x s.outgoingRequests) : RustM.Avoids e (BepState.onQueue x) s := by
  cases hrun : x.run s.outgoingRequests with
  | ok a q => exact RustM.avoids_of_ok (onQueue_eq_ok hrun)
  | error e' q =>
      refine RustM.avoids_of_ne (onQueue_eq_error hrun) ?_
      rintro rfl
      exact h q hrun

/-- A writer is looked up without a division by zero when the chunks have a size. -/
theorem entryWriter_avoids (key path : String) (fileSize : ℕ) {chunkSize : ℕ}
    (hpos : 0 < chunkSize) (m : StorageManager) : RustM.Avoids .divideByZero
      (StorageManager.entryWriter hash key path fileSize chunkSize) m := by
  rw [StorageManager.entryWriter]
  refine RustM.avoids_bind (RustM.avoids_lift (new_ne_divideByZero path hpos)) fun w m₁ _ => ?_
  exact RustM.avoids_of_ok rfl

/-- The blocks of a file with a block size are counted without one. -/
theorem updateBlockStorageState_avoids {requestId : Int32} {deviceId : DeviceId} {s : BepState}
    (hrow : ∀ r row, s.getRequest requestId = some r →
      s.db.bepFileInfo.get ⟨r.folder, deviceId, r.name⟩ = some row → row.blockSize ≠ 0) :
    RustM.Avoids .divideByZero (BepState.updateBlockStorageState requestId deviceId) s := by
  rw [BepState.updateBlockStorageState]
  refine RustM.avoids_bind (RustM.avoids_of_ok (RustM.run_getThe s)) fun s₁ s₂ hget => ?_
  obtain ⟨rfl, rfl⟩ := EStateM.Result.ok.inj ((RustM.run_getThe s).symm.trans hget)
  cases hrequest : s.outgoingRequests.get requestId with
  | none => exact RustM.avoids_of_ne rfl (by simp : Fault.unwrap ≠ .divideByZero)
  | some r =>
      dsimp only
      refine RustM.avoids_bind (RustM.avoids_of_ok (RustM.run_lift_ok r s)) fun r' s₃ hr => ?_
      obtain ⟨rfl, rfl⟩ := EStateM.Result.ok.inj ((RustM.run_lift_ok r s).symm.trans hr)
      split
      · rename_i row n hget' hstored
        refine RustM.avoids_bind (RustM.avoids_lift (expectedBlocks_ne_divideByZero
          (hrow r row hrequest hget'))) fun blocks s₄ _ => ?_
        refine RustM.avoids_bind (RustM.avoids_of_ok rfl) fun _ s₅ _ => ?_
        split <;> exact RustM.avoids_of_ok rfl
      · exact RustM.avoids_of_ne rfl (by simp [Database.failedQuery])

/-- Locations divide nothing. -/
theorem insertLocations_ne_divideByZero (key : FileKey) (locations : List (String × String))
    (tx : Database) :
    BepState.insertLocations key locations tx ≠ .error .divideByZero := by
  induction locations generalizing tx with
  | nil => simp [BepState.insertLocations]
  | cons l locations ih =>
      refine Rust.bind_ne_error ?_ fun tx' _ => ih tx'
      rw [Database.insertLocation]
      split_ifs <;> simp [Database.failedQuery]

/-- Nor does recording them. -/
theorem updateFileLocations_avoids (folder : String) (deviceId : DeviceId) (fileName : String)
    (locations : List (String × String)) (s : BepState) : RustM.Avoids .divideByZero
      (BepState.updateFileLocations folder deviceId fileName locations) s := by
  rw [BepState.updateFileLocations]
  refine RustM.avoids_bind (RustM.avoids_of_ok (RustM.run_getThe s)) fun s₁ s₂ _ => ?_
  refine RustM.avoids_bind (RustM.avoids_lift
    (insertLocations_ne_divideByZero _ locations s₁.db)) fun tx s₃ _ => ?_
  exact RustM.avoids_of_ok rfl

/-- Nor does removing a local file. -/
theorem rmLocalFile_avoids (folder name : String) (outcome : Outcome) (m : StorageManager) :
    RustM.Avoids .divideByZero (StorageManager.rmLocalFile folder name outcome) m := by
  rw [StorageManager.rmLocalFile]
  refine RustM.avoids_bind (RustM.avoids_of_ok (RustM.run_getThe m)) fun m₁ m₂ _ => ?_
  split <;> exact RustM.avoids_of_ok rfl

/-- An assertion fails in another way. -/
theorem assert_ne_divideByZero (q : Prop) [Decidable q] :
    Rust.assert q ≠ .error .divideByZero := by
  rw [Rust.assert]
  split_ifs <;> simp

/-- Forgetting a request divides nothing. -/
theorem remove_avoids (requestId : Int32) (q : OutgoingRequests) :
    RustM.Avoids .divideByZero (OutgoingRequests.remove requestId) q := by
  rw [OutgoingRequests.remove]
  refine RustM.avoids_bind (RustM.avoids_of_ok (RustM.run_getThe q)) fun q₁ q₂ _ => ?_
  dsimp only
  refine RustM.avoids_bind (RustM.avoids_of_ok rfl) fun _ q₃ _ => ?_
  cases q₁.requestsById.get requestId with
  | none => exact RustM.avoids_of_ok rfl
  | some r =>
      have hquery : OutgoingRequest.ofRequest r ≠ .error .divideByZero := by
        rw [OutgoingRequest.ofRequest]
        split_ifs <;> simp
      have hsub (a b : ℕ) : Rust.sub a b ≠ .error .divideByZero := by
        rw [Rust.sub]
        split_ifs <;> simp
      refine RustM.avoids_bind (RustM.avoids_lift hquery) fun _ _ _ => ?_
      refine RustM.avoids_bind (RustM.avoids_of_ok rfl) fun _ _ _ => ?_
      refine RustM.avoids_bind (RustM.avoids_of_ok rfl) fun _ _ _ => ?_
      refine RustM.avoids_bind (RustM.avoids_lift (assert_ne_divideByZero _)) fun _ _ _ => ?_
      refine RustM.avoids_bind (RustM.avoids_of_ok rfl) fun _ _ _ => ?_
      refine RustM.avoids_bind (RustM.avoids_of_ok rfl) fun _ _ _ => ?_
      refine RustM.avoids_bind (RustM.avoids_lift (assert_ne_divideByZero _)) fun _ _ _ => ?_
      refine RustM.avoids_bind (RustM.avoids_of_ok rfl) fun _ _ _ => ?_
      refine RustM.avoids_bind (RustM.avoids_lift (assert_ne_divideByZero _)) fun _ _ _ => ?_
      refine RustM.avoids_bind (RustM.avoids_lift (hsub _ _)) fun _ _ _ => ?_
      exact RustM.avoids_bind (RustM.avoids_of_ok rfl) fun _ _ _ => RustM.avoids_of_ok rfl

end Sections

/-! ## Turns -/

section Turns

variable {hash : String → ℕ → ℕ → UInt64} {sha256 : Bytes → Bytes}
  {debugRequest : Request → String} {folder name : String} {file : FileInfo}
  {response : Response} {p : BepProcessor} {h : ResponseHandler}

/-- The sizes a handler works with. -/
def sizesOf : ResponsePc → Option (ℕ × ℕ)
  | .createDir _ fileSize blockSize | .openWriter _ fileSize blockSize
  | .writeChunk _ fileSize blockSize _ _ | .updateState _ fileSize blockSize
  | .concludeWriter _ fileSize blockSize => some (fileSize, blockSize)
  | _ => none

/-- The handler of the response has not divided by zero, and is not about to. -/
structure Dividing (folder name : String) (response : Response) (h : ResponseHandler) :
    Prop where
  response_eq : h.response = response
  ne_panicked : h.pc ≠ .panicked .divideByZero
  request : ∀ request, h.pc = .fileInfo request → request.folder = folder ∧ request.name = name
  blockSize_pos : ∀ fileSize blockSize, sizesOf h.pc = some (fileSize, blockSize) → 0 < blockSize
  writing : ∀ request fileSize blockSize offset pc,
    h.pc = .writeChunk request fileSize blockSize offset pc → pc ≠ .panicked .divideByZero

/-- It goes on with the same sizes, or with none. -/
theorem dividing_goto {pc : ResponsePc} (hinv : Dividing folder name response h)
    (hpc : sizesOf pc = none ∨ sizesOf pc = sizesOf h.pc) (hne : pc ≠ .panicked .divideByZero)
    (hrequest : ∀ request, pc ≠ .fileInfo request)
    (hwriting : ∀ request fileSize blockSize offset,
      pc ≠ .writeChunk request fileSize blockSize offset (.panicked .divideByZero)) :
    Dividing folder name response (h.goto pc) where
  response_eq := hinv.response_eq
  ne_panicked := hne
  request request hfile := absurd hfile (hrequest request)
  blockSize_pos fileSize blockSize hsizes := by
    rcases hpc with hnone | hsame
    · exact absurd (hnone.symm.trans hsizes) (by simp)
    · exact hinv.blockSize_pos fileSize blockSize (hsame.symm.trans hsizes)
  writing request fileSize blockSize offset pc' hwrite := by
    rintro rfl
    exact hwriting _ _ _ _ hwrite

/-- Another panic keeps the account. -/
theorem dividing_panicked {e : Fault} (hinv : Dividing folder name response h)
    (hne : e ≠ .divideByZero) : Dividing folder name response (h.goto (.panicked e)) :=
  dividing_goto hinv (Or.inl rfl) (by simpa using hne) (by simp) (by simp)

/-- So does a section that divides nothing. -/
theorem dividing_continueWith {α : Type} {x : RustM BepProcessor α} {next : α → ResponseHandler}
    (hinv : Dividing folder name response h) (hx : RustM.Avoids .divideByZero x p)
    (hnext : ∀ a, Dividing folder name response (next a)) :
    Dividing folder name response (h.continueWith p x next).1 := by
  unfold ResponseHandler.continueWith
  cases hrun : x.run p with
  | ok a p' => exact hnext a
  | error e p' =>
      refine dividing_panicked hinv ?_
      rintro rfl
      exact hx p' hrun

/-- And the section behind the write. -/
theorem dividing_afterStore {request : Request} {fileSize blockSize : ℕ}
    (hinv : Dividing folder name response h)
    (hsizes : sizesOf h.pc = some (fileSize, blockSize)) (result : Except IoError Unit) :
    Dividing folder name response (h.afterStore request fileSize blockSize result) where
  response_eq := hinv.response_eq
  ne_panicked := by cases result <;> simp [ResponseHandler.afterStore]
  request := by cases result <;> simp [ResponseHandler.afterStore]
  blockSize_pos fileSize' blockSize' h' := by
    cases result with
    | error e => cases h'
    | ok u =>
        obtain ⟨rfl, rfl⟩ := Prod.mk.inj (Option.some.inj h')
        exact hinv.blockSize_pos _ _ hsizes
  writing := by cases result <;> simp [ResponseHandler.afterStore]

/-- The sizes that are read have no zero in them, or the handler goes no further. -/
theorem dividing_fileInfo {request : Request} (hne : file.blockSize ≠ 0)
    (hoffers : Offers folder name file response.id p) (hinv : Dividing folder name response h)
    (hpc : h.pc = .fileInfo request) :
    Dividing folder name response (h.actFileInfo sha256 debugRequest p request) := by
  obtain ⟨hfolder, hname⟩ := hinv.request request hpc
  unfold ResponseHandler.actFileInfo
  split
  · exact dividing_goto hinv (Or.inl rfl) (by simp) (by simp) (by simp)
  · rw [hfolder, hname, hoffers.recorded]
    dsimp only
    split
    · rename_i fileSize blockSize hsize hblock
      refine ⟨hinv.response_eq, by simp [ResponseHandler.goto], by simp [ResponseHandler.goto], ?_,
        by simp [ResponseHandler.goto]⟩
      intro fileSize' blockSize' hsizes
      obtain ⟨rfl, rfl⟩ := Prod.mk.inj (Option.some.inj hsizes)
      exact (blockSize_ne_zero_iff (toSize_eq_ok.mp hblock)).mp hne
    · rename_i e hsize
      refine dividing_panicked hinv ?_
      rintro rfl
      exact toSize_ne_divideByZero _ hsize
    · rename_i e hblock _
      refine dividing_panicked hinv ?_
      rintro rfl
      exact toSize_ne_divideByZero _ hblock

/-- A call of `write_chunk` panics in no other way than by an overflow: its writer has chunks of
some size. -/
theorem writeStep_ne_divideByZero (w : FileWriter) (files : FileStore) (data : Bytes) (offset : ℕ)
    (outcome : Outcome) {pc : FileWriter.WritePc} (hpc : pc ≠ .panicked .divideByZero) :
    (w.writeStep files data offset outcome pc).2.2 ≠ .panicked .divideByZero := by
  unfold FileWriter.writeStep
  cases pc with
  | check =>
      dsimp only [FileWriter.checkChunk]
      split_ifs <;> simp
  | enter =>
      dsimp only
      split <;> simp
  | acquire =>
      dsimp only [FileWriter.compareExchange]
      split_ifs <;> simp
  | leave =>
      dsimp only
      split <;> simp
  | openEmpty | openChunk | setLen | writeAll | syncAll => cases outcome <;> simp
  | release | returned result => simp
  | panicked fault => exact hpc

/-- And a turn of the write. -/
theorem dividing_writeChunk {request : Request} {fileSize blockSize offset : ℕ}
    {pc : FileWriter.WritePc} (hinv : Dividing folder name response h)
    (hpc : h.pc = .writeChunk request fileSize blockSize offset pc) (outcome : Outcome) :
    Dividing folder name response
      (h.actWriteChunk p request fileSize blockSize offset pc outcome).1 := by
  have hsizes : sizesOf h.pc = some (fileSize, blockSize) := by
    rw [hpc]
    rfl
  unfold ResponseHandler.actWriteChunk
  dsimp only
  split
  · exact hinv
  · rename_i w hw
    have hstep := writeStep_ne_divideByZero w p.storageManager.disk h.response.data offset outcome
      (hinv.writing _ _ _ _ _ hpc)
    dsimp only
    split
    · exact dividing_afterStore hinv hsizes _
    · rename_i fault hfault
      refine dividing_panicked hinv ?_
      rintro rfl
      exact hstep hfault
    · refine dividing_goto hinv (Or.inr hsizes.symm) (by simp) (by simp) ?_
      intro request' fileSize' blockSize' offset' hsame
      exact hstep (ResponsePc.writeChunk.inj hsame).2.2.2.2

/-- A turn keeps to it while the file is recorded with a block size. -/
theorem dividing_act (hne : file.blockSize ≠ 0) (hoffers : Offers folder name file response.id p)
    (hinv : Dividing folder name response h) (outcome : TurnOutcome) :
    Dividing folder name response (h.act hash sha256 debugRequest p outcome).1 := by
  unfold ResponseHandler.act
  cases hpc : h.pc with
  | getRequest =>
      dsimp only
      split
      · rename_i request hrequest
        rw [hinv.response_eq] at hrequest
        refine ⟨hinv.response_eq, by simp [ResponseHandler.goto], ?_, ?_,
          by simp [ResponseHandler.goto]⟩
        · intro request' hsame
          obtain rfl := ResponsePc.fileInfo.inj hsame
          exact hoffers.request _ hrequest
        · intro fileSize blockSize hsizes
          cases hsizes
      · exact dividing_goto hinv (Or.inl rfl) (by simp) (by simp) (by simp)
  | fileInfo request => exact dividing_fileInfo hne hoffers hinv hpc
  | createDir request fileSize blockSize =>
      dsimp only [ResponseHandler.actCreateDir]
      split_ifs
      · cases outcome.file with
        | fails e =>
            refine dividing_afterStore hinv ?_ _
            rw [hpc]
            rfl
        | ok =>
            refine dividing_goto hinv (Or.inr ?_) (by simp) (by simp) (by simp)
            rw [hpc]
            rfl
      · exact dividing_panicked hinv (by simp)
  | openWriter request fileSize blockSize =>
      have hpos : 0 < blockSize := hinv.blockSize_pos fileSize blockSize (by rw [hpc]; rfl)
      refine dividing_continueWith hinv (avoids_onStorage (entryWriter_avoids _ _ _ hpos _))
        fun w => ?_
      split
      · exact dividing_panicked hinv (by simp)
      · refine dividing_goto hinv (Or.inr ?_) (by simp) (by simp) (by simp)
        rw [hpc]
        rfl
  | writeChunk request fileSize blockSize offset pc => exact dividing_writeChunk hinv hpc _
  | updateState request fileSize blockSize =>
      -- the file that the section reads is the one of the request, and recorded
      have hrow : ∀ r row, p.state.getRequest h.response.id = some r →
          p.state.db.bepFileInfo.get ⟨r.folder, p.config.localDeviceId, r.name⟩ = some row →
            row.blockSize ≠ 0 := by
        intro r row hr hget
        rw [hinv.response_eq] at hr
        obtain ⟨rfl, rfl⟩ := hoffers.request r hr
        have hrecorded := hoffers.recorded
        rw [BepState.fileInfo, hget] at hrecorded
        rw [← Option.some.inj hrecorded] at hne
        exact hne
      have hpos : 0 < blockSize := hinv.blockSize_pos fileSize blockSize (by rw [hpc]; rfl)
      refine dividing_continueWith hinv (avoids_onState (updateBlockStorageState_avoids hrow))
        fun result => ?_
      refine ⟨hinv.response_eq, ?_, ?_, ?_, ?_⟩
      · rcases result with e | - | - <;> simp
      · rcases result with e | - | - <;> simp
      · intro fileSize' blockSize' hsizes
        rcases result with e | - | -
        · cases hsizes
        · cases hsizes
        · obtain ⟨rfl, rfl⟩ := Prod.mk.inj (Option.some.inj hsizes)
          exact hpos
      · rcases result with e | - | - <;> simp
  | concludeWriter request fileSize blockSize =>
      have hpos : 0 < blockSize := hinv.blockSize_pos fileSize blockSize (by rw [hpc]; rfl)
      exact dividing_continueWith hinv (avoids_onStorage (entryWriter_avoids _ _ _ hpos _))
        fun w => dividing_goto hinv (Or.inl rfl) (by simp) (by simp) (by simp)
  | consolidate request pc =>
      dsimp only [ResponseHandler.actConsolidate]
      split
      · exact hinv
      · dsimp only
        split <;> exact dividing_goto hinv (Or.inl rfl) (by simp) (by simp) (by simp)
  | copy request n backends copied =>
      cases backends with
      | nil => exact dividing_goto hinv (Or.inl rfl) (by simp) (by simp) (by simp)
      | cons backend backends =>
          dsimp only [ResponseHandler.actCopy]
          split
          · exact dividing_panicked hinv (by simp)
          · exact dividing_panicked hinv (by simp)
          · exact dividing_goto hinv (Or.inl rfl) (by simp) (by simp) (by simp)
  | updateLocations request locations =>
      refine dividing_continueWith hinv (avoids_onState (updateFileLocations_avoids _ _ _ _ _))
        fun _ => ?_
      split_ifs <;> exact dividing_goto hinv (Or.inl rfl) (by simp) (by simp) (by simp)
  | removeLocations request =>
      exact dividing_continueWith hinv (avoids_onState (RustM.avoids_of_ok rfl))
        fun _ => dividing_goto hinv (Or.inl rfl) (by simp) (by simp) (by simp)
  | removeFile request =>
      exact dividing_continueWith hinv (avoids_onStorage (rmLocalFile_avoids _ _ _ _))
        fun _ => dividing_goto hinv (Or.inl rfl) (by simp) (by simp) (by simp)
  | removeRequest stored =>
      exact dividing_continueWith hinv
        (avoids_onState (avoids_onQueue (remove_avoids _ _)))
        fun _ => dividing_goto hinv (Or.inl rfl) (by simp) (by simp) (by simp)
  | returned result | panicked fault => exact hinv

/-- And so do all its turns. -/
theorem dividing_afterTurns (hne : file.blockSize ≠ 0)
    {turns : List (BepProcessor × TurnOutcome)}
    (hoffers : ∀ t ∈ turns, Offers folder name file response.id t.1)
    (hinv : Dividing folder name response h) :
    Dividing folder name response (afterTurns hash sha256 debugRequest h turns) := by
  induction turns generalizing h with
  | nil => exact hinv
  | cons t turns ih =>
      obtain ⟨hfirst, hrest⟩ := List.forall_mem_cons.mp hoffers
      exact ih hrest (dividing_act hne hfirst hinv t.2)

end Turns

/-! ## Files -/

section Files

variable {hash : String → ℕ → ℕ → UInt64} {sha256 : Bytes → Bytes}
  {debugRequest : Request → String} {file : FileInfo}

/-- **The arithmetic on the chunks of a file is defined and consistent exactly when its sizes fit.**
For every file of a size that is not negative, and whatever the peer announced as the size of
its blocks. -/
theorem chunksAgree_iff (hsize : 0 ≤ file.size.toInt) :
    ChunksAgree hash sha256 debugRequest file ↔ SizesFit file := by
  obtain ⟨fileSize, hfile⟩ := Int.eq_ofNat_of_zero_le hsize
  constructor
  · intro hagree
    by_cases hblock : 0 ≤ file.blockSize.toInt
    · obtain ⟨chunkSize, hchunk⟩ := Int.eq_ofNat_of_zero_le hblock
      obtain ⟨w, n, -, hexpected, -⟩ := hagree.counted "" fileSize chunkSize
        (toSize_eq_ok.mpr hfile) (toSize_eq_ok.mpr hchunk)
      exact ((expectedBlocks_eq_ok_iff hfile hchunk).mp hexpected).1
    · -- the handler stops where it reads a negative block size
      have hlt := file.size.toInt_lt
      refine ⟨?_, by omega⟩
      intro hzero
      rw [hzero] at hblock
      exact hblock (by decide)
  · intro hfit
    constructor
    · intro folder name response turns hoffers
      have hstart : Dividing folder name response (.new response) :=
        ⟨rfl, by simp [ResponseHandler.new], by simp [ResponseHandler.new],
          by simp [ResponseHandler.new, sizesOf], by simp [ResponseHandler.new]⟩
      exact (dividing_afterTurns hfit.1 hoffers hstart).ne_panicked
    · intro path fileSize' chunkSize hfile' hchunk
      rw [toSize_eq_ok] at hfile' hchunk
      have hpos := (blockSize_ne_zero_iff hchunk).mp hfit.1
      have hlt := hfit.2
      have hwidth : fileSize' + chunkSize < 2 ^ 64 := by omega
      obtain ⟨w, hnew, -, -, hwsize, hwchunk, -⟩ := new_eq_ok hash path hpos hwidth
      refine ⟨w, _, hnew, (expectedBlocks_eq_ok_iff hfile' hchunk).mpr ⟨hfit, rfl⟩, ?_⟩
      intro hpositive
      have hfirst : 0 < chunkCount fileSize' chunkSize := by
        rw [lt_chunkCount_iff hpos]
        omega
      rw [w.writingChunk_length, hwsize, hwchunk]
      omega

/-- Witness: a file of two blocks. -/
theorem chunksAgree_iff_pair :
    ChunksAgree (fun _ _ _ => 0) pairHash (fun _ => "") pairFile := by
  have hsize : 0 ≤ pairFile.size.toInt := by decide
  exact (chunksAgree_iff hsize).mpr (by decide)

end Files

/-! ## A peer that leaves the block size out -/

section Example

/-- A file of one block; a block size that is left out is read as zero. -/
def unsizedFile : FileInfo :=
  { name := "a", size := 1, version := some ⟨[⟨1, 1⟩]⟩, blocks := [⟨0, 1, pairHash [1], 0⟩] }

/-- The server after the index with the file. -/
def unsizedServer : BepProcessor :=
  RustM.endState ((BepProcessor.handleIndex ⟨"default", [unsizedFile]⟩ clientDevice
    fun _ => 0).run startedServer)

/-- Whether a handler died dividing by zero. -/
def divided : ResponsePc → Bool
  | .panicked .divideByZero => true
  | _ => false

/-- Whether a division by zero was the end is decided. -/
theorem divided_iff (pc : ResponsePc) : divided pc = true ↔ pc = .panicked .divideByZero := by
  constructor
  · intro h
    unfold divided at h
    split at h
    · rfl
    · cases h
  · rintro rfl
    rfl

/-- The handler of the response for the block of such a file divides by zero. -/
theorem unsized_divides :
    ¬ ∀ (hash : String → ℕ → ℕ → UInt64) (sha256 : Bytes → Bytes) (debugRequest : Request → String)
      (p : BepProcessor) (received : Index) (client : DeviceId) (clock : ℕ → ℕ)
      (folder name : String) (file : FileInfo),
      let p' := RustM.endState ((BepProcessor.handleIndex received client clock).run p)
      p'.state.fileInfo folder p'.config.localDeviceId name = some file → file.blocks ≠ [] →
        0 ≤ file.size.toInt → ChunksAgree hash sha256 debugRequest file := by
  intro hall
  have hserver : RustM.endState ((BepProcessor.handleIndex ⟨"default", [unsizedFile]⟩ clientDevice
      fun _ => 0).run startedServer) = unsizedServer := rfl
  have hfile : unsizedServer.state.fileInfo "default" unsizedServer.config.localDeviceId "a" =
      some { unsizedFile with sequence := 2 } := by
    decide +kernel
  have hrequest : unsizedServer.state.getRequest 1 = some
      { id := 1, folder := "default", name := "a", offset := 0, size := 1, hash := pairHash [1],
        fromTemporary := false } := by
    decide +kernel
  have hagree := hall (fun _ _ _ => 0) pairHash (fun _ => "") startedServer
    ⟨"default", [unsizedFile]⟩ clientDevice (fun _ => 0) "default" "a"
    { unsizedFile with sequence := 2 }
  dsimp only at hagree
  rw [hserver] at hagree
  have hoffers : Offers "default" "a" { unsizedFile with sequence := 2 } 1 unsizedServer := by
    refine ⟨hfile, ?_⟩
    intro r hr
    obtain rfl := Option.some.inj (hrequest.symm.trans hr)
    exact ⟨rfl, rfl⟩
  have hturns : ∀ t ∈ List.replicate 4 (unsizedServer, (⟨.ok, .exits true⟩ : TurnOutcome)),
      Offers "default" "a" { unsizedFile with sequence := 2 } 1 t.1 := by
    intro t ht
    have hserver : t.1 = unsizedServer := by rw [List.eq_of_mem_replicate ht]
    rw [hserver]
    exact hoffers
  have hnot := (hagree hfile (by decide) (by decide)).stored "default" "a" ⟨1, [1], 0⟩ _ hturns
  rw [Ne, ← divided_iff] at hnot
  exact hnot (by decide +kernel)

end Example

end Grizol.Analysis
