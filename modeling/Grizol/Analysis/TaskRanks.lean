import Grizol.Analysis.FileWriterCalls
import Grizol.Analysis.ServerTurns
import Grizol.Interface.FinishedTasks
import Mathlib.Data.Prod.Lex

/-!
# Tasks take finitely many turns

Each turn of a task lowers its rank: the messages it still has, then how far the handler of the
current one is, then the chunks and copies that are left of a stage that loops. The
chunks are those of a writer that other tasks use too, but no task changes their number.
-/

set_option autoImplicit false

namespace Grizol.Analysis

open Filter Grizol.Library Grizol.Model Grizol.Interface
open Grizol.Model.Syncthing

variable {codec : Codec} {hash : String → ℕ → ℕ → UInt64} {sha256 : Bytes → Bytes}
  {debugRequest : Request → String} {config : ConnectionConfig}

/-! ## Writers -/

/-- The number of chunks of the writer of a file. -/
def chunksOf (m : StorageManager) (request : Request) : Option ℕ :=
  (m.fileWriters.get (StorageManager.fileRelPath request)).map fun w => w.writingChunk.length

/-- Writers stay, with their number of chunks. -/
def KeepsChunks (m m' : StorageManager) : Prop :=
  ∀ request n, chunksOf m request = some n → chunksOf m' request = some n

/-- Without a call the writers are the same. -/
theorem KeepsChunks.refl (m : StorageManager) : KeepsChunks m m := fun _ _ h => h

/-- A writer may be replaced by one with as many chunks. -/
theorem keepsChunks_insert {m : StorageManager} {key : String} {w w' : FileWriter}
    (hget : m.fileWriters.get key = some w)
    (hlength : w'.writingChunk.length = w.writingChunk.length) (disk : FileStore) :
    KeepsChunks m { m with fileWriters := m.fileWriters.insert key w', disk := disk } := by
  intro request n hn
  unfold chunksOf at hn ⊢
  rw [AssocMap.get_insert]
  split_ifs with hkey
  · rw [hkey, hget] at hn
    rw [← hn]
    exact congrArg some hlength
  · exact hn

/-- A new writer leaves the others, and is registered. -/
theorem keepsChunks_entryWriter (hash : String → ℕ → ℕ → UInt64) (key path : String)
    (fileSize chunkSize : ℕ) (m : StorageManager) :
    KeepsChunks m
        (RustM.endState ((StorageManager.entryWriter hash key path fileSize chunkSize).run m)) ∧
      ∀ w m', (StorageManager.entryWriter hash key path fileSize chunkSize).run m = .ok w m' →
        (m'.fileWriters.get key).isSome = true := by
  unfold StorageManager.entryWriter
  rw [EStateM.run_bind]
  cases hnew : FileWriter.new hash path fileSize chunkSize with
  | error e => exact ⟨.refl m, fun w m' h => by cases h⟩
  | ok fresh =>
      refine ⟨fun request n hn => ?_, fun w m' h => ?_⟩
      · show ((m.fileWriters.entryOrInsert key fresh).1.get _).map _ = some n
        rw [AssocMap.get_entryOrInsert]
        unfold chunksOf at hn
        obtain ⟨w, hw, rfl⟩ := Option.map_eq_some_iff.mp hn
        split_ifs with hkey
        · rw [← hkey, hw]
          rfl
        · rw [hw]
          rfl
      · obtain ⟨-, rfl⟩ := EStateM.Result.ok.inj h
        show ((m.fileWriters.entryOrInsert key fresh).1.get key).isSome = true
        rw [AssocMap.get_entryOrInsert, if_pos rfl]
        rfl

/-! ## Responses -/

section Responses

/-- A stage, and what is left of one that loops. -/
abbrev TurnStage := ℕ ×ₗ ℕ

/-- An earlier stage is greater, whatever it has to do. -/
theorem stage_lt {i j : ℕ} (h : i < j) (n m : ℕ) : (toLex (i, n) : TurnStage) < toLex (j, m) :=
  Prod.Lex.toLex_lt_toLex.mpr (.inl h)

/-- With less to do the same stage is less. -/
theorem left_lt (i : ℕ) {n m : ℕ} (h : n < m) : (toLex (i, n) : TurnStage) < toLex (i, m) :=
  Prod.Lex.toLex_lt_toLex.mpr (.inr ⟨rfl, h⟩)

/-- Where the handler of a response is. -/
def responseStage (m : StorageManager) : ResponsePc → TurnStage
  | .getRequest => toLex (15, 0)
  | .fileInfo _ => toLex (14, 0)
  | .createDir _ _ _ => toLex (13, 0)
  | .openWriter _ _ _ => toLex (12, 0)
  | .writeChunk _ _ _ _ pc => toLex (11, writeStepsLeft pc)
  | .updateState _ _ _ => toLex (10, 0)
  | .concludeWriter _ _ _ => toLex (9, 0)
  | .consolidate request pc =>
      toLex (8, consolidateStepsLeft ((chunksOf m request).getD 0) pc)
  | .copy _ _ storageBackends _ => toLex (7, storageBackends.length)
  | .updateLocations _ _ => toLex (6, 0)
  | .removeLocations _ => toLex (5, 0)
  | .removeFile _ => toLex (4, 0)
  | .removeRequest _ => toLex (3, 0)
  | .returned _ | .panicked _ => toLex (2, 0)

/-- The writer that a handler is at the steps of is there, and has not returned to it. -/
def ResponsePlaced (m : StorageManager) : ResponsePc → Prop
  | .writeChunk request _ _ _ pc => (∃ n, chunksOf m request = some n) ∧ 0 < writeStepsLeft pc
  | .consolidate request pc =>
      (∃ n, chunksOf m request = some n) ∧ ∀ result, pc ≠ .returned result
  | _ => True

/-- A handler stays at its stage while the writers keep their chunks. -/
theorem ResponsePlaced.of_keeps {m m' : StorageManager} {pc : ResponsePc}
    (h : ResponsePlaced m pc) (hkeeps : KeepsChunks m m') :
    ResponsePlaced m' pc ∧ responseStage m' pc = responseStage m pc := by
  cases pc with
  | writeChunk request fileSize blockSize offset pc =>
      obtain ⟨⟨n, hn⟩, hpc⟩ := h
      exact ⟨⟨⟨n, hkeeps request n hn⟩, hpc⟩, rfl⟩
  | consolidate request pc =>
      obtain ⟨⟨n, hn⟩, hpc⟩ := h
      refine ⟨⟨⟨n, hkeeps request n hn⟩, hpc⟩, ?_⟩
      rw [responseStage, responseStage, hn, hkeeps request n hn]
  | _ => exact ⟨trivial, rfl⟩

/-- A handler that goes on. -/
structure ResponseGoes (pc : ResponsePc) : Prop where
  returned : ∀ result, pc ≠ .returned result
  panicked : ∀ fault, pc ≠ .panicked fault

/-- A handler that goes on is above the stages that end it. -/
theorem two_lt_responseStage {pc : ResponsePc} (h : ResponseGoes pc) (m : StorageManager) :
    toLex (2, 0) < responseStage m pc := by
  cases pc with
  | returned result => exact absurd rfl (h.returned result)
  | panicked fault => exact absurd rfl (h.panicked fault)
  | _ => exact stage_lt (by decide) _ _

/-- A turn keeps the chunks, and brings the handler further. -/
structure Descends (m : StorageManager) (pc : ResponsePc) (m' : StorageManager)
    (pc' : ResponsePc) : Prop where
  keeps : KeepsChunks m m'
  lower : responseStage m' pc' < responseStage m pc
  placed : ResponsePlaced m' pc'

variable {h : ResponseHandler} {p : BepProcessor}

/-- Going to a later section descends. -/
theorem descends_goto {pc : ResponsePc} (m : StorageManager) {i n : ℕ}
    (hstage : responseStage m pc = toLex (i, n)) {pc' : ResponsePc} {j n' : ℕ}
    (hstage' : responseStage m pc' = toLex (j, n')) (hlower : j < i)
    (hplaced : ResponsePlaced m pc') : Descends m pc m pc' := by
  refine ⟨.refl m, ?_, hplaced⟩
  rw [hstage, hstage']
  exact stage_lt hlower _ _

/-- A section, and where the handler goes on after it. -/
theorem descends_continueWith {α : Type} {x : RustM BepProcessor α} {next : α → ResponseHandler}
    (hgoes : ResponseGoes h.pc)
    (hkeeps : KeepsChunks p.storageManager (RustM.endState (x.run p)).storageManager)
    (hnext : ∀ a p', x.run p = .ok a p' →
      responseStage p'.storageManager (next a).pc < responseStage p.storageManager h.pc ∧
        ResponsePlaced p'.storageManager (next a).pc) :
    Descends p.storageManager h.pc (h.continueWith p x next).2.storageManager
      (h.continueWith p x next).1.pc := by
  unfold ResponseHandler.continueWith
  cases hrun : x.run p with
  | ok a p' =>
      rw [hrun] at hkeeps
      exact ⟨hkeeps, (hnext a p' hrun).1, (hnext a p' hrun).2⟩
  | error e p' =>
      rw [hrun] at hkeeps
      exact ⟨hkeeps, two_lt_responseStage hgoes _, trivial⟩

/-- A section that holds the lock of the state. -/
theorem descends_onState {α : Type} {x : RustM BepState α} {next : α → ResponseHandler}
    (hgoes : ResponseGoes h.pc)
    (hnext : ∀ a, responseStage p.storageManager (next a).pc < responseStage p.storageManager h.pc ∧
      ResponsePlaced p.storageManager (next a).pc) :
    Descends p.storageManager h.pc (h.continueWith p (BepProcessor.onState x) next).2.storageManager
      (h.continueWith p (BepProcessor.onState x) next).1.pc := by
  refine descends_continueWith hgoes ?_ fun a p' hrun => ?_
  · rw [BepProcessor.onState_run]
    exact .refl _
  · have hend := BepProcessor.onState_run x p
    rw [hrun, RustM.endState_ok] at hend
    rw [hend]
    exact hnext a

/-- A writer that is registered has a number of chunks. -/
theorem chunksOf_of_isSome {m : StorageManager} {request : Request}
    (h : (m.fileWriters.get (StorageManager.fileRelPath request)).isSome = true) :
    ∃ n, chunksOf m request = some n := by
  obtain ⟨w, hw⟩ := Option.isSome_iff_exists.mp h
  exact ⟨w.writingChunk.length, by rw [chunksOf, hw]; rfl⟩

/-- A section that looks up the writer of the file. -/
theorem descends_entryWriter {request : Request} {path : String} {fileSize chunkSize : ℕ}
    {next : FileWriter → ResponseHandler} (hgoes : ResponseGoes h.pc)
    (hnext : ∀ w m, (∃ n, chunksOf m request = some n) →
      responseStage m (next w).pc < responseStage p.storageManager h.pc ∧
        ResponsePlaced m (next w).pc) :
    Descends p.storageManager h.pc
      (h.continueWith p (BepProcessor.onStorage (StorageManager.entryWriter hash
        (StorageManager.fileRelPath request) path fileSize chunkSize)) next).2.storageManager
      (h.continueWith p (BepProcessor.onStorage (StorageManager.entryWriter hash
        (StorageManager.fileRelPath request) path fileSize chunkSize)) next).1.pc := by
  obtain ⟨hkeeps, hthere⟩ := keepsChunks_entryWriter hash
    (StorageManager.fileRelPath request) path fileSize chunkSize p.storageManager
  refine descends_continueWith hgoes ?_ fun w p' hrun => hnext w _ ?_
  · rw [BepProcessor.onStorage_run]
    exact hkeeps
  · cases hwriter : (StorageManager.entryWriter hash (StorageManager.fileRelPath request) path
        fileSize chunkSize).run p.storageManager with
    | ok w' m =>
        rw [BepProcessor.onStorage_eq_ok hwriter] at hrun
        obtain ⟨rfl, rfl⟩ := EStateM.Result.ok.inj hrun
        exact chunksOf_of_isSome (hthere w' m hwriter)
    | error e m =>
        rw [BepProcessor.onStorage_eq_error hwriter] at hrun
        cases hrun

/-- A step of the writer. -/
theorem descends_writeChunk {request : Request} {fileSize blockSize offset : ℕ}
    {pc : FileWriter.WritePc} (hpc : h.pc = .writeChunk request fileSize blockSize offset pc)
    (hplaced : ResponsePlaced p.storageManager h.pc) (outcome : Outcome) :
    Descends p.storageManager h.pc
      (h.actWriteChunk p request fileSize blockSize offset pc outcome).2.storageManager
      (h.actWriteChunk p request fileSize blockSize offset pc outcome).1.pc := by
  rw [hpc] at hplaced
  obtain ⟨⟨n, hn⟩, hleft⟩ := hplaced
  obtain ⟨w, hw, rfl⟩ := Option.map_eq_some_iff.mp hn
  have hframe := (writeStep_frame h.response.data offset w p.storageManager.disk outcome pc).same
  have hsteps := writeStep_stepsLeft h.response.data offset w p.storageManager.disk outcome pc
  unfold ResponseHandler.actWriteChunk
  dsimp only
  rw [hw, hpc]
  dsimp only
  generalize w.writeStep p.storageManager.disk h.response.data offset outcome pc = r
    at hframe hsteps
  obtain ⟨w', disk, pc'⟩ := r
  refine ⟨keepsChunks_insert hw hframe.length _, ?_, ?_⟩
  · cases pc' with
    | returned result => cases result <;> exact stage_lt (by decide) _ _
    | panicked fault => exact stage_lt (by decide) _ _
    | _ => exact left_lt 11 (hsteps.trans_lt (Nat.sub_lt hleft Nat.one_pos))
  · cases pc' with
    | returned result => cases result <;> trivial
    | panicked fault => trivial
    | _ => exact ⟨chunksOf_of_isSome (by simp), Nat.succ_pos _⟩

/-- A turn of a consolidation descends. -/
theorem descends_consolidate {request : Request} {pc : FileWriter.ConsolidatePc}
    (hpc : h.pc = .consolidate request pc) (hplaced : ResponsePlaced p.storageManager h.pc)
    (outcome : Outcome) :
    Descends p.storageManager h.pc (h.actConsolidate p request pc outcome).2.storageManager
      (h.actConsolidate p request pc outcome).1.pc := by
  rw [hpc] at hplaced
  obtain ⟨⟨n, hn⟩, hgoing⟩ := hplaced
  obtain ⟨w, hw, rfl⟩ := Option.map_eq_some_iff.mp hn
  have hframe := (consolidateStep_frame w p.storageManager.disk outcome pc).same
  have hsteps := consolidateStep_stepsLeft w p.storageManager.disk outcome pc
  have hleft : 0 < consolidateStepsLeft w.writingChunk.length pc := by
    cases pc with
    | returned result => exact absurd rfl (hgoing result)
    | _ =>
        simp only [consolidateStepsLeft]
        omega
  unfold ResponseHandler.actConsolidate
  dsimp only
  rw [hw, hpc]
  dsimp only
  generalize w.consolidateStep p.storageManager.disk outcome pc = r at hframe hsteps
  obtain ⟨w', disk, pc'⟩ := r
  have hkeeps := keepsChunks_insert hw hframe.length disk
  have hmore : ∀ pc', consolidateStepsLeft w.writingChunk.length pc' ≤
      consolidateStepsLeft w.writingChunk.length pc - 1 →
      responseStage { p.storageManager with
        fileWriters := p.storageManager.fileWriters.insert
          (StorageManager.fileRelPath request) w', disk := disk }
        (.consolidate request pc') < responseStage p.storageManager (.consolidate request pc) := by
    intro pc' hpc'
    rw [responseStage, responseStage, hkeeps request _ hn, hn]
    exact left_lt 8 (hpc'.trans_lt (Nat.sub_lt hleft Nat.one_pos))
  refine ⟨hkeeps, ?_, ?_⟩
  · cases pc' with
    | returned result => cases result <;> exact stage_lt (by decide) _ _
    | _ => exact hmore _ hsteps
  · cases pc' with
    | returned result => cases result <;> trivial
    | _ => exact ⟨⟨_, hkeeps request _ hn⟩, by simp⟩

/-- **One turn of `process_response`.** -/
theorem descends_act (hgoes : ResponseGoes h.pc) (hplaced : ResponsePlaced p.storageManager h.pc)
    (outcome : TurnOutcome) :
    Descends p.storageManager h.pc
      (h.act hash sha256 debugRequest p outcome).2.storageManager
      (h.act hash sha256 debugRequest p outcome).1.pc := by
  unfold ResponseHandler.act
  split
  next hpc =>
    split <;> exact descends_goto _ (by rw [hpc]; rfl) rfl (by decide) trivial
  next request hpc =>
    dsimp only [ResponseHandler.actFileInfo]
    repeat' split
    all_goals exact descends_goto _ (by rw [hpc]; rfl) rfl (by decide) trivial
  next request fileSize blockSize hpc =>
    dsimp only [ResponseHandler.actCreateDir]
    repeat' split
    all_goals exact descends_goto _ (by rw [hpc]; rfl) rfl (by decide) trivial
  next request fileSize blockSize hpc =>
    refine descends_entryWriter hgoes fun w m hthere => ?_
    rw [hpc]
    split
    · exact ⟨stage_lt (by decide) _ _, trivial⟩
    · exact ⟨stage_lt (by decide) _ _, hthere, by decide⟩
  next request fileSize blockSize offset pc hpc => exact descends_writeChunk hpc hplaced _
  next request fileSize blockSize hpc =>
    refine descends_onState hgoes fun result => ?_
    rw [hpc]
    dsimp only
    split <;> exact ⟨stage_lt (by decide) _ _, trivial⟩
  next request fileSize blockSize hpc =>
    refine descends_entryWriter hgoes fun w m hthere => ?_
    rw [hpc]
    exact ⟨stage_lt (by decide) _ _, hthere, by simp⟩
  next request pc hpc => exact descends_consolidate hpc hplaced _
  next request n storageBackends copied hpc =>
    cases storageBackends with
    | nil => exact descends_goto _ (by rw [hpc]; rfl) rfl (by decide) trivial
    | cons storageBackend rest =>
        dsimp only [ResponseHandler.actCopy]
        split
        · exact descends_goto _ (by rw [hpc]; rfl) rfl (by decide) trivial
        · exact descends_goto _ (by rw [hpc]; rfl) rfl (by decide) trivial
        · refine ⟨.refl _, ?_, trivial⟩
          rw [hpc]
          exact left_lt 7 (Nat.lt_succ_self _)
  next request locations hpc =>
    refine descends_onState hgoes fun result => ?_
    rw [hpc]
    split_ifs <;> exact ⟨stage_lt (by decide) _ _, trivial⟩
  next request hpc =>
    refine descends_onState hgoes fun result => ?_
    rw [hpc]
    exact ⟨stage_lt (by decide) _ _, trivial⟩
  next request hpc =>
    refine descends_continueWith hgoes ?_ fun result p' _ => ?_
    · rw [BepProcessor.onStorage_run]
      unfold StorageManager.rmLocalFile
      rw [EStateM.run_bind, RustM.run_getThe]
      dsimp only
      split <;> exact .refl _
    · rw [hpc]
      exact ⟨stage_lt (by decide) _ _, trivial⟩
  next stored hpc =>
    refine descends_onState hgoes fun result => ?_
    rw [hpc]
    exact ⟨stage_lt (by decide) _ _, trivial⟩
  next result hpc => exact absurd hpc (hgoes.returned result)
  next fault hpc => exact absurd hpc (hgoes.panicked fault)

end Responses

/-! ## Tasks -/

section Tasks

/-- Where a handler is. -/
def handlerStage (m : StorageManager) : MessageHandler → TurnStage
  | .returned _ | .panicked _ => toLex (2, 0)
  | .clusterConfig h =>
      match h.pc with
      | .shareFolders => toLex (5, 0)
      | .indices => toLex (4, 0)
      | .clusterConfig _ => toLex (3, 0)
      | .returned _ _ | .panicked _ => toLex (2, 0)
  | .index h =>
      match h.pc with
      | .writeIndices => toLex (4, 0)
      | .enqueue _ => toLex (3, 0)
      | .returned | .panicked _ => toLex (2, 0)
  | .response h => responseStage m h.pc

/-- A handler that has not returned is at a place where it goes on. -/
def HandlerPlaced (m : StorageManager) : MessageHandler → Prop
  | .returned _ | .panicked _ => True
  | .clusterConfig h =>
      (∀ config indices, h.pc ≠ .returned config indices) ∧ ∀ e, h.pc ≠ .panicked e
  | .index h => h.pc ≠ .returned ∧ ∀ e, h.pc ≠ .panicked e
  | .response h => ResponseGoes h.pc ∧ ResponsePlaced m h.pc

/-- What a task still has before it: its messages, and the stage of the current one. -/
def taskRank (m : StorageManager) : MessageTask → ℕ ×ₗ TurnStage
  | .next messages => toLex (messages.length + 1, toLex (0, 0))
  | .sending results messages => toLex (messages.length + 1, toLex (1, results.length))
  | .handling h messages => toLex (messages.length + 1, handlerStage m h)
  | .returned | .failed | .panicked _ => toLex (0, toLex (0, 0))

/-- The handler of the task goes by the writer that is registered for its file. -/
def TaskPlaced (m : StorageManager) : MessageTask → Prop
  | .handling h _ => HandlerPlaced m h
  | _ => True

/-- Fewer messages are less, whatever the stage. -/
theorem rank_lt {a b : ℕ} (h : a < b) (x y : TurnStage) :
    (toLex (a, x) : ℕ ×ₗ TurnStage) < toLex (b, y) :=
  Prod.Lex.toLex_lt_toLex.mpr (.inl h)

/-- With as many messages the stage decides. -/
theorem rank_lt_of_stage (a : ℕ) {x y : TurnStage} (h : x < y) :
    (toLex (a, x) : ℕ ×ₗ TurnStage) < toLex (a, y) := Prod.Lex.toLex_lt_toLex.mpr (.inr ⟨rfl, h⟩)

variable {m m' : StorageManager}

/-- A handler stays at its stage while the writers keep their chunks. -/
theorem HandlerPlaced.of_keeps {h : MessageHandler} (hh : HandlerPlaced m h)
    (hkeeps : KeepsChunks m m') :
    HandlerPlaced m' h ∧ handlerStage m' h = handlerStage m h := by
  cases h with
  | response h =>
      obtain ⟨hplaced, hstage⟩ := hh.2.of_keeps hkeeps
      exact ⟨⟨hh.1, hplaced⟩, hstage⟩
  | _ => exact ⟨hh, rfl⟩

/-- So does a task. -/
theorem TaskPlaced.of_keeps {task : MessageTask} (h : TaskPlaced m task)
    (hkeeps : KeepsChunks m m') : TaskPlaced m' task ∧ taskRank m' task = taskRank m task := by
  cases task with
  | handling handler messages =>
      obtain ⟨hplaced, hstage⟩ := HandlerPlaced.of_keeps h hkeeps
      refine ⟨hplaced, ?_⟩
      rw [taskRank, taskRank, hstage]
  | _ => exact ⟨h, rfl⟩

variable {s : ServerState}

/-- A new handler goes by no writer. -/
theorem handlerPlaced_handleCompleteMessage (clientDeviceId : DeviceId) (clock : ℕ → ℕ)
    (message : CompleteMessage) : HandlerPlaced m
      (MessageHandler.handleCompleteMessage config clientDeviceId clock message) := by
  cases message with
  | clusterConfig x => exact ⟨by simp [ClusterConfigHandler.new], by simp [ClusterConfigHandler.new]⟩
  | index x | indexUpdate x => exact ⟨by simp [IndexHandler.new], by simp [IndexHandler.new]⟩
  | response x =>
      dsimp only [MessageHandler.handleCompleteMessage, MessageHandler.handleResponse]
      split
      · trivial
      · split_ifs
        · trivial
        · exact ⟨⟨by simp [ResponseHandler.new], by simp [ResponseHandler.new]⟩, trivial⟩
  | _ => trivial

/-- One turn of the handler of a cluster config. -/
theorem descends_clusterConfig {h : ClusterConfigHandler}
    (hh : HandlerPlaced s.processor.storageManager (.clusterConfig h)) :
    HandlerPlaced m (.ofClusterConfig (h.act s).1) ∧
      handlerStage m (.ofClusterConfig (h.act s).1) <
        handlerStage s.processor.storageManager (.clusterConfig h) := by
  obtain ⟨received, clientDeviceId, pc⟩ := h
  unfold ClusterConfigHandler.act
  cases pc with
  | shareFolders =>
      dsimp only
      split
      · exact ⟨⟨by simp, by simp⟩, stage_lt (by decide) _ _⟩
      · exact ⟨trivial, stage_lt (by decide) _ _⟩
  | indices =>
      dsimp only
      split
      · exact ⟨⟨by simp, by simp⟩, stage_lt (by decide) _ _⟩
      · exact ⟨trivial, stage_lt (by decide) _ _⟩
  | clusterConfig indices => exact ⟨trivial, stage_lt (by decide) _ _⟩
  | returned config indices => exact absurd rfl (hh.1 config indices)
  | panicked e => exact absurd rfl (hh.2 e)

/-- One turn of the handler of an index. -/
theorem descends_index {h : IndexHandler} {p : BepProcessor}
    (hh : HandlerPlaced p.storageManager (.index h)) :
    (h.act p).2.storageManager = p.storageManager ∧ HandlerPlaced m (.ofIndex (h.act p).1) ∧
      handlerStage m (.ofIndex (h.act p).1) < handlerStage p.storageManager (.index h) := by
  obtain ⟨message, clientDeviceId, clock, pc⟩ := h
  cases pc with
  | writeIndices =>
      obtain ⟨hstate, hpc⟩ := act_writeIndices (h := ⟨message, clientDeviceId, clock, _⟩) p rfl
      refine ⟨by rw [hstate], ?_⟩
      unfold MessageHandler.ofIndex
      rcases hpc with hpc | ⟨e, hpc⟩
      · rw [hpc]
        refine ⟨⟨by simp [hpc], by simp [hpc]⟩, ?_⟩
        dsimp only [handlerStage]
        rw [hpc]
        exact stage_lt (by decide) _ _
      · rw [hpc]
        exact ⟨trivial, stage_lt (by decide) _ _⟩
  | enqueue blocks =>
      obtain ⟨hstate, hpc⟩ := act_enqueue (h := ⟨message, clientDeviceId, clock, _⟩) p rfl
      refine ⟨by rw [hstate], ?_⟩
      unfold MessageHandler.ofIndex
      rcases hpc with hpc | ⟨e, hpc⟩
      · rw [hpc]
        exact ⟨trivial, stage_lt (by decide) _ _⟩
      · rw [hpc]
        exact ⟨trivial, stage_lt (by decide) _ _⟩
  | returned => exact absurd rfl hh.1
  | panicked e => exact absurd rfl (hh.2 e)

/-- **One turn of a handler** keeps the chunks of all writers and brings it further. -/
theorem descends_handler {h : MessageHandler} (hreturned : ∀ results, h ≠ .returned results)
    (hpanicked : ∀ e, h ≠ .panicked e) (hh : HandlerPlaced s.processor.storageManager h)
    (outcome : TurnOutcome) :
    KeepsChunks s.processor.storageManager
        (h.act hash sha256 debugRequest outcome s).2.processor.storageManager ∧
      HandlerPlaced (h.act hash sha256 debugRequest outcome s).2.processor.storageManager
        (h.act hash sha256 debugRequest outcome s).1 ∧
      handlerStage (h.act hash sha256 debugRequest outcome s).2.processor.storageManager
        (h.act hash sha256 debugRequest outcome s).1 <
          handlerStage s.processor.storageManager h := by
  cases h with
  | clusterConfig h =>
      refine ⟨?_, descends_clusterConfig hh⟩
      have hstorage := (shares_act h s).storage
      dsimp only [MessageHandler.act]
      rw [hstorage]
      exact .refl _
  | index h =>
      obtain ⟨hstorage, hafter⟩ := descends_index hh
      refine ⟨?_, hafter⟩
      dsimp only [MessageHandler.act]
      rw [hstorage]
      exact .refl _
  | response h =>
      obtain ⟨hkeeps, hlower, hplaced⟩ := descends_act hh.1 hh.2 outcome
      refine ⟨hkeeps, ?_⟩
      dsimp only [MessageHandler.act, MessageHandler.ofResponse]
      split
      next result hpc => exact ⟨trivial, two_lt_responseStage hh.1 _⟩
      next e hpc => exact ⟨trivial, two_lt_responseStage hh.1 _⟩
      next hreturned hpanicked => exact ⟨⟨⟨hreturned, hpanicked⟩, hplaced⟩, hlower⟩
  | returned results => exact absurd rfl (hreturned results)
  | panicked e => exact absurd rfl (hpanicked e)

/-- **One turn of a task.** -/
theorem descends_turned {k : Connection} {input : TaskInput} {s' : ServerState}
    {task task' : MessageTask} {queued : List GrizolEvent}
    (h : Turned hash sha256 debugRequest config k input s task task' queued s')
    (htask : TaskPlaced s.processor.storageManager task) :
    KeepsChunks s.processor.storageManager s'.processor.storageManager ∧
      TaskPlaced s'.processor.storageManager task' ∧
      taskRank s'.processor.storageManager task' < taskRank s.processor.storageManager task := by
  cases h with
  | finish => exact ⟨.refl _, trivial, rank_lt (Nat.succ_pos _) _ _⟩
  | take m messages =>
      exact ⟨.refl _, handlerPlaced_handleCompleteMessage _ _ m,
        rank_lt (Nat.lt_succ_self _) _ _⟩
  | act h messages hreturned hpanicked =>
      obtain ⟨hkeeps, hplaced, hlower⟩ := descends_handler hreturned hpanicked htask input.outcome
      exact ⟨hkeeps, hplaced, rank_lt_of_stage _ hlower⟩
  | deliver results messages =>
      exact ⟨.refl _, trivial, rank_lt_of_stage _ (stage_lt (by decide) _ _)⟩
  | panic e messages => exact ⟨.refl _, trivial, rank_lt (Nat.succ_pos _) _ _⟩
  | sent messages => exact ⟨.refl _, trivial, rank_lt_of_stage _ (stage_lt (by decide) _ _)⟩
  | log e results messages | send event results messages hreceiving hroom =>
      exact ⟨.refl _, trivial, rank_lt_of_stage _ (left_lt 1 (Nat.lt_succ_self _))⟩
  | fail event results messages hclosed =>
      exact ⟨.refl _, trivial, rank_lt (Nat.succ_pos _) _ _⟩

end Tasks

/-! ## Steps -/

section Steps

variable {k k' : Connection} {s s' : ServerState} {event : ConnectionEvent}

/-- The tasks of a connection are placed, and its channel holds no more than it may. -/
structure TasksPlaced (m : StorageManager) (k : Connection) : Prop where
  tasks : ∀ task ∈ k.tasks, TaskPlaced m task
  channel : k.events.length ≤ channelCapacity

/-- Tasks stay as they are while the writers keep their chunks. -/
theorem TasksPlaced.of_keeps {m m' : StorageManager} (h : TasksPlaced m k)
    (hkeeps : KeepsChunks m m') : TasksPlaced m' k :=
  ⟨fun task htask => ((h.tasks task htask).of_keeps hkeeps).1, h.channel⟩

/-- A new connection has no tasks. -/
theorem tasksPlaced_new (m : StorageManager) (d : DeviceId) : TasksPlaced m (.new d) where
  tasks := by simp [Connection.new]
  channel := by simp [Connection.new]

/-- A step of a connection, seen from its task `i`. -/
structure BringsOn (m m' : StorageManager) (k k' : Connection) (event : ConnectionEvent) (i : ℕ)
    (task : MessageTask) : Prop where
  stays : (∀ input, event ≠ .turn i input) → k'.tasks[i]? = some task
  lower : ∀ input, event = .turn i input →
    ∃ task', k'.tasks[i]? = some task' ∧ taskRank m' task' < taskRank m task

/-- In a step the task that moves descends, and the others stay. -/
theorem placed_of_moved (hk : TasksPlaced s.processor.storageManager k)
    (h : Moved codec hash sha256 debugRequest config k s event k' s') :
    KeepsChunks s.processor.storageManager s'.processor.storageManager ∧
      TasksPlaced s'.processor.storageManager k' ∧
      ∀ i task, k.tasks[i]? = some task → BringsOn s.processor.storageManager
        s'.processor.storageManager k k' event i task := by
  have hsame : ∀ {k' : Connection} {m' : StorageManager}, k'.tasks = k.tasks →
      m' = s.processor.storageManager → k'.events.length ≤ channelCapacity →
      (∀ i input, event ≠ .turn i input) →
      KeepsChunks s.processor.storageManager m' ∧ TasksPlaced m' k' ∧
        ∀ i task, k.tasks[i]? = some task →
          BringsOn s.processor.storageManager m' k k' event i task := by
    rintro k' m' htasks rfl hchannel hevent
    refine ⟨.refl _, ⟨?_, hchannel⟩, fun i task htask => ⟨fun _ => ?_, fun input hturn => ?_⟩⟩
    · rw [htasks]
      exact hk.tasks
    · rw [htasks]
      exact htask
    · exact absurd hturn (hevent i input)
  cases h with
  | read buf p p' messages hparser hparse =>
      refine ⟨.refl _, ⟨fun task htask => ?_, hk.channel⟩,
        fun i task htask => ⟨fun _ => ?_, fun input hturn => by cases hturn⟩⟩
      · rcases List.mem_append.mp htask with htask | htask
        · exact hk.tasks task htask
        · rw [List.mem_singleton.mp htask]
          trivial
      · rw [List.getElem?_append_left (List.getElem?_eq_some_iff.mp htask).1]
        exact htask
  | turn i input task task' queued s' htask hturned hqueued =>
      obtain ⟨hkeeps, hplaced, hlower⟩ :=
        descends_turned hturned (hk.tasks task (List.mem_of_getElem? htask))
      have hlt := (List.getElem?_eq_some_iff.mp htask).1
      refine ⟨hkeeps, ⟨fun t ht => ?_, ?_⟩, fun j t ht => ⟨fun hother => ?_, ?_⟩⟩
      · rcases List.mem_or_eq_of_mem_set ht with ht | rfl
        · exact ((hk.tasks t ht).of_keeps hkeeps).1
        · exact hplaced
      · rw [List.length_append]
        cases hturned with
        | send event results messages hreceiving hroom => exact hroom
        | _ => exact hk.channel
      · have hne : i ≠ j := by
          rintro rfl
          exact hother input rfl
        rw [List.getElem?_set_ne hne]
        exact ht
      · rintro input' hturn
        obtain ⟨rfl, rfl⟩ := ConnectionEvent.turn.inj hturn
        obtain rfl := Option.some.inj (htask.symm.trans ht)
        exact ⟨task', List.getElem?_set_self hlt, hlower⟩
  | readFails buf p hparser hparse => exact hsame rfl rfl hk.channel (by simp)
  | readEnd => exact hsame rfl rfl hk.channel (by simp)
  | ping hreceiving hroom => exact hsame rfl rfl (by simpa using Nat.succ_le_of_lt hroom) (by simp)
  | pingFails hclosed => exact hsame rfl rfl hk.channel (by simp)
  | broken event events p outcome hevents hp hwritten =>
      refine hsame rfl ?_ (Nat.zero_le _) (by simp)
      rw [hp, requestsFor_storage config]
  | wrote event events requests p data outcome hevents hrequests hdata =>
      obtain ⟨htasks, -⟩ :=
        writeData_tasks ({ k with events := events } : Connection) data outcome
      have hstorage := requestsFor_storage config event s.processor
      rw [hrequests, RustM.endState_ok] at hstorage
      refine hsame htasks hstorage ?_ (by simp)
      have hchannel := hk.channel
      rw [hevents, List.length_cons] at hchannel
      rcases writeData_events ({ k with events := events } : Connection) data outcome with
        hsame | ⟨hnone, -⟩
      · rw [hsame]
        exact Nat.le_of_succ_le hchannel
      · rw [hnone]
        exact Nat.zero_le _

end Steps

/-! ## Runs -/

section Runs

variable {state : ServerState} {s : ℕ → Server} {e : ℕ → ServerEvent} {c i : ℕ}

/-- Every connection has its tasks at their places. -/
theorem placed_of_runs (hstart : s 0 = .start state)
    (hruns : Fairness.Runs (serverStep codec hash sha256 debugRequest config) s e) (n : ℕ) :
    ∀ c k, (s n).connections c = some k →
      TasksPlaced (s n).state.processor.storageManager k := by
  have hreaches := hruns.reaches n
  rw [hstart] at hreaches
  refine (server_of_run (fun _ _ _ => ([] : List Unit)) (P := fun _ _ => True)
    (Q := fun _ s k _ => TasksPlaced s.processor.storageManager k) trivial
    (fun _ s d => tasksPlaced_new _ d) ?_ ?_ hreaches).2
  · exact fun _ s k event k' s' _ _ hk hmoved => ⟨trivial, (placed_of_moved hk hmoved).2.1⟩
  · exact fun _ s k event k' s' _ _ _ _ hk hmoved hk₂ =>
      hk₂.of_keeps (placed_of_moved hk hmoved).1

/-- The next state of a task. -/
theorem brings_of_runs (hstart : s 0 = .start state)
    (hruns : Fairness.Runs (serverStep codec hash sha256 debugRequest config) s e) {n : ℕ}
    {k : Connection} (hk : (s n).connections c = some k) {task : MessageTask}
    (htask : k.tasks[i]? = some task) :
    ∃ k' task', (s (n + 1)).connections c = some k' ∧ k'.tasks[i]? = some task' ∧
      (e n ∉ turnsOf c i → task' = task ∧
        taskRank (s (n + 1)).state.processor.storageManager task' =
          taskRank (s n).state.processor.storageManager task) ∧
      (e n ∈ turnsOf c i → taskRank (s (n + 1)).state.processor.storageManager task' <
        taskRank (s n).state.processor.storageManager task) := by
  have hplaced := placed_of_runs hstart hruns n
  obtain ⟨k₁, state₁, hconnection, hnext⟩ := serverStep_eq_some.mp (hruns n)
  rw [hnext]
  by_cases hc : (e n).connection = c
  · rw [hc, hk] at hconnection
    obtain ⟨hkeeps, -, hbrings⟩ := placed_of_moved (hplaced c k hk)
      (moved_of_stepConnection hconnection)
    obtain ⟨hstays, hlower⟩ := hbrings i task htask
    have hthis : Function.update (s n).connections (e n).connection (some k₁) c = some k₁ := by
      rw [hc, Function.update_self]
    by_cases hturn : e n ∈ turnsOf c i
    · obtain ⟨-, input, hinput⟩ := hturn
      obtain ⟨task', htask', hlt⟩ := hlower input hinput
      exact ⟨k₁, task', hthis, htask', fun hnot => absurd ⟨hc, input, hinput⟩ hnot, fun _ => hlt⟩
    · refine ⟨k₁, task, hthis, hstays fun input hinput => hturn ⟨hc, input, hinput⟩, fun _ => ?_,
        fun h => absurd h hturn⟩
      exact ⟨rfl, ((hplaced c k hk).tasks task (List.mem_of_getElem? htask)).of_keeps hkeeps |>.2⟩
  · have hkeeps : KeepsChunks (s n).state.processor.storageManager
        state₁.processor.storageManager := by
      cases hother : (s n).connections (e n).connection with
      | some k₂ =>
          rw [hother] at hconnection
          exact (placed_of_moved (hplaced _ k₂ hother) (moved_of_stepConnection hconnection)).1
      | none =>
          rw [hother] at hconnection
          cases hevent : (e n).event with
          | accept d =>
              rw [hevent] at hconnection
              obtain ⟨-, rfl⟩ := Prod.mk.inj (Option.some.inj hconnection)
              exact .refl _
          | _ =>
              rw [hevent] at hconnection
              cases hconnection
    refine ⟨k, task, ?_, htask, fun _ => ⟨rfl, ?_⟩, fun h => absurd h.1 hc⟩
    · show Function.update (s n).connections (e n).connection (some k₁) c = some k
      rw [Function.update_of_ne (Ne.symm hc), hk]
    · exact (((hplaced c k hk).tasks task (List.mem_of_getElem? htask)).of_keeps hkeeps).2

/-- A task that is there stays there. -/
theorem task_of_runs (hstart : s 0 = .start state)
    (hruns : Fairness.Runs (serverStep codec hash sha256 debugRequest config) s e) {n : ℕ}
    {k : Connection} (hk : (s n).connections c = some k) (hi : i < k.tasks.length) {m : ℕ}
    (hm : n ≤ m) :
    ∃ k' task, (s m).connections c = some k' ∧ k'.tasks[i]? = some task := by
  induction m, hm using Nat.le_induction with
  | base => exact ⟨k, k.tasks[i], hk, List.getElem?_eq_getElem hi⟩
  | succ m hm ih =>
      obtain ⟨k₁, task, hk₁, htask⟩ := ih
      obtain ⟨k', task', hk', htask', -⟩ := brings_of_runs hstart hruns hk₁ htask
      exact ⟨k', task', hk', htask'⟩

/-- The rank of a task in a state of the server. -/
def rankAt (c i : ℕ) (s : Server) : ℕ ×ₗ TurnStage :=
  match (s.connections c).bind fun k => k.tasks[i]? with
  | some task => taskRank s.state.processor.storageManager task
  | none => toLex (0, toLex (0, 0))

/-- The rank of a task that is there. -/
theorem rankAt_eq {s : Server} {k : Connection} (hk : s.connections c = some k)
    {task : MessageTask} (htask : k.tasks[i]? = some task) :
    rankAt c i s = taskRank s.state.processor.storageManager task := by
  unfold rankAt
  rw [hk, Option.bind_some, htask]

/-- A task takes finitely many turns. -/
theorem eventually_no_turn (hstart : s 0 = .start state)
    (hruns : Fairness.Runs (serverStep codec hash sha256 debugRequest config) s e) {n : ℕ}
    {k : Connection} (hk : (s n).connections c = some k) (hi : i < k.tasks.length) :
    ∀ᶠ m in atTop, e m ∉ turnsOf c i := by
  have hstep : ∀ m, n ≤ m → rankAt c i (s (m + 1)) ≤ rankAt c i (s m) ∧
      (e m ∈ turnsOf c i → rankAt c i (s (m + 1)) < rankAt c i (s m)) := by
    intro m hm
    obtain ⟨k₁, task, hk₁, htask⟩ := task_of_runs hstart hruns hk hi hm
    obtain ⟨k', task', hk', htask', hstays, hlower⟩ := brings_of_runs hstart hruns hk₁ htask
    rw [rankAt_eq hk₁ htask, rankAt_eq hk' htask']
    refine ⟨?_, hlower⟩
    by_cases hturn : e m ∈ turnsOf c i
    · exact (hlower hturn).le
    · exact (hstays hturn).2.le
  exact Fairness.eventually_notMem_of_measure (fun m => rankAt c i (s m)) n
    (fun m hm => (hstep m hm).1) (fun m hm => (hstep m hm).2)

end Runs

end Grizol.Analysis
