import Grizol.Analysis.DatabaseRefinement
import Grizol.Interface.IndexCache

/-!
# What the writers of the state leave

Each writer numbers its files, runs its statements in a transaction and, when this is
committed, changes the indices in memory. A panic before that leaves the sequence
counter at most. One theorem for each writer says which of the two happened and what
the state is then; nothing later unfolds a writer.
-/

set_option autoImplicit false

namespace Grizol.Analysis

open Grizol.Library
open Grizol.Model Grizol.Model.Syncthing Grizol.Interface

/-! ## Sequence numbers -/

/-- Nothing but the sequence counter changed. -/
def OnlyCounter (s s' : BepState) : Prop := ∃ n, s' = { s with sequence := n }

/-- Without a call only the counter changes. -/
theorem OnlyCounter.refl (s : BepState) : OnlyCounter s s := ⟨s.sequence, rfl⟩

/-- Two calls that change only the counter. -/
theorem OnlyCounter.trans {s s' s'' : BepState} (h : OnlyCounter s s') (h' : OnlyCounter s' s'') :
    OnlyCounter s s'' := by
  obtain ⟨n, rfl⟩ := h
  obtain ⟨n', rfl⟩ := h'
  exact ⟨n', rfl⟩

/-- The same file with a sequence number of its own. -/
def Numbered (f f' : FileInfo) : Prop := ∃ n, f' = { f with sequence := n }

/-- The counter goes to the next number, or it is at its end. -/
theorem nextSequenceId_counter (s : BepState) :
    BepState.nextSequenceId.run s =
      match nextSequence s with
      | some sequence => .ok sequence { s with sequence := some sequence }
      | none => .error .overflow { s with sequence := some Int64.maxValue } := by
  obtain ⟨db, sequence, requestId, outgoingRequests, indices⟩ := s
  rw [nextSequence]
  -- the counter is read from the table when it is not set
  cases sequence with
  | none =>
      cases hmax : BepState.maxSequence db with
      | none => simp [BepState.nextSequenceId, EStateM.run_bind, hmax]
      | some n =>
          by_cases hend : n = Int64.maxValue
          · simp [BepState.nextSequenceId, EStateM.run_bind, hmax, hend]
          · simp [BepState.nextSequenceId, EStateM.run_bind, hmax, hend]
  | some n =>
      by_cases hend : n = Int64.maxValue
      · simp [BepState.nextSequenceId, EStateM.run_bind, hend]
      · simp [BepState.nextSequenceId, EStateM.run_bind, hend]

/-- What `next_sequence_id` does is known from the counter and the table. -/
theorem nextSequenceId_eq (s : BepState) :
    ∃ n, BepState.nextSequenceId.run s =
      match nextSequence s with
      | some sequence => .ok sequence { s with sequence := n }
      | none => .error .overflow { s with sequence := n } := by
  have hcounter := nextSequenceId_counter s
  cases hnext : nextSequence s with
  | some sequence =>
      rw [hnext] at hcounter
      exact ⟨some sequence, hcounter⟩
  | none =>
      rw [hnext] at hcounter
      exact ⟨some Int64.maxValue, hcounter⟩

/-- Taking a sequence number changes only the counter. -/
theorem nextSequenceId_run (s : BepState) :
    OnlyCounter s (RustM.endState (BepState.nextSequenceId.run s)) := by
  rw [nextSequenceId_counter]
  cases nextSequence s with
  | some sequence => exact ⟨some sequence, rfl⟩
  | none => exact ⟨some Int64.maxValue, rfl⟩

/-- Numbering files either panics or numbers them all. -/
theorem assignSequences_run (files : List FileInfo) (s : BepState) :
    (∃ e s₁, (BepState.assignSequences files).run s = .error e s₁ ∧ OnlyCounter s s₁) ∨
      ∃ files' s₁, (BepState.assignSequences files).run s = .ok files' s₁ ∧ OnlyCounter s s₁ ∧
        List.Forall₂ Numbered files files' := by
  induction files generalizing s with
  | nil => exact Or.inr ⟨[], s, rfl, OnlyCounter.refl s, List.Forall₂.nil⟩
  | cons file files ih =>
      have hnext := nextSequenceId_run s
      rw [BepState.assignSequences, EStateM.run_bind]
      cases hrun : BepState.nextSequenceId.run s with
      | error e s₁ =>
          rw [hrun] at hnext
          exact Or.inl ⟨e, s₁, rfl, hnext⟩
      | ok n s₁ =>
          rw [hrun] at hnext
          dsimp only
          rw [EStateM.run_bind]
          rcases ih s₁ with ⟨e, s₂, hrest, hcounter⟩ | ⟨files', s₂, hrest, hcounter, hnumbered⟩
          · rw [hrest]
            exact Or.inl ⟨e, s₂, rfl, hnext.trans hcounter⟩
          · rw [hrest]
            exact Or.inr ⟨_, s₂, rfl, hnext.trans hcounter, List.Forall₂.cons ⟨n, rfl⟩ hnumbered⟩

/-! ## Writers -/

variable (folder : String) (deviceId : DeviceId) (s : BepState)

/-- A writer panics before its transaction was committed. -/
def Aborts {α : Type} (x : RustM BepState α) : Prop :=
  ∃ e s', x.run s = .error e s' ∧ OnlyCounter s s'

variable {s}

/-- A writer panics while it numbers its files, or goes on with the numbered ones. -/
theorem run_numbered {α : Type} (files : List FileInfo)
    (body : List FileInfo → RustM BepState α) :
    Aborts s (BepState.assignSequences files >>= body) ∨
      ∃ files' n, List.Forall₂ Numbered files files' ∧
        (BepState.assignSequences files >>= body).run s =
          (body files').run { s with sequence := n } := by
  unfold Aborts
  rw [EStateM.run_bind]
  rcases assignSequences_run files s with ⟨e, s₁, hrun, hcounter⟩ |
    ⟨files', s₁, hrun, ⟨n, rfl⟩, hnumbered⟩
  · rw [hrun]
    exact Or.inl ⟨e, s₁, rfl, hcounter⟩
  · rw [hrun]
    exact Or.inr ⟨files', n, hnumbered, rfl⟩

variable (s)

/-- `replace_index`: nothing, or the new files in place of all of the folder and device. -/
theorem replaceIndex_run (index : Index) :
    Aborts s (BepState.replaceIndex index deviceId) ∨
      ∃ files tx n, List.Forall₂ Numbered index.files files ∧
        BepState.writeFiles (BepState.upsertFile index.folder deviceId) files
          (s.db.deleteFileInfo fun k => k.folder = index.folder && k.device = deviceId) = .ok tx ∧
        (BepState.replaceIndex index deviceId).run s =
          .ok () { s with sequence := n, db := tx,
                          indices := s.indices.insert deviceId { index with files := files } } := by
  unfold Aborts
  rw [BepState.replaceIndex, EStateM.run_bind, RustM.run_getThe]
  dsimp only
  rcases run_numbered index.files _ with habort | ⟨files, n, hnumbered, hrun⟩
  · exact Or.inl habort
  · rw [hrun, EStateM.run_bind]
    cases hwrite : BepState.writeFiles (BepState.upsertFile index.folder deviceId) files
        (s.db.deleteFileInfo fun k => k.folder = index.folder && k.device = deviceId) with
    | error e => exact Or.inl ⟨e, _, rfl, n, rfl⟩
    | ok tx => exact Or.inr ⟨files, tx, n, hnumbered, hwrite, rfl⟩

/-- `insert_file_info`: nothing, or the files put over what is there. -/
theorem insertFileInfo_run (fileInfo : List FileInfo) :
    Aborts s (BepState.insertFileInfo folder deviceId fileInfo) ∨
      ∃ files tx n, List.Forall₂ Numbered fileInfo files ∧
        BepState.writeFiles (BepState.upsertFile folder deviceId) files s.db = .ok tx ∧
        (BepState.insertFileInfo folder deviceId fileInfo).run s =
          .ok () { s with sequence := n, db := tx,
                          indices := s.indices.insertFileInfo folder deviceId files } := by
  unfold Aborts
  rw [BepState.insertFileInfo, EStateM.run_bind, RustM.run_getThe]
  dsimp only
  rcases run_numbered fileInfo _ with habort | ⟨files, n, hnumbered, hrun⟩
  · exact Or.inl habort
  · rw [hrun, EStateM.run_bind]
    cases hwrite : BepState.writeFiles (BepState.upsertFile folder deviceId) files s.db with
    | error e => exact Or.inl ⟨e, _, rfl, n, rfl⟩
    | ok tx => exact Or.inr ⟨files, tx, n, hnumbered, hwrite, rfl⟩

/-- `rm_replace_file_info`: nothing, or the files that are not deleted in place of those
of the same name. -/
theorem rmReplaceFileInfo_run (fileInfo : List FileInfo) :
    Aborts s (BepState.rmReplaceFileInfo folder deviceId fileInfo) ∨
      ∃ files tx n, List.Forall₂ Numbered fileInfo files ∧
        BepState.writeFiles (BepState.replaceFile folder deviceId)
          (files.filter fun f => !f.deleted) s.db = .ok tx ∧
        (BepState.rmReplaceFileInfo folder deviceId fileInfo).run s =
          .ok () { s with sequence := n, db := tx,
                          indices := s.indices.insertFileInfo folder deviceId
                            (files.filter fun f => !f.deleted) } := by
  unfold Aborts
  rw [BepState.rmReplaceFileInfo, BepState.replaceFileInfo, EStateM.run_bind, RustM.run_getThe]
  dsimp only
  rcases run_numbered fileInfo _ with habort | ⟨files, n, hnumbered, hrun⟩
  · exact Or.inl habort
  · rw [hrun, Rust.assert_of (Or.inl (Eq.refl false)), EStateM.run_bind, RustM.run_lift_ok]
    dsimp only
    rw [EStateM.run_bind]
    cases hwrite : BepState.writeFiles (BepState.replaceFile folder deviceId)
        (files.filter fun f => !f.deleted) s.db with
    | error e => exact Or.inl ⟨e, _, rfl, n, rfl⟩
    | ok tx => exact Or.inr ⟨files, tx, n, hnumbered, hwrite, rfl⟩

/-- `mv_file_info`: nothing, or one file renamed and its locations written. -/
theorem mvFileInfo_run (origFileInfo : FileInfo) (destFileName : String)
    (destFileLocations : List FileLocation) :
    Aborts s (BepState.mvFileInfo folder deviceId origFileInfo destFileName destFileLocations) ∨
      ∃ sequence tx tx' n,
        s.db.renameFileInfo ⟨folder, deviceId, origFileInfo.name⟩ destFileName sequence = .ok tx ∧
        stored tx' = stored tx ∧
        tx'.bepLocalCache = (tx.deleteLocalCache fun k =>
          k = ⟨folder, deviceId, destFileName⟩).bepLocalCache ∧
        (BepState.mvFileInfo folder deviceId origFileInfo destFileName destFileLocations).run s =
          .ok () { s with sequence := n, db := tx' } := by
  have hnext := nextSequenceId_run s
  unfold Aborts
  rw [BepState.mvFileInfo, EStateM.run_bind]
  cases hrun : BepState.nextSequenceId.run s with
  | error e s₁ =>
      rw [hrun] at hnext
      exact Or.inl ⟨e, s₁, rfl, hnext⟩
  | ok sequence s₁ =>
      rw [hrun] at hnext
      obtain ⟨n, rfl⟩ : OnlyCounter s s₁ := hnext
      dsimp only
      rw [EStateM.run_bind, RustM.run_getThe]
      dsimp only
      rw [EStateM.run_bind]
      cases hrename : s.db.renameFileInfo ⟨folder, deviceId, origFileInfo.name⟩ destFileName
          sequence with
      | error e => exact Or.inl ⟨e, _, rfl, n, rfl⟩
      | ok tx =>
          rw [RustM.run_lift_ok]
          dsimp only
          rw [EStateM.run_bind]
          generalize hwrite : BepState.insertLocations _ _ _ = locations
          cases locations with
          | error e => exact Or.inl ⟨e, _, rfl, n, rfl⟩
          | ok tx' =>
              refine Or.inr ⟨sequence, tx, tx', n, hrename, ?_, ?_, rfl⟩
              · rw [stored_insertLocations hwrite]
                rfl
              · rw [insertLocations_localCache hwrite]
                rfl

/-- `rm_file_info` always goes through. -/
theorem rmFileInfo_run (fileName : String) :
    (BepState.rmFileInfo folder deviceId fileName).run s =
      .ok () { s with db := s.db.deleteFileInfo fun k => k = ⟨folder, deviceId, fileName⟩,
                      indices := s.indices.removeFileInfo folder deviceId fileName } := rfl

/-- `index` reads the entry or makes the one of the database. -/
theorem index_run :
    (BepState.index folder deviceId).run s = .ok (some (known s folder deviceId))
      (if s.indices.indices.contains ⟨folder, deviceId⟩ = true then s
        else { s with
          indices := s.indices.insert deviceId (BepState.loadIndex s.db folder deviceId) }) := by
  rw [BepState.index, EStateM.run_bind, RustM.run_getThe]
  dsimp only
  rw [known, GrizolIndices.index, AssocMap.contains]
  cases s.indices.indices.get ⟨folder, deviceId⟩ <;> rfl

/-- In either case it leaves the database. -/
theorem index_db : (RustM.endState ((BepState.index folder deviceId).run s)).db = s.db := by
  rw [index_run, RustM.endState_ok]
  split_ifs <;> rfl

end Grizol.Analysis
