import Grizol.Analysis.NewerFiles
import Grizol.Analysis.QueueConsistency
import Grizol.Analysis.SequenceNumbers

/-!
# Messages that are taken in

A message that brings what the handlers take for granted goes through both sections of
its handler, and the requests it leads to can be sent. Beyond the message this needs three
things of the state (`SoundState`): no row is above the counter of sequence numbers, the blocks of
this device can be asked for, and an entry of another device is for its folder.
Everything that writes to the state keeps them.
-/

set_option autoImplicit false

namespace Grizol.Analysis

open Grizol.Library
open Grizol.Model Grizol.Model.Syncthing Grizol.Interface

/-! ## What is written -/

section Written

variable {folder : String} {deviceId : DeviceId} {tx tx' tx'' : Database} {file : FileInfo}
  {files : List FileInfo}

/-- The blocks of the second database are in the first one, or of a kind. -/
def BlocksAmong (kind : BlockKey → Prop) (tx tx' : Database) : Prop :=
  ∀ k, tx'.bepBlockInfo.contains k = true → tx.bepBlockInfo.contains k = true ∨ kind k

section Blocks

variable {kind : BlockKey → Prop}

/-- The same rows are among them. -/
theorem BlocksAmong.of_same (h : tx'.bepBlockInfo = tx.bepBlockInfo) : BlocksAmong kind tx tx' := by
  intro k hk
  rw [h] at hk
  exact Or.inl hk

/-- Two writes of such rows. -/
theorem BlocksAmong.trans (h : BlocksAmong kind tx tx') (h' : BlocksAmong kind tx' tx'') :
    BlocksAmong kind tx tx'' := by
  intro k hk
  rcases h' k hk with hk | hkind
  · exact h k hk
  · exact Or.inr hkind

/-- A row of the kind may be written. -/
theorem insertBlock_among {k : BlockKey} {row : BlockRow} (hk : kind k)
    (h : tx.insertBlock k row = .ok tx') : BlocksAmong kind tx tx' := by
  unfold Database.insertBlock at h
  split_ifs at h
  obtain rfl := Except.ok.inj h
  intro k' hk'
  dsimp only at hk'
  rw [AssocMap.contains, AssocMap.get_entryOrInsert] at hk'
  split_ifs at hk' with hkey
  · rw [hkey]
    exact Or.inr hk
  · exact Or.inl hk'

/-- A deletion leaves fewer rows. -/
theorem deleteFileInfo_among (p : FileKey → Bool) : BlocksAmong kind tx (tx.deleteFileInfo p) := by
  intro k hk
  obtain ⟨row, hrow⟩ := AssocMap.contains_iff.mp hk
  rw [Database.deleteFileInfo, AssocMap.get_retain, Option.filter_eq_some_iff] at hrow
  exact Or.inl (AssocMap.contains_iff.mpr ⟨row, hrow.1⟩)

end Blocks

/-- What the statements for files leave: rows that were there, or have a number of one of the
files, and blocks that were there or are of one of them. -/
structure Written (deviceId : DeviceId) (files : List FileInfo) (tx tx' : Database) : Prop where
  bepIndex : tx'.bepIndex = tx.bepIndex
  rows : ∀ k r, tx'.bepFileInfo.get k = some r →
    tx.bepFileInfo.get k = some r ∨ ∃ f ∈ files, r.sequence = f.sequence
  blocks : BlocksAmong (fun k => k.file.device = deviceId ∧
    ∃ f ∈ files, ∃ b ∈ f.blocks, k.hash = b.hash ∧ k.size = b.size) tx tx'

/-- Without a write nothing is written. -/
theorem Written.refl (deviceId : DeviceId) (files : List FileInfo) (tx : Database) :
    Written deviceId files tx tx :=
  ⟨rfl, fun _ _ h => Or.inl h, .of_same rfl⟩

/-- Two writes of such files. -/
theorem Written.trans (h : Written deviceId files tx tx') (h' : Written deviceId files tx' tx'') :
    Written deviceId files tx tx'' where
  bepIndex := h'.bepIndex.trans h.bepIndex
  rows k r hr := by
    rcases h'.rows k r hr with hr | hnew
    · exact h.rows k r hr
    · exact Or.inr hnew
  blocks := h.blocks.trans h'.blocks

/-- Rows that are deleted first. -/
theorem Written.of_deleted {p : FileKey → Bool}
    (h : Written deviceId files (tx.deleteFileInfo p) tx') : Written deviceId files tx tx' where
  bepIndex := h.bepIndex
  rows k r hr := by
    rcases h.rows k r hr with hr | hnew
    · rw [Database.deleteFileInfo, AssocMap.get_retain, Option.filter_eq_some_iff] at hr
      exact Or.inl hr.1
    · exact Or.inr hnew
  blocks := (deleteFileInfo_among p).trans h.blocks

/-- A file is written over its row. -/
theorem upsertFile_written (hfile : file ∈ files)
    (h : BepState.upsertFile folder deviceId file tx = .ok tx') : Written deviceId files tx tx' where
  bepIndex := (upsertFile_accepted h).1
  rows k r hr := by
    rw [upsertFile_files h, AssocMap.get_insert] at hr
    split_ifs at hr
    · obtain rfl := Option.some.inj hr
      exact Or.inr ⟨file, hfile, rfl⟩
    · exact Or.inl hr
  blocks := by
    refine upsertFile_rel (BlocksAmong _) (fun _ => .of_same rfl) BlocksAmong.trans ?_ ?_ ?_ h
    · exact fun row tx tx' h => .of_same (insertFileInfo_eq_ok h).2.1
    · exact fun id value tx tx' h => .of_same (insertVersion_tables h).2
    · exact fun b hb row tx tx' h => insertBlock_among ⟨rfl, file, hfile, b, hb, rfl, rfl⟩ h

/-- Or in place of it. -/
theorem replaceFile_written (hfile : file ∈ files)
    (h : BepState.replaceFile folder deviceId file tx = .ok tx') :
    Written deviceId files tx tx' where
  bepIndex := (replaceFile_accepted h).1
  rows k r hr := by
    rw [replaceFile_files h, AssocMap.get_insert] at hr
    split_ifs at hr
    · obtain rfl := Option.some.inj hr
      exact Or.inr ⟨file, hfile, rfl⟩
    · rw [AssocMap.get_retain, Option.filter_eq_some_iff] at hr
      exact Or.inl hr.1
  blocks := by
    refine (deleteFileInfo_among _).trans
      (replaceFile_rel (BlocksAmong _) (fun _ => .of_same rfl) BlocksAmong.trans ?_ ?_ ?_ h)
    · exact fun row tx tx' h => .of_same (insertFileInfo_eq_ok h).2.1
    · exact fun id value tx tx' h => .of_same (insertVersion_tables h).2
    · exact fun b hb row tx tx' h => insertBlock_among ⟨rfl, file, hfile, b, hb, rfl, rfl⟩ h

/-- Files are written over their rows. -/
theorem upsertFiles_written (h : BepState.writeFiles (BepState.upsertFile folder deviceId) files tx =
    .ok tx') : Written deviceId files tx tx' :=
  writeFiles_rel (Written deviceId files) (Written.refl deviceId files) Written.trans
    (fun _ hfile _ _ h => upsertFile_written hfile h) h

/-- Or in place of them. -/
theorem replaceFiles_written (h : BepState.writeFiles (BepState.replaceFile folder deviceId) files
    tx = .ok tx') : Written deviceId files tx tx' :=
  writeFiles_rel (Written deviceId files) (Written.refl deviceId files) Written.trans
    (fun _ hfile _ _ h => replaceFile_written hfile h) h

/-- Files with numbers of their own go in, if each would. -/
theorem writeFiles_returns {write : FileInfo → Database → Rust Database}
    {accepted : FileInfo → Prop} {bepIndex : List (String × DeviceId)}
    (hreturns : ∀ file tx, tx.bepIndex = bepIndex → accepted file →
      tx.sequenceFree ⟨folder, deviceId, file.name⟩ file.sequence = true →
        ∃ tx', write file tx = .ok tx')
    (hwritten : ∀ file tx tx', write file tx = .ok tx' → Written deviceId [file] tx tx')
    (files : List FileInfo) :
    ∀ {tx : Database}, tx.bepIndex = bepIndex → (∀ f ∈ files, accepted f) →
      (∀ f ∈ files, ∀ k r, tx.bepFileInfo.get k = some r → r.sequence ≠ f.sequence) →
      (files.Pairwise fun f g => f.sequence ≠ g.sequence) →
        ∃ tx', BepState.writeFiles write files tx = .ok tx' := by
  induction files with
  | nil =>
      intro tx _ _ _ _
      exact ⟨tx, rfl⟩
  | cons file files ih =>
      intro tx hindex haccepted hfresh hdistinct
      obtain ⟨hfirst, haccepted⟩ := List.forall_mem_cons.mp haccepted
      obtain ⟨hfree, hfresh⟩ := List.forall_mem_cons.mp hfresh
      obtain ⟨hdiffer, hdistinct⟩ := List.pairwise_cons.mp hdistinct
      obtain ⟨tx₁, hfile⟩ := hreturns file tx hindex hfirst
        (Database.sequenceFree_iff.mpr fun k r hr heq => absurd heq (hfree k r hr))
      have hw := hwritten file tx tx₁ hfile
      have hfresh₁ : ∀ f ∈ files, ∀ k r, tx₁.bepFileInfo.get k = some r →
          r.sequence ≠ f.sequence := by
        intro f hf k r hr
        rcases hw.rows k r hr with hold | ⟨g, hg, heq⟩
        · exact hfresh f hf k r hold
        · obtain rfl := List.mem_singleton.mp hg
          rw [heq]
          exact hdiffer f hf
      obtain ⟨tx', hrest⟩ := ih (hw.bepIndex.trans hindex) haccepted hfresh₁ hdistinct
      exact ⟨tx', Rust.bind_eq_ok.mpr ⟨tx₁, hfile, hrest⟩⟩

end Written

/-! ## Differences -/

section Differences

variable {old new : FileInfo}

/-- Only no counters have no greatest one. -/
theorem maxCounter_eq_none {counters : List Counter} : maxCounter counters = none ↔ counters = [] := by
  cases counters <;> simp [maxCounter]

/-- Two files can be told apart exactly when they are comparable. -/
theorem diffFile_returns_iff :
    (∃ place, diffFile (some old) new = .ok place) ↔ Comparable old new := by
  have hversion : partialCmpFileVersion old new = (do
      let a ← Rust.unwrap (maxCounter (countersOf old))
      let b ← Rust.unwrap (maxCounter (countersOf new))
      pure <|
        if a.value < b.value then some .lt
        else if b.value < a.value then some .gt
        else if a.value = b.value ∧ a.id = b.id then some .eq
        else none) := by
    rw [partialCmpFileVersion, decidingCounter_eq, decidingCounter_eq]
  rw [diffFile, hversion]
  cases hold : maxCounter (countersOf old) with
  | none =>
      refine ⟨?_, fun h => absurd (maxCounter_eq_none.mp hold) h.oldCounters⟩
      rintro ⟨place, hplace⟩
      cases hplace
  | some a =>
      cases hnew : maxCounter (countersOf new) with
      | none =>
          refine ⟨?_, fun h => absurd (maxCounter_eq_none.mp hnew) h.newCounters⟩
          rintro ⟨place, hplace⟩
          cases hplace
      | some b =>
          have hcounters : countersOf old ≠ [] ∧ countersOf new ≠ [] := by
            rw [Ne, Ne, ← maxCounter_eq_none, ← maxCounter_eq_none, hold, hnew]
            simp
          have hcomparable : Comparable old new ↔ (a.value = b.value → a.id ≠ b.id →
              old.modifiedS ≠ new.modifiedS ∨ old.modifiedNs ≠ new.modifiedNs) := by
            constructor
            · exact fun h => h.times a b hold hnew
            · intro h
              refine ⟨hcounters.1, hcounters.2, ?_⟩
              intro a' b' ha' hb'
              rw [hold] at ha'
              rw [hnew] at hb'
              obtain rfl := Option.some.inj ha'
              obtain rfl := Option.some.inj hb'
              exact h
          rw [hcomparable, Rust.unwrap_some, Rust.ok_bind, Rust.unwrap_some, Rust.ok_bind,
            Rust.pure_eq_ok, Rust.ok_bind]
          by_cases hlt : a.value < b.value
          · rw [if_pos hlt]
            refine ⟨fun _ heq => ?_, fun _ => ⟨.newlyAdded, rfl⟩⟩
            rw [heq] at hlt
            exact absurd hlt (UInt64.lt_irrefl _)
          by_cases hgt : b.value < a.value
          · rw [if_neg hlt, if_pos hgt]
            refine ⟨fun _ heq => ?_, fun _ => ⟨.nowhere, rfl⟩⟩
            rw [heq] at hgt
            exact absurd hgt (UInt64.lt_irrefl _)
          have heq : a.value = b.value := by
            rw [UInt64.lt_iff_toNat_lt] at hlt hgt
            exact UInt64.toNat_inj.mp (by omega)
          rw [if_neg hlt, if_neg hgt]
          by_cases hid : a.id = b.id
          · rw [if_pos ⟨heq, hid⟩]
            exact ⟨fun _ _ hne => absurd hid hne, fun _ => ⟨.nowhere, rfl⟩⟩
          rw [if_neg (fun h => hid h.2)]
          dsimp only
          rw [partialCmpFileTimestamp]
          have hsame : (a.value = b.value → a.id ≠ b.id →
              old.modifiedS ≠ new.modifiedS ∨ old.modifiedNs ≠ new.modifiedNs) ↔
                ¬ (old.modifiedS = new.modifiedS ∧ old.modifiedNs = new.modifiedNs) :=
            ⟨fun h => not_and_or.mpr (h heq hid), fun h _ _ => not_and_or.mp h⟩
          rw [hsame]
          by_cases hbefore : old.modifiedS < new.modifiedS ∨
              old.modifiedS = new.modifiedS ∧ old.modifiedNs < new.modifiedNs
          · rw [if_pos hbefore]
            refine ⟨?_, fun _ => ⟨.newlyAddedConflicting, rfl⟩⟩
            rintro - ⟨hs, hns⟩
            rw [hs, hns] at hbefore
            exact hbefore.elim (Int64.lt_irrefl) fun h => Int32.lt_irrefl h.2
          by_cases hafter : new.modifiedS < old.modifiedS ∨
              old.modifiedS = new.modifiedS ∧ new.modifiedNs < old.modifiedNs
          · rw [if_neg hbefore, if_pos hafter]
            refine ⟨?_, fun _ => ⟨.existingConflicting, rfl⟩⟩
            rintro - ⟨hs, hns⟩
            rw [hs, hns] at hafter
            exact hafter.elim (Int64.lt_irrefl) fun h => Int32.lt_irrefl h.2
          -- neither is before the other: the handler panics
          rw [if_neg hbefore, if_neg hafter, decidingCounter_eq, decidingCounter_eq, hold, hnew,
            Rust.unwrap_some, Rust.ok_bind, Rust.unwrap_some, Rust.ok_bind, Rust.pure_eq_ok,
            Rust.ok_bind, heq, Nat.compare_eq_eq.mpr rfl]
          refine ⟨?_, fun hne => absurd ?_ hne⟩
          · rintro ⟨place, hplace⟩
            cases hplace
          · rw [not_or, not_and, Int64.lt_iff_toInt_lt, Int32.lt_iff_toInt_lt] at hbefore hafter
            have hs : old.modifiedS = new.modifiedS := Int64.toInt_inj.mp (by omega)
            have hns := hbefore.2 hs
            have hns' := hafter.2 hs
            exact ⟨hs, Int32.toInt_inj.mp (by omega)⟩

variable {existing : AssocMap String FileInfo} {known added : List FileInfo}

/-- The file is new to a map exactly when `newFiles` keeps it. -/
theorem all_newer_iff_fresh (hknown : ∀ name, existing.get name = lastNamed known name)
    {file : FileInfo} :
    ((lastNamed known file.name).all fun old => decide (Newer old file)) = true ↔
      Fresh existing file := by
  rw [Option.all_eq_true, Fresh, hknown]
  exact forall₂_congr fun old _ => decide_eq_true_iff

/-- Comparable files are compared, and the new ones found. -/
theorem diffFiles_returns (hknown : ∀ name, existing.get name = lastNamed known name)
    (h : AllComparable known added) :
    ∃ diff, diffFiles existing added = .ok diff ∧ diff.newlyAddedFiles = newFiles known added := by
  induction added with
  | nil => exact ⟨_, rfl, rfl⟩
  | cons file added ih =>
      obtain ⟨hfirst, hrest⟩ := List.forall_mem_cons.mp h
      obtain ⟨rest, hdiff, hnew⟩ := ih hrest
      obtain ⟨place, hplace⟩ : ∃ place, diffFile (existing.get file.name) file = .ok place := by
        cases hget : existing.get file.name with
        | none => exact ⟨_, rfl⟩
        | some old =>
            rw [hknown] at hget
            exact diffFile_returns_iff.mpr (hfirst old hget)
      refine ⟨_, Rust.bind_eq_ok.mpr ⟨place, hplace, Rust.bind_eq_ok.mpr ⟨rest, hdiff, rfl⟩⟩, ?_⟩
      have hfresh := diffFile_newlyAdded hplace
      rw [← all_newer_iff_fresh hknown] at hfresh
      rw [newFiles, List.filter_cons]
      by_cases hadded : place = .newlyAdded
      · rw [if_pos (hfresh.mp hadded), hadded]
        exact congrArg (file :: ·) hnew
      · rw [if_neg fun hall => hadded (hfresh.mpr hall)]
        refine Eq.trans ?_ hnew
        cases place with
        | newlyAdded => exact absurd rfl hadded
        | newlyAddedConflicting | existingConflicting | nowhere => rfl

/-- The difference to an index of the same folder, and what is new in it. -/
theorem diffOrPanic_returns {folder : String} {added existing : Index}
    (hfolder : added.folder = folder) (h : AllComparable existing.files added.files) :
    ∃ diff, diffOrPanic folder added existing = .ok diff ∧
      diff.newlyAddedFiles = newFiles existing.files added.files := by
  obtain ⟨diff, hdiff, hnew⟩ := @diffFiles_returns
    (GrizolIndex.insertAll .empty existing.files) existing.files added.files (fun name => by
      rw [get_insertAll, AssocMap.get_empty, Option.or_none]) h
  refine ⟨diff, ?_, hnew⟩
  rw [diffOrPanic, diffIndices, if_neg (fun hother => hother.1 hfolder)]
  dsimp only
  rw [hdiff]
  rfl

/-- A new file is one of those that were added. -/
theorem mem_newFiles {file : FileInfo} (h : file ∈ newFiles known added) : file ∈ added :=
  List.mem_of_mem_filter h

end Differences
/-! ## Calls -/

section Calls

variable {folder : String} {deviceId : DeviceId} {s : BepState} {files : List FileInfo}

/-- A file that can be stored is accepted in a folder that is shared. -/
theorem accepted_of_storable {tx : Database} {file : FileInfo}
    (hindex : (folder, deviceId) ∈ tx.bepIndex) (h : Storable file) :
    Accepted tx folder deviceId file :=
  ⟨hindex, h.type, h.version, h.values⟩

/-- A number changes nothing of what is needed of a file. -/
theorem storable_numbered {f f' : FileInfo} (h : Numbered f f') (hf : Storable f) : Storable f' := by
  obtain ⟨n, rfl⟩ := h
  exact ⟨hf.type, hf.version, hf.values⟩

/-- A writer goes on with numbered files, or there are too few numbers. -/
theorem run_numbering {α : Type} (files : List FileInfo)
    (body : List FileInfo → RustM BepState α) :
    (∃ numbered n, Numbering s files n numbered ∧
      (BepState.assignSequences files >>= body).run s =
        (body numbered).run { s with sequence := n }) ∨
    ∃ e n, sequencesAfter (lastSequence s) < files.length ∧
      (BepState.assignSequences files >>= body).run s = .error e { s with sequence := n } ∧
      SequencesBelow s.db n := by
  rw [EStateM.run_bind]
  rcases assignSequences_numbering files with
    ⟨numbered, n, hrun, hnumbering⟩ | ⟨e, n, hless, hrun, hbelow'⟩
  · rw [hrun]
    exact Or.inl ⟨numbered, n, hnumbering, rfl⟩
  · rw [hrun]
    exact Or.inr ⟨e, n, hless, rfl, hbelow'⟩

/-- Storable files that got their numbers go into the table of a folder that is shared. -/
theorem upsertFiles_returns {tx : Database} {n : Option Int64} {numbered : List FileInfo}
    (hbelow : SequencesBelow s.db s.sequence) (hnumbering : Numbering s files n numbered)
    (hindex : (folder, deviceId) ∈ tx.bepIndex)
    (hrows : ∀ k r, tx.bepFileInfo.get k = some r → s.db.bepFileInfo.get k = some r)
    (hstorable : ∀ f ∈ files, Storable f) :
    ∃ tx', BepState.writeFiles (BepState.upsertFile folder deviceId) numbered tx = .ok tx' := by
  refine @writeFiles_returns folder deviceId (BepState.upsertFile folder deviceId) Storable
    tx.bepIndex ?_ ?_ numbered tx rfl ?_ ?_ hnumbering.distinct
  · intro file tx₁ hsame hfile hfree
    rw [← hsame] at hindex
    exact upsertFile_returns (accepted_of_storable hindex hfile) hfree
  · exact fun file _ _ h => upsertFile_written (List.mem_singleton_self file) h
  · intro f' hf'
    obtain ⟨f, hf, hnumbered⟩ := Numbered.mem hnumbering.assigned hf'
    exact storable_numbered hnumbered (hstorable f hf)
  · exact fun f hf k r hr => hnumbering.fresh hbelow f hf k r (hrows k r hr)

/-- `replace_index` of storable files returns, if there are numbers for them. -/
theorem replaceIndex_returns {index : Index} (hbelow : SequencesBelow s.db s.sequence)
    (hindex : (index.folder, deviceId) ∈ s.db.bepIndex) (hstorable : ∀ f ∈ index.files, Storable f)
    (hleft : index.files.length ≤ sequencesAfter (lastSequence s)) :
    ∃ numbered n tx, Numbering s index.files n numbered ∧ Written deviceId numbered s.db tx ∧
      (BepState.replaceIndex index deviceId).run s =
        .ok () { s with sequence := n, db := tx,
                        indices := s.indices.insert deviceId { index with files := numbered } } := by
  rw [BepState.replaceIndex, EStateM.run_bind, RustM.run_getThe]
  dsimp only
  rcases @run_numbering s _ index.files _ with
    ⟨numbered, n, hnumbering, hrun⟩ | ⟨e, n, hless, -⟩
  · let cleared := s.db.deleteFileInfo fun k => k.folder = index.folder && k.device = deviceId
    have hcleared : ∀ k r, cleared.bepFileInfo.get k = some r → s.db.bepFileInfo.get k = some r := by
      intro k r hr
      dsimp only [cleared, Database.deleteFileInfo] at hr
      rw [AssocMap.get_retain, Option.filter_eq_some_iff] at hr
      exact hr.1
    obtain ⟨tx, hwrite⟩ := @upsertFiles_returns index.folder deviceId s index.files cleared n
      numbered hbelow hnumbering hindex hcleared hstorable
    refine ⟨numbered, n, tx, hnumbering, (upsertFiles_written hwrite).of_deleted, ?_⟩
    rw [hrun, EStateM.run_bind, hwrite]
    rfl
  · exact absurd hleft (Nat.not_le.mpr hless)

/-- What `insert_file_info` does to the rows, whether it returns or panics; it returns if the
files are storable, the folder is shared and there are numbers for them. -/
theorem insertFileInfo_numbering (hbelow : SequencesBelow s.db s.sequence) :
    (∃ numbered n tx, Numbering s files n numbered ∧ Written deviceId numbered s.db tx ∧
      (BepState.insertFileInfo folder deviceId files).run s =
        .ok () { s with sequence := n, db := tx,
                        indices := s.indices.insertFileInfo folder deviceId numbered }) ∨
    (∃ e n, (BepState.insertFileInfo folder deviceId files).run s =
        .error e { s with sequence := n } ∧ SequencesBelow s.db n) ∧
      ¬ ((folder, deviceId) ∈ s.db.bepIndex ∧ (∀ f ∈ files, Storable f) ∧
        files.length ≤ sequencesAfter (lastSequence s)) := by
  rw [BepState.insertFileInfo, EStateM.run_bind, RustM.run_getThe]
  dsimp only
  rcases @run_numbering s _ files _ with
    ⟨numbered, n, hnumbering, hrun⟩ | ⟨e, n, hless, hrun, hbelow'⟩
  · rw [hrun, EStateM.run_bind]
    cases hwrite : BepState.writeFiles (BepState.upsertFile folder deviceId) numbered s.db with
    | ok tx => exact Or.inl ⟨numbered, n, tx, hnumbering, upsertFiles_written hwrite, rfl⟩
    | error e =>
        refine Or.inr ⟨⟨e, n, rfl, hnumbering.below hbelow fun _ _ hr => Or.inl hr⟩, ?_⟩
        rintro ⟨hindex, hstorable, -⟩
        obtain ⟨tx, hreturns⟩ := upsertFiles_returns hbelow hnumbering hindex (fun _ _ hr => hr)
          hstorable
        rw [hwrite] at hreturns
        cases hreturns
  · rw [hrun]
    exact Or.inr ⟨⟨e, n, rfl, hbelow'⟩, fun h => absurd h.2.2 (Nat.not_le.mpr hless)⟩

/-- Adding storable files returns while there are sequence numbers. -/
theorem insertFileInfo_call_returns (hbelow : SequencesBelow s.db s.sequence)
    (hindex : (folder, deviceId) ∈ s.db.bepIndex) (hstorable : ∀ f ∈ files, Storable f)
    (hleft : files.length ≤ sequencesAfter (lastSequence s)) :
    ∃ numbered n tx, Numbering s files n numbered ∧ Written deviceId numbered s.db tx ∧
      (BepState.insertFileInfo folder deviceId files).run s =
        .ok () { s with sequence := n, db := tx,
                        indices := s.indices.insertFileInfo folder deviceId numbered } :=
  insertFileInfo_numbering hbelow |>.resolve_right fun h => h.2 ⟨hindex, hstorable, hleft⟩

/-- `rm_replace_file_info` of storable files whose blocks fit a statement returns. -/
theorem rmReplaceFileInfo_returns (hbelow : SequencesBelow s.db s.sequence)
    (hindex : (folder, deviceId) ∈ s.db.bepIndex)
    (hstorable : ∀ f ∈ notDeleted files, Storable f ∧ FitsStatement f)
    (hleft : files.length ≤ sequencesAfter (lastSequence s)) :
    ∃ numbered n tx, Numbering s files n numbered ∧
      Written deviceId (notDeleted numbered) s.db tx ∧
      (BepState.rmReplaceFileInfo folder deviceId files).run s =
        .ok () { s with sequence := n, db := tx,
                        indices := s.indices.insertFileInfo folder deviceId
                          (notDeleted numbered) } := by
  rw [BepState.rmReplaceFileInfo, BepState.replaceFileInfo, EStateM.run_bind, RustM.run_getThe]
  dsimp only
  rcases @run_numbering s _ files _ with
    ⟨numbered, n, hnumbering, hrun⟩ | ⟨e, n, hless, -⟩
  · have hkept : List.Forall₂ Numbered (notDeleted files) (notDeleted numbered) :=
      Numbered.filter hnumbering.assigned fun _ _ => rfl
    obtain ⟨tx, hwrite⟩ : ∃ tx, BepState.writeFiles (BepState.replaceFile folder deviceId)
        (notDeleted numbered) s.db = .ok tx := by
      refine @writeFiles_returns folder deviceId (BepState.replaceFile folder deviceId)
        (fun f => Storable f ∧ FitsStatement f) s.db.bepIndex ?_ ?_ (notDeleted numbered) s.db rfl
        ?_ ?_ (hnumbering.distinct.filter _)
      · rintro file tx₁ hsame ⟨hfile, hfits⟩ hfree
        rw [← hsame] at hindex
        exact replaceFile_returns ⟨accepted_of_storable hindex hfile, hfits.bound, hfits.distinct⟩
          hfree
      · exact fun file _ _ h => replaceFile_written (List.mem_singleton_self file) h
      · intro f' hf'
        obtain ⟨f, hf, m, rfl⟩ := Numbered.mem hkept hf'
        obtain ⟨hfile, hfits⟩ := hstorable f hf
        exact ⟨storable_numbered ⟨m, rfl⟩ hfile, hfits.bound, hfits.distinct⟩
      · exact fun f hf k r hr => hnumbering.fresh hbelow f (List.mem_of_mem_filter hf) k r hr
    refine ⟨numbered, n, tx, hnumbering, replaceFiles_written hwrite, ?_⟩
    rw [hrun, Rust.assert_of (Or.inl rfl), EStateM.run_bind, RustM.run_lift_ok]
    dsimp only
    rw [EStateM.run_bind]
    unfold notDeleted at hwrite
    rw [hwrite]
    rfl
  · exact absurd hleft (Nat.not_le.mpr hless)

end Calls

/-! ## Sections -/

section Sections

variable {folder : String} {localDeviceId deviceId : DeviceId} {s : BepState}
  {files : List FileInfo}

/-- **What the handlers rely on**: the counter is above the rows, the blocks of this device can
be asked for, and the entries of other devices are for their folders. -/
structure SoundState (localDeviceId : DeviceId) (s : BepState) : Prop where
  below : SequencesBelow s.db s.sequence
  requestable : RequestableRows s.db localDeviceId
  folders : ∀ key entry, s.indices.indices.get key = some entry → key.deviceId ≠ localDeviceId →
    entry.folder = key.folder

/-- A server that has just started is sound. -/
theorem sound_new {db : Database} (h : RequestableRows db localDeviceId) :
    SoundState localDeviceId (.new db) where
  below n hn := by cases hn
  requestable := h
  folders key entry hentry := by cases hentry

/-- Files that are written with their numbers. -/
theorem sound_written (h : SoundState localDeviceId s) {n : Option Int64} {numbered kept : List FileInfo}
    {tx : Database} {indices : GrizolIndices} (hnumbering : Numbering s files n numbered)
    (hwritten : Written deviceId kept s.db tx) (hkept : ∀ f ∈ kept, f ∈ numbered)
    (hblocks : deviceId = localDeviceId → ∀ f ∈ kept, ∀ b ∈ f.blocks, Requestable b.hash b.size)
    (hfolders : ∀ key entry, indices.indices.get key = some entry →
      key.deviceId ≠ localDeviceId → entry.folder = key.folder) :
    SoundState localDeviceId { s with sequence := n, db := tx, indices := indices } where
  below := by
    refine hnumbering.below h.below fun k r hr => ?_
    rcases hwritten.rows k r hr with hold | ⟨f, hf, heq⟩
    · exact Or.inl hold
    · exact Or.inr ⟨f, hkept f hf, heq⟩
  requestable := by
    intro k hk hdevice
    rcases hwritten.blocks k hk with hold | ⟨hother, f, hf, b, hb, hhash, hsize⟩
    · exact h.requestable k hold hdevice
    · have hblock := hblocks (hother.symm.trans hdevice) f hf b hb
      rw [hhash, hsize]
      exact hblock
  folders := hfolders

/-- The entry `index` makes is for its folder. -/
theorem index_sound (h : SoundState localDeviceId s) (folder : String) (deviceId : DeviceId) :
    ∃ s', (BepState.index folder deviceId).run s = .ok (some (known s folder deviceId)) s' ∧
      SoundState localDeviceId s' ∧ s'.db = s.db ∧ s'.sequence = s.sequence ∧
      s'.indices.indices.get ⟨folder, deviceId⟩ = some (entryFor s folder deviceId) ∧
      ∀ key, key ≠ ⟨folder, deviceId⟩ →
        s'.indices.indices.get key = s.indices.indices.get key := by
  have hentry := (index_untouched folder deviceId deviceId s).2
  refine ⟨_, index_run folder deviceId s, ?_⟩
  rw [index_run, RustM.endState_ok] at hentry
  split_ifs at hentry ⊢ with hcontains
  · exact ⟨h, rfl, rfl, hentry, fun _ _ => rfl⟩
  · have hother : ∀ key, key ≠ ⟨folder, deviceId⟩ →
        (s.indices.insert deviceId (BepState.loadIndex s.db folder deviceId)).indices.get key =
          s.indices.indices.get key := fun key hkey => AssocMap.get_insert_of_ne _ _ hkey
    refine ⟨⟨h.below, h.requestable, ?_⟩, rfl, rfl, hentry, hother⟩
    intro key entry hget hdevice
    dsimp only at hget
    by_cases hkey : key = ⟨folder, deviceId⟩
    · rw [GrizolIndices.insert, hkey] at hget
      obtain rfl := Option.some.inj ((AssocMap.get_insert_self _ _ _).symm.trans hget)
      rw [hkey]
      rfl
    · rw [hother key hkey] at hget
      exact h.folders key entry hget hdevice

/-- The entry of this device does not matter. -/
theorem folders_insertFileInfo (h : SoundState localDeviceId s) (files : List FileInfo)
    (hentry : deviceId ≠ localDeviceId →
      s.indices.indices.contains ⟨folder, deviceId⟩ = true) :
    ∀ key entry, (s.indices.insertFileInfo folder deviceId files).indices.get key = some entry →
      key.deviceId ≠ localDeviceId → entry.folder = key.folder := by
  intro key entry hget hdevice
  rw [get_insertFileInfo] at hget
  split_ifs at hget with hkey
  · rw [hkey] at hdevice ⊢
    obtain ⟨old, hold⟩ := AssocMap.contains_iff.mp (hentry hdevice)
    rw [hold, Option.getD_some] at hget
    obtain rfl := Option.some.inj hget
    exact h.folders _ old hold hdevice
  · exact h.folders key entry hget hdevice

/-- New files depend on the last known of each name. -/
theorem newFiles_congr {known known' : List FileInfo} (added : List FileInfo)
    (h : ∀ name, lastNamed known' name = lastNamed known name) :
    newFiles known' added = newFiles known added := by
  rw [newFiles, newFiles]
  refine List.filter_congr fun file _ => ?_
  rw [h]

/-- So does whether files can be compared. -/
theorem allComparable_congr {known known' added : List FileInfo}
    (h : ∀ name, lastNamed known' name = lastNamed known name) (hall : AllComparable known added) :
    AllComparable known' added := by
  intro file hfile old hold
  rw [h] at hold
  exact hall file hfile old hold

/-- Numbers that are left after some were given out. -/
theorem sequencesAfter_numbering {n : Option Int64} {numbered : List FileInfo} {s' : BepState}
    (hnumbering : Numbering s files n numbered) (hsequence : s'.sequence = n) {count : ℕ}
    (hcount : files.length + count ≤ sequencesAfter (lastSequence s))
    (hnil : files = [] → s'.db = s.db ∨ count = 0) :
    count ≤ sequencesAfter (lastSequence s') := by
  rcases hnumbering.counter with ⟨hfiles, hn⟩ | ⟨m, hm, -, hleft⟩
  · rcases hnil hfiles with hdb | rfl
    · have hlast : lastSequence s' = lastSequence s := by
        rw [lastSequence, lastSequence, hsequence, hn, hdb]
      rw [hlast]
      omega
    · exact Nat.zero_le _
  · have hlast : lastSequence s' = some m := by
      rw [lastSequence, hsequence, hm]
      rfl
    rw [hlast]
    omega

variable {clientDeviceId : DeviceId} {received : Index}

/-- The section of `handle_index` that writes, on a message that is taken in. -/
theorem replaceIndices_returns (hsound : SoundState localDeviceId s)
    (hshared : FolderShared localDeviceId clientDeviceId s received.folder)
    (htaken : IndexTaken localDeviceId received s) :
    ∃ blocks s', (BepProcessor.replaceIndices localDeviceId received clientDeviceId).run s =
      .ok blocks s' ∧ SoundState localDeviceId s' := by
  have hnumbers := htaken.numbers
  obtain ⟨numbered, n, tx, hnumbering, hwritten, hreplace⟩ := @replaceIndex_returns
    clientDeviceId s received hsound.below hshared.client htaken.storable (by omega)
  have hother := hshared.other
  let s₁ : BepState := { s with
    sequence := n
    db := tx
    indices := s.indices.insert clientDeviceId { received with files := numbered } }
  have hsound₁ : SoundState localDeviceId s₁ := by
    refine sound_written hsound hnumbering hwritten (fun _ hf => hf)
      (fun hsame => absurd hsame hother) ?_
    intro key entry hget hdevice
    rw [GrizolIndices.insert, AssocMap.get_insert] at hget
    split_ifs at hget with hkey
    · obtain rfl := Option.some.inj hget
      rw [hkey]
      rfl
    · exact hsound.folders key entry hget hdevice
  obtain ⟨s₂, hindex, hsound₂, hdb₂, hsequence₂, -, -⟩ :=
    index_sound hsound₁ received.folder localDeviceId
  -- what is known of this device is what was known before
  have hknown : ∀ name, lastNamed (known s₁ received.folder localDeviceId).files name =
      lastNamed (known s received.folder localDeviceId).files name := by
    refine lastNamed_known ?_ ?_
    · refine AssocMap.get_insert_of_ne _ _ ?_
      intro heq
      exact hother (FolderDevice.mk.inj heq).2.symm
    · have hend : RustM.endState ((BepState.replaceIndex received clientDeviceId).run s) = s₁ := by
        rw [hreplace]
        rfl
      exact fun k hk => replaceIndex_other hother hend hk
  obtain ⟨diff, hdiff, hnew⟩ := @diffOrPanic_returns received.folder received
    (known s₁ received.folder localDeviceId) rfl (allComparable_congr hknown htaken.comparable)
  rw [newFiles_congr received.files hknown] at hnew
  have hleft : diff.newlyAddedFiles.length ≤ sequencesAfter (lastSequence s₂) := by
    rw [hnew]
    refine sequencesAfter_numbering hnumbering hsequence₂ hnumbers ?_
    intro hnil
    rw [hnil]
    exact Or.inr rfl
  have hstorable : ∀ f ∈ diff.newlyAddedFiles, Storable f := by
    intro f hf
    rw [hnew] at hf
    exact htaken.storable f (mem_newFiles hf)
  have hlocal : (received.folder, localDeviceId) ∈ s₂.db.bepIndex := by
    rw [hdb₂]
    show (received.folder, localDeviceId) ∈ tx.bepIndex
    rw [hwritten.bepIndex]
    exact hshared.localDevice
  obtain ⟨numbered', n', tx', hnumbering', hwritten', hinsert⟩ :=
    insertFileInfo_call_returns hsound₂.below hlocal hstorable hleft
  refine ⟨_, _, RustM.run_bind_eq_ok.mpr ⟨_, _, hreplace,
    RustM.run_bind_eq_ok.mpr ⟨_, _, hindex,
    RustM.run_bind_eq_ok.mpr ⟨_, _, rfl,
    RustM.run_bind_eq_ok.mpr ⟨_, _, RustM.run_lift_eq_ok.mpr ⟨hdiff, rfl⟩,
    RustM.run_bind_eq_ok.mpr ⟨_, _, hinsert, rfl⟩⟩⟩⟩⟩, ?_⟩
  refine sound_written hsound₂ hnumbering' hwritten' (fun _ hf => hf) ?_
    (folders_insertFileInfo hsound₂ _ fun hne => absurd rfl hne)
  intro _ f' hf' b hb
  obtain ⟨f, hf, m, rfl⟩ := Numbered.mem hnumbering'.assigned hf'
  rw [hnew] at hf
  exact htaken.requestable f hf b hb

/-! ### Updates -/

/-- Entries that differ in the numbers of the files put into them. -/
theorem insertAll_numbered {existing : AssocMap String FileInfo} {numbered : List FileInfo}
    (h : List.Forall₂ Numbered files numbered) :
    ∃ values, List.Forall₂ Numbered (GrizolIndex.insertAll existing files).values values ∧
      values.Perm (GrizolIndex.insertAll existing numbered).values := by
  refine AssocMap.values_rel fun name => ?_
  rw [get_insertAll, get_insertAll]
  cases hlast : lastNamed numbered name with
  | some file' =>
      obtain ⟨file, hfile, hnumbered⟩ := Numbered.lastNamed h hlast
      rw [hfile]
      exact Option.Rel.some hnumbered
  | none =>
      have hnone : lastNamed files name = none := by
        rw [lastNamed_eq_none] at hlast ⊢
        intro f hf hname
        have hmem : name ∈ numbered.map FileInfo.name := by
          rw [Numbered.map_name h, ← hname]
          exact List.mem_map_of_mem hf
        obtain ⟨f', hf', hname'⟩ := List.mem_map.mp hmem
        exact hlast f' hf' hname'
      rw [hnone, Option.none_or]
      cases existing.get name with
      | none => exact Option.Rel.none
      | some file => exact Option.Rel.some ⟨file.sequence, rfl⟩

/-- Numbers do not matter for what can be compared, nor does the order. -/
theorem allComparable_numbered {known values numbered : List FileInfo}
    (h : List.Forall₂ Numbered files values) (hperm : values.Perm numbered)
    (hall : AllComparable known files) : AllComparable known numbered := by
  intro f' hf' old hold
  obtain ⟨f, hf, n, rfl⟩ := Numbered.mem h (hperm.mem_iff.mpr hf')
  obtain ⟨holdCounters, hnewCounters, htimes⟩ := hall f hf old hold
  exact ⟨holdCounters, hnewCounters, htimes⟩

/-- Nor for what is new. -/
theorem newFiles_numbered {known values numbered : List FileInfo}
    (h : List.Forall₂ Numbered files values) (hperm : values.Perm numbered) :
    (newFiles known numbered).length = (newFiles known files).length ∧
      ∀ f' ∈ newFiles known numbered, ∃ f ∈ newFiles known files, Numbered f f' := by
  have hnew : List.Forall₂ Numbered (newFiles known files) (newFiles known values) :=
    Numbered.filter h fun _ _ => rfl
  have hsame : (newFiles known values).Perm (newFiles known numbered) := hperm.filter _
  constructor
  · rw [hnew.length_eq, hsame.length_eq]
  · intro f' hf'
    exact Numbered.mem hnew (hsame.mem_iff.mpr hf')

/-- The section of `handle_index_update` that writes, on a message that is taken in. -/
theorem updateIndices_returns (hsound : SoundState localDeviceId s)
    (hshared : FolderShared localDeviceId clientDeviceId s received.folder)
    (htaken : UpdateTaken localDeviceId clientDeviceId received s) :
    ∃ blocks s', (BepProcessor.updateIndices localDeviceId received clientDeviceId).run s =
      .ok blocks s' ∧ SoundState localDeviceId s' := by
  have hnumbers := htaken.numbers
  have hother := hshared.other
  have hkeys : ∀ folder, (⟨folder, localDeviceId⟩ : FolderDevice) ≠
      ⟨received.folder, clientDeviceId⟩ := by
    intro folder heq
    exact hother (FolderDevice.mk.inj heq).2.symm
  -- what is new of the device the message comes from
  obtain ⟨s₁, hindex, hsound₁, hdb₁, hsequence₁, hentry₁, hothers₁⟩ :=
    index_sound hsound received.folder clientDeviceId
  obtain ⟨diff, hdiff, hnew⟩ := @diffOrPanic_returns received.folder received
    (known s received.folder clientDeviceId) rfl htaken.comparable
  have hlast₁ : lastSequence s₁ = lastSequence s := by
    rw [lastSequence, lastSequence, hdb₁, hsequence₁]
  have hclient : (received.folder, clientDeviceId) ∈ s₁.db.bepIndex := by
    rw [hdb₁]
    exact hshared.client
  have hstorable : ∀ f ∈ notDeleted diff.newlyAddedFiles, Storable f ∧ FitsStatement f := by
    rw [hnew]
    exact htaken.storable
  have hleft : diff.newlyAddedFiles.length ≤ sequencesAfter (lastSequence s₁) := by
    rw [hnew, hlast₁]
    exact le_trans (Nat.le_add_right _ _) hnumbers
  obtain ⟨numbered, n, tx, hnumbering, hwritten, hreplace⟩ :=
    rmReplaceFileInfo_returns hsound₁.below hclient hstorable hleft
  let s₂ : BepState := { s₁ with
    sequence := n
    db := tx
    indices := s₁.indices.insertFileInfo received.folder clientDeviceId (notDeleted numbered) }
  have hsound₂ : SoundState localDeviceId s₂ :=
    sound_written hsound₁ hnumbering hwritten (fun _ hf => List.mem_of_mem_filter hf)
      (fun hsame => absurd hsame hother)
      (folders_insertFileInfo hsound₁ _ fun _ => AssocMap.contains_iff.mpr ⟨_, hentry₁⟩)
  have hend₂ : RustM.endState ((BepState.rmReplaceFileInfo received.folder clientDeviceId
      diff.newlyAddedFiles).run s₁) = s₂ := by
    rw [hreplace]
    rfl
  -- what is known of this device is what was known before
  have hknown : ∀ name, lastNamed (known s₂ received.folder localDeviceId).files name =
      lastNamed (known s received.folder localDeviceId).files name := by
    refine lastNamed_known ?_ ?_
    · refine Eq.trans ?_ (hothers₁ _ (hkeys received.folder))
      exact (get_insertFileInfo _ _ s₁.indices _ _).trans (if_neg (hkeys received.folder))
    · intro k hk
      rw [rmReplaceFileInfo_other hother hend₂ hk, hdb₁]
  obtain ⟨s₃, hindexLocal, hsound₃, hdb₃, hsequence₃, -, hothers₃⟩ :=
    index_sound hsound₂ received.folder localDeviceId
  obtain ⟨s₄, hindexPeer, hsound₄, hdb₄, hsequence₄, -, -⟩ :=
    index_sound hsound₃ received.folder clientDeviceId
  -- the entry of the other device, with what was new
  let entry : GrizolIndex := { entryFor s received.folder clientDeviceId with
    files := GrizolIndex.insertAll (entryFor s received.folder clientDeviceId).files
      (notDeleted numbered) }
  have hentry₃ : s₃.indices.indices.get ⟨received.folder, clientDeviceId⟩ = some entry := by
    rw [hothers₃ _ (Ne.symm (hkeys received.folder))]
    refine (get_insertFileInfo _ _ s₁.indices _ _).trans ?_
    rw [if_pos rfl, hentry₁, Option.getD_some]
  have hpeer : known s₃ received.folder clientDeviceId = entry.toIndex := known_of_entry hentry₃
  have hfolder : (known s₃ received.folder clientDeviceId).folder = received.folder := by
    rw [hpeer]
    exact hsound₃.folders _ entry hentry₃ hother
  have hkept : List.Forall₂ Numbered (notDeleted (updatedFiles clientDeviceId received s))
      (notDeleted numbered) := by
    have hassigned := hnumbering.assigned
    rw [hnew] at hassigned
    exact Numbered.filter hassigned fun _ _ => rfl
  obtain ⟨values, hvalues, hperm⟩ := @insertAll_numbered _
    (entryFor s received.folder clientDeviceId).files _ hkept
  have hcomparable : AllComparable (known s₂ received.folder localDeviceId).files
      (known s₃ received.folder clientDeviceId).files := by
    rw [hpeer]
    exact allComparable_congr hknown
      (allComparable_numbered hvalues hperm htaken.comparableLocal)
  obtain ⟨diff', hdiff', hnew'⟩ := diffOrPanic_returns hfolder hcomparable
  rw [newFiles_congr _ hknown, hpeer] at hnew'
  obtain ⟨hlength, hmem⟩ := @newFiles_numbered _
    (known s received.folder localDeviceId).files _ _ hvalues hperm
  have hlocalNew : ∀ f' ∈ diff'.newlyAddedFiles,
      ∃ f ∈ localFiles localDeviceId clientDeviceId received s, Numbered f f' := by
    rw [hnew']
    exact hmem
  have hstorable' : ∀ f ∈ notDeleted diff'.newlyAddedFiles, Storable f ∧ FitsStatement f := by
    intro f' hf'
    obtain ⟨hf', hlive⟩ := List.mem_filter.mp hf'
    obtain ⟨f, hf, m, rfl⟩ := hlocalNew f' hf'
    obtain ⟨hstorable, hfits⟩ := htaken.storableLocal f (List.mem_filter.mpr ⟨hf, hlive⟩)
    exact ⟨storable_numbered ⟨m, rfl⟩ hstorable, hfits.bound, hfits.distinct⟩
  have hleft' : diff'.newlyAddedFiles.length ≤ sequencesAfter (lastSequence s₄) := by
    rw [hnew']
    refine le_trans (le_of_eq hlength) (sequencesAfter_numbering hnumbering
      (hsequence₄.trans hsequence₃) ?_ ?_)
    · rw [hlast₁, hnew]
      exact hnumbers
    · intro hnil
      refine Or.inl ?_
      have hnone := hnumbering.assigned
      rw [hnil, List.forall₂_nil_left_iff] at hnone
      rw [hdb₄, hdb₃]
      rw [hnil, hnone] at hreplace
      exact congrArg (fun r => (RustM.endState r).db) hreplace.symm
  have hlocal : (received.folder, localDeviceId) ∈ s₄.db.bepIndex := by
    rw [hdb₄, hdb₃]
    show (received.folder, localDeviceId) ∈ tx.bepIndex
    rw [hwritten.bepIndex, hdb₁]
    exact hshared.localDevice
  obtain ⟨numbered', n', tx', hnumbering', hwritten', hreplace'⟩ :=
    rmReplaceFileInfo_returns hsound₄.below hlocal hstorable' hleft'
  refine ⟨_, _, RustM.run_bind_eq_ok.mpr ⟨_, _, hindex,
    RustM.run_bind_eq_ok.mpr ⟨_, _, rfl,
    RustM.run_bind_eq_ok.mpr ⟨_, _, RustM.run_lift_eq_ok.mpr ⟨hdiff, rfl⟩,
    RustM.run_bind_eq_ok.mpr ⟨_, _, hreplace,
    RustM.run_bind_eq_ok.mpr ⟨_, _, hindexLocal,
    RustM.run_bind_eq_ok.mpr ⟨_, _, rfl,
    RustM.run_bind_eq_ok.mpr ⟨_, _, hindexPeer,
    RustM.run_bind_eq_ok.mpr ⟨_, _, rfl,
    RustM.run_bind_eq_ok.mpr ⟨_, _, RustM.run_lift_eq_ok.mpr ⟨hdiff', rfl⟩,
    RustM.run_bind_eq_ok.mpr ⟨_, _, hreplace', rfl⟩⟩⟩⟩⟩⟩⟩⟩⟩⟩, ?_⟩
  refine sound_written hsound₄ hnumbering' hwritten' (fun _ hf => List.mem_of_mem_filter hf) ?_
    (folders_insertFileInfo hsound₄ _ fun hne => absurd rfl hne)
  intro _ f' hf' b hb
  obtain ⟨hf', hlive⟩ := List.mem_filter.mp hf'
  obtain ⟨f₁, hf₁, m₁, rfl⟩ := Numbered.mem hnumbering'.assigned hf'
  obtain ⟨f, hf, m, rfl⟩ := hlocalNew f₁ hf₁
  exact htaken.requestable f (List.mem_filter.mpr ⟨hf, hlive⟩) b hb

end Sections

end Grizol.Analysis
