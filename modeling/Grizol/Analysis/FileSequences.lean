import Grizol.Analysis.IndexIntake
import Grizol.Interface.FileSequences

/-!
# Every file gets a new number

The counter is never below a row (`SequencesBelow`): every operation takes its numbers from it
before it writes, and after a restart it starts from the greatest row. So what it gives out is
new, and it does not matter which of the numbered files are written.
-/

set_option autoImplicit false

namespace Grizol.Analysis

open Grizol.Library
open Grizol.Model Grizol.Model.Syncthing Grizol.Interface

/-! ## The numbers of an operation -/

section Numbers

variable {s s' : BepState}

/-- Calls in a row give increasing numbers, all above the last one. -/
theorem sequencesGiven_increasing (calls : ℕ) (s : BepState) :
    (∀ sequence ∈ sequencesGiven calls s, ∀ l, lastSequence s = some l → l < sequence) ∧
      (sequencesGiven calls s).Pairwise (· < ·) := by
  induction calls generalizing s with
  | zero => simp [sequencesGiven]
  | succ calls ih =>
      rw [sequencesGiven, nextSequenceId_counter]
      cases hnext : nextSequence s with
      | none => simp
      | some m =>
          dsimp only
          obtain ⟨hafter, -⟩ := nextSequence_eq_some hnext
          obtain ⟨hrest, hincreasing⟩ := ih { s with sequence := some m }
          have hfirst : ∀ l, lastSequence s = some l → l < m :=
            fun l hl => Int64.lt_iff_toInt_lt.mpr (hafter l hl)
          refine ⟨?_, List.pairwise_cons.mpr ⟨fun n hn => hrest n hn m rfl, hincreasing⟩⟩
          intro n hn l hl
          rcases List.mem_cons.mp hn with rfl | hn
          · exact hfirst l hl
          · exact Int64.lt_trans (hfirst l hl) (hrest n hn m rfl)

/-- The files get the numbers of the calls. -/
theorem sequences_of_assignSequences {files numbered : List FileInfo}
    (h : (BepState.assignSequences files).run s = .ok numbered s') :
    numbered.map FileInfo.sequence = sequencesGiven files.length s := by
  induction files generalizing s s' numbered with
  | nil =>
      obtain ⟨rfl, -⟩ := EStateM.Result.ok.inj h
      rfl
  | cons file files ih =>
      rw [BepState.assignSequences] at h
      obtain ⟨sequence, s₁, hnext, h⟩ := RustM.run_bind_eq_ok.mp h
      obtain ⟨rest, s₂, hrest, h⟩ := RustM.run_bind_eq_ok.mp h
      obtain ⟨rfl, -⟩ := EStateM.Result.ok.inj h
      rw [List.length_cons, sequencesGiven, hnext, List.map_cons, ih hrest]

/-- Numbers that no row has, and that differ, are not taken by the time they are written. -/
theorem neverTaken_of_fresh {write : FileInfo → Database → Rust Database} {folder : String}
    {deviceId : DeviceId}
    (hwritten : ∀ file tx tx', write file tx = .ok tx' → Written deviceId [file] tx tx')
    {files : List FileInfo} {tx : Database}
    (hfresh : ∀ f ∈ files, ∀ k r, tx.bepFileInfo.get k = some r → r.sequence ≠ f.sequence)
    (hdistinct : files.Pairwise fun f g => f.sequence ≠ g.sequence) :
    NeverTaken write folder deviceId files tx := by
  induction files generalizing tx with
  | nil => trivial
  | cons file files ih =>
      obtain ⟨hfirst, hfresh⟩ := List.forall_mem_cons.mp hfresh
      obtain ⟨hdiffer, hdistinct⟩ := List.pairwise_cons.mp hdistinct
      refine ⟨Database.sequenceFree_iff.mpr fun k r hr heq => absurd heq (hfirst k r hr), ?_⟩
      intro tx' hfile
      refine ih ?_ hdistinct
      intro f hf k r hr
      rcases (hwritten file tx tx' hfile).rows k r hr with hold | ⟨g, hg, heq⟩
      · exact hfresh f hf k r hold
      · obtain rfl := List.mem_singleton.mp hg
        rw [heq]
        exact hdiffer f hf

/-- The numbers an operation is given are new while the counter is not below the rows. -/
theorem freshSequences_of_below (hbelow : SequencesBelow s.db s.sequence) (e : SequenceEvent) :
    FreshSequences s e := by
  have hgiven : ∀ calls, ∀ sequence ∈ sequencesGiven calls s, ∀ k r,
      s.db.bepFileInfo.get k = some r → r.sequence < sequence := by
    intro calls sequence hsequence k r hr
    obtain ⟨l, hl, hle⟩ := le_lastSequence hbelow hr
    have hlt := (sequencesGiven_increasing calls s).1 sequence hsequence l hl
    rw [Int64.lt_iff_toInt_lt] at hlt ⊢
    omega
  have hincreasing : ∀ files numbered s',
      (BepState.assignSequences files).run s = .ok numbered s' →
        numbered.Pairwise fun f g => f.sequence < g.sequence := by
    intro files numbered s' hrun
    rw [← List.pairwise_map, sequences_of_assignSequences hrun]
    exact (sequencesGiven_increasing files.length s).2
  have hnumbered : ∀ files numbered s',
      (BepState.assignSequences files).run s = .ok numbered s' →
        (∀ f ∈ numbered, ∀ k r, s.db.bepFileInfo.get k = some r → r.sequence ≠ f.sequence) ∧
          numbered.Pairwise fun f g => f.sequence ≠ g.sequence := by
    intro files numbered s' hrun
    refine ⟨?_, (hincreasing files numbered s' hrun).imp Int64.ne_of_lt⟩
    intro f hf k r hr
    refine Int64.ne_of_lt (hgiven files.length f.sequence ?_ k r hr)
    rw [← sequences_of_assignSequences hrun]
    exact List.mem_map_of_mem hf
  refine ⟨hgiven _, (sequencesGiven_increasing _ s).2, hincreasing _, ?_⟩
  cases e with
  | replaceIndex index deviceId =>
      intro files s' hrun
      obtain ⟨hfresh, hdistinct⟩ := hnumbered _ files s' hrun
      refine neverTaken_of_fresh
        (fun file _ _ h => upsertFile_written (List.mem_singleton_self file) h) ?_ hdistinct
      intro f hf k r hr
      rw [Database.deleteFileInfo, AssocMap.get_retain, Option.filter_eq_some_iff] at hr
      exact hfresh f hf k r hr.1
  | insertFileInfo folder deviceId fileInfo =>
      intro files s' hrun
      obtain ⟨hfresh, hdistinct⟩ := hnumbered _ files s' hrun
      exact neverTaken_of_fresh
        (fun file _ _ h => upsertFile_written (List.mem_singleton_self file) h) hfresh hdistinct
  | replaceFileInfo folder deviceId fileInfo moveFile =>
      intro files s' hrun
      obtain ⟨hfresh, hdistinct⟩ := hnumbered _ files s' hrun
      exact neverTaken_of_fresh
        (fun file _ _ h => replaceFile_written (List.mem_singleton_self file) h)
        (fun f hf => hfresh f (List.mem_of_mem_filter hf)) (hdistinct.filter _)
  | mvFileInfo folder deviceId origFileInfo destFileName destFileLocations =>
      intro sequence s' hrun
      refine Database.sequenceFree_iff.mpr fun k r hr heq => ?_
      have hlt := hgiven 1 sequence (by simp [sequencesGiven, hrun]) k r hr
      rw [heq] at hlt
      exact absurd hlt Int64.lt_irrefl
  | rmFileInfo | restart => trivial

end Numbers

/-! ## Operations -/

section Operations

variable {s : BepState}

/-- An operation that numbers its files first, and then adds only rows with their numbers. -/
theorem sequencesBelow_numbered (hbelow : SequencesBelow s.db s.sequence) (files : List FileInfo)
    {body : List FileInfo → RustM BepState Unit}
    (hbody : ∀ numbered n,
      let s' := RustM.endState ((body numbered).run { s with sequence := n })
      s'.sequence = n ∧ ∀ k r, s'.db.bepFileInfo.get k = some r →
        s.db.bepFileInfo.get k = some r ∨ ∃ f ∈ numbered, r.sequence = f.sequence) :
    let s' := RustM.endState ((BepState.assignSequences files >>= body).run s)
    SequencesBelow s'.db s'.sequence := by
  intro s'
  rcases run_numbering files body with
    ⟨numbered, n, hnumbering, hrun⟩ | ⟨e, n, -, hrun, hbelow'⟩
  · obtain ⟨hsequence, hrows⟩ := hbody numbered n
    rw [← hrun] at hsequence hrows
    have hsequence : s'.sequence = n := hsequence
    rw [hsequence]
    exact hnumbering.below hbelow hrows
  · have hs' : s' = { s with sequence := n } := by
      show RustM.endState _ = _
      rw [hrun, RustM.endState_error]
    rw [hs']
    exact hbelow'

/-- Writing files and committing them, with whatever it does to the indices in memory. -/
theorem rows_of_writing {write : FileInfo → Database → Rust Database} {deviceId : DeviceId}
    {numbered kept : List FileInfo} {tx : Database} {n : Option Int64}
    (indices : BepState → GrizolIndices) (hkept : ∀ f ∈ kept, f ∈ numbered)
    (hwritten : ∀ tx', BepState.writeFiles write kept tx = .ok tx' →
      Written deviceId kept s.db tx') :
    let s' := RustM.endState ((do
      let tx ← BepState.writeFiles write kept tx
      modify fun s => { s with db := tx }
      modify fun s => { s with indices := indices s } : RustM BepState Unit).run
        { s with sequence := n })
    s'.sequence = n ∧ ∀ k r, s'.db.bepFileInfo.get k = some r →
      s.db.bepFileInfo.get k = some r ∨ ∃ f ∈ numbered, r.sequence = f.sequence := by
  intro s'
  cases hwrite : BepState.writeFiles write kept tx with
  | error e =>
      have hs' : s' = { s with sequence := n } := by
        show RustM.endState _ = _
        rw [hwrite]
        rfl
      rw [hs']
      exact ⟨rfl, fun k r hr => .inl hr⟩
  | ok tx' =>
      have hs' : s' = { s with
          sequence := n
          db := tx'
          indices := indices { s with
            sequence := n
            db := tx' } } := by
        show RustM.endState _ = _
        rw [hwrite]
        rfl
      rw [hs']
      refine ⟨rfl, ?_⟩
      intro k r hr
      exact ((hwritten tx' hwrite).rows k r hr).imp_right fun ⟨f, hf, heq⟩ => ⟨f, hkept f hf, heq⟩

variable {folder : String} {deviceId : DeviceId}

/-- Replacing an index keeps the numbers below the counter. -/
theorem replaceIndex_below (hbelow : SequencesBelow s.db s.sequence) (index : Index)
    (deviceId : DeviceId) :
    let s' := RustM.endState ((BepState.replaceIndex index deviceId).run s)
    SequencesBelow s'.db s'.sequence := by
  rw [BepState.replaceIndex, EStateM.run_bind, RustM.run_getThe]
  refine sequencesBelow_numbered hbelow index.files fun numbered n => ?_
  exact rows_of_writing _ (fun _ hf => hf) fun tx hwrite => (upsertFiles_written hwrite).of_deleted

/-- So does adding files. -/
theorem insertFileInfo_below (hbelow : SequencesBelow s.db s.sequence) (files : List FileInfo) :
    let s' := RustM.endState ((BepState.insertFileInfo folder deviceId files).run s)
    SequencesBelow s'.db s'.sequence := by
  rw [BepState.insertFileInfo, EStateM.run_bind, RustM.run_getThe]
  refine sequencesBelow_numbered hbelow files fun numbered n => ?_
  exact rows_of_writing _ (fun _ hf => hf) fun tx hwrite => upsertFiles_written hwrite

/-- And replacing files. -/
theorem replaceFileInfo_below (hbelow : SequencesBelow s.db s.sequence) (files : List FileInfo)
    (moveFile : Bool) :
    let s' := RustM.endState ((BepState.replaceFileInfo folder deviceId files moveFile).run s)
    SequencesBelow s'.db s'.sequence := by
  rw [BepState.replaceFileInfo, EStateM.run_bind, RustM.run_getThe]
  refine sequencesBelow_numbered hbelow files fun numbered n => ?_
  dsimp only
  by_cases hassert : moveFile = false ∨ (numbered.filter fun f => !f.deleted) = []
  · rw [Rust.assert_of hassert, EStateM.run_bind, RustM.run_lift_ok]
    dsimp only
    exact rows_of_writing _ (fun _ hf => List.mem_of_mem_filter hf)
      fun tx hwrite => replaceFiles_written hwrite
  · have hpanic : Rust.assert (moveFile = false ∨ (numbered.filter fun f => !f.deleted) = []) =
        .error .assertion := if_neg hassert
    rw [hpanic, EStateM.run_bind, RustM.run_lift_error]
    exact ⟨rfl, fun _ _ hr => .inl hr⟩

/-- A renamed row gets the number it is given, and no other row changes. -/
theorem renameFileInfo_rows {tx tx' : Database} {key : FileKey} {name : String}
    {sequence : Int64} (h : tx.renameFileInfo key name sequence = .ok tx') {k : FileKey}
    {r : FileRow} (hr : tx'.bepFileInfo.get k = some r) :
    tx.bepFileInfo.get k = some r ∨ r.sequence = sequence := by
  unfold Database.renameFileInfo at h
  dsimp only at h
  split at h
  · obtain rfl := Except.ok.inj h
    exact .inl hr
  · split_ifs at h
    split at h
    · obtain rfl := Except.ok.inj h
      dsimp only at hr
      rw [AssocMap.get_insert, AssocMap.get_erase] at hr
      split_ifs at hr
      · obtain rfl := Option.some.inj hr
        exact .inr rfl
      · exact .inl hr
    · cases h

/-- And moving one. -/
theorem mvFileInfo_below (hbelow : SequencesBelow s.db s.sequence) (origFileInfo : FileInfo)
    (destFileName : String) (destFileLocations : List FileLocation) :
    let s' := RustM.endState ((BepState.mvFileInfo folder deviceId origFileInfo destFileName
      destFileLocations).run s)
    SequencesBelow s'.db s'.sequence := by
  rw [BepState.mvFileInfo, EStateM.run_bind, nextSequenceId_counter]
  cases hnext : nextSequence s with
  | none => exact sequencesBelow_max s.db
  | some m =>
      have hbelow' := sequencesBelow_next hbelow hnext
      dsimp only
      rw [EStateM.run_bind, RustM.run_getThe]
      dsimp only
      rw [EStateM.run_bind]
      cases hrename : s.db.renameFileInfo ⟨folder, deviceId, origFileInfo.name⟩ destFileName m with
      | error e => exact hbelow'
      | ok tx =>
          rw [RustM.run_lift_ok]
          dsimp only
          rw [EStateM.run_bind]
          generalize hwrite : BepState.insertLocations _ _ _ = locations
          cases locations with
          | error e => exact hbelow'
          | ok tx' =>
              rintro n hn k r hr
              have hr : tx.bepFileInfo.get k = some r := by
                have hfiles := insertLocations_part Database.bepFileInfo (fun _ _ _ => rfl) hwrite
                rw [← hr]
                exact congrArg (fun rows => rows.get k) hfiles.symm
              rcases renameFileInfo_rows hrename hr with hold | hsequence
              · exact hbelow' n hn k r hold
              · obtain rfl := Option.some.inj hn
                rw [hsequence]

/-- No operation brings a row above the counter, whether it returns or panics. -/
theorem sequencesBelow_step {s' : BepState} {e : SequenceEvent}
    (hbelow : SequencesBelow s.db s.sequence) (hstep : sequenceStep s e = some s') :
    SequencesBelow s'.db s'.sequence := by
  cases e with
  | replaceIndex index deviceId =>
      obtain rfl := Option.some.inj hstep
      exact replaceIndex_below hbelow index deviceId
  | insertFileInfo folder deviceId fileInfo =>
      obtain rfl := Option.some.inj hstep
      exact insertFileInfo_below hbelow fileInfo
  | replaceFileInfo folder deviceId fileInfo moveFile =>
      obtain rfl := Option.some.inj hstep
      exact replaceFileInfo_below hbelow fileInfo moveFile
  | mvFileInfo folder deviceId origFileInfo destFileName destFileLocations =>
      obtain rfl := Option.some.inj hstep
      exact mvFileInfo_below hbelow origFileInfo destFileName destFileLocations
  | rmFileInfo folder deviceId fileName =>
      obtain rfl := Option.some.inj hstep
      intro n hn k r hr
      have hr : (s.db.deleteFileInfo fun k =>
          decide (k = ⟨folder, deviceId, fileName⟩)).bepFileInfo.get k = some r := hr
      rw [Database.deleteFileInfo, AssocMap.get_retain, Option.filter_eq_some_iff] at hr
      exact hbelow n hn k r hr.1
  | restart =>
      obtain rfl := Option.some.inj hstep
      intro n hn
      cases hn

end Operations

/-! ## Runs -/

/-- **Every file gets a new number.** After any run of the operations from any database, with
restarts in between, whatever operation comes next is given numbers above those of all rows, in
increasing order, and no statement of it finds one taken. -/
theorem freshSequences_of_run {db : Database} {es : List SequenceEvent} {s : BepState}
    (h : Transition.run sequenceStep (.new db) es = some s) (e : SequenceEvent) :
    FreshSequences s e := by
  refine freshSequences_of_below ?_ e
  refine Transition.invariant_run (fun s : BepState => SequencesBelow s.db s.sequence) ?_ ?_ h
  · intro n hn
    cases hn
  · intro s e s' hbelow hstep
    exact sequencesBelow_step hbelow hstep

/-- A file is written, the process starts anew, and an index follows. -/
theorem freshSequences_of_run_restart :
    ∃ s, Transition.run sequenceStep (.new (.ofIndex [("default", serverDevice)]))
        [.insertFileInfo "default" serverDevice [pairFile], .restart] = some s ∧
      FreshSequences s (.replaceIndex ⟨"default", [pairFile]⟩ serverDevice) := by
  obtain ⟨s, hrun⟩ : ∃ s, Transition.run sequenceStep (.new (.ofIndex [("default", serverDevice)]))
      [.insertFileInfo "default" serverDevice [pairFile], .restart] = some s := ⟨_, rfl⟩
  exact ⟨s, hrun, freshSequences_of_run hrun _⟩

end Grizol.Analysis
