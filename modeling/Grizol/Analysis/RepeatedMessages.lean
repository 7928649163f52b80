import Grizol.Analysis.NewerFiles

/-!
# Messages bring newer files only, and each brings its files once

A handler compares what it received with what is known, and writes what is new. Since that
is then in the entry, by itself or numbered, a handler that runs again finds no file that is
new but such as are flagged deleted, and of those it writes none.
-/

set_option autoImplicit false

namespace Grizol.Analysis

open Grizol.Library
open Grizol.Model Grizol.Model.Syncthing Grizol.Interface

section Sections

variable {s s' s'' : BepState} {folder : String} {localDeviceId clientDeviceId : DeviceId}
  {receivedIndex : Index} {entry : GrizolIndex} {unstoredBlocks : List BlockInfoExt}

/-! ## Newer files only -/

/-- Where the files of a device are known, they stay known and only newer ones replace them. -/
def Advances (deviceId : DeviceId) (s s' : BepState) : Prop :=
  Knows s deviceId → Knows s' deviceId ∧ OnlyNewer deviceId s s'

/-- What advances twice advances. -/
theorem advances_trans (h : Advances localDeviceId s s') (h' : Advances localDeviceId s' s'') :
    Advances localDeviceId s s'' := by
  intro hknows
  obtain ⟨hknows', hnewer⟩ := h hknows
  obtain ⟨hknows'', hnewer'⟩ := h' hknows'
  exact ⟨hknows'', onlyNewer_trans hnewer hnewer'⟩

/-- A call that leaves a device is an advance. -/
theorem advances_of_untouched {e : IndexEvent} (hstep : indexStep s e = some s')
    (h : Untouched localDeviceId s s') : Advances localDeviceId s s' := by
  intro hknows
  exact ⟨h.knows (namedEntries_step hknows.named hstep) hknows, h.onlyNewer⟩

/-- So is none. -/
theorem advances_refl (deviceId : DeviceId) (s : BepState) : Advances deviceId s s :=
  fun hknows => ⟨hknows, (Untouched.refl deviceId s).onlyNewer⟩

/-- And reading an index. -/
theorem advances_index (folder : String) (deviceId : DeviceId) (s : BepState) :
    Advances localDeviceId s (RustM.endState ((BepState.index folder deviceId).run s)) :=
  advances_of_untouched (e := .index folder deviceId) rfl
    (index_untouched folder deviceId localDeviceId s).1

/-- `index` returns, so what is to be done with the index is done. -/
theorem run_index_bind {β : Type} (m : String) (f : Index → RustM BepState β) :
    EStateM.run (do
      let index ← BepState.index folder clientDeviceId
      let index ← Rust.expect m index
      f index) s =
      EStateM.run (f (known s folder clientDeviceId))
        (RustM.endState ((BepState.index folder clientDeviceId).run s)) := by
  rw [EStateM.run_bind, index_run]
  rfl

/-- What is done with a difference, if there is one. -/
theorem advances_diff_bind {β : Type} {added existing : Index} {f : IndexDiff → RustM BepState β}
    (hf : ∀ diff, diffOrPanic folder added existing = .ok diff →
      Advances localDeviceId s (RustM.endState ((f diff).run s))) :
    Advances localDeviceId s (RustM.endState (EStateM.run (do
      let diff ← diffOrPanic folder added existing
      f diff) s)) := by
  refine RustM.endState_bind_rel (Advances localDeviceId) advances_trans ?_ fun diff s₁ hlift => ?_
  · rw [RustM.endState_lift]
    exact advances_refl localDeviceId s
  · obtain ⟨hdiff, rfl⟩ := RustM.run_lift_eq_ok.mp hlift
    exact hf diff hdiff

/-- Files that are new to the entry of their device, if that is this one. -/
theorem advances_rmReplaceFileInfo {fileInfo : List FileInfo} {deviceId : DeviceId}
    (hentry : s.indices.indices.get ⟨folder, deviceId⟩ = some entry)
    (hfresh : deviceId = localDeviceId → Knows s localDeviceId →
      ∀ f ∈ fileInfo, Fresh entry.files f) :
    Advances localDeviceId s
      (RustM.endState ((BepState.rmReplaceFileInfo folder deviceId fileInfo).run s)) := by
  by_cases hlocal : deviceId = localDeviceId
  · subst hlocal
    intro hknows
    exact rmReplaceFileInfo_onlyNewer hknows hentry (hfresh rfl hknows)
  · exact advances_of_untouched (e := .rmReplaceFileInfo folder deviceId fileInfo) rfl
      (rmReplaceFileInfo_untouched hlocal)

/-- The section of `handle_index` that writes. -/
theorem replaceIndices_advances (hother : clientDeviceId ≠ localDeviceId)
    (hnodup : (receivedIndex.files.map FileInfo.name).Nodup) :
    Advances localDeviceId s (RustM.endState
      ((BepProcessor.replaceIndices localDeviceId receivedIndex clientDeviceId).run s)) := by
  unfold BepProcessor.replaceIndices
  refine RustM.endState_bind_rel (Advances localDeviceId) advances_trans ?_ fun _ s₁ _ => ?_
  · exact advances_of_untouched (e := .replaceIndex receivedIndex clientDeviceId) rfl
      (replaceIndex_untouched hother).1
  rw [run_index_bind]
  refine advances_trans (advances_index receivedIndex.folder localDeviceId s₁) ?_
  obtain ⟨-, hentry⟩ := index_untouched receivedIndex.folder localDeviceId localDeviceId s₁
  refine advances_diff_bind fun diff hdiff => ?_
  refine RustM.endState_bind_rel (Advances localDeviceId) advances_trans ?_ fun _ s₂ _ => ?_
  · intro hknows
    obtain ⟨hsublist, hfresh⟩ := diffOrPanic_spec (hknows.named _ _ hentry) hdiff
    have hnodup' : (diff.newlyAddedFiles.map FileInfo.name).Nodup :=
      (hsublist.map FileInfo.name).nodup hnodup
    exact insertFileInfo_onlyNewer hknows hentry hnodup' fun f hf => ((hfresh f).mp hf).2
  · exact advances_refl localDeviceId s₂

/-- The section of `handle_index_update` that writes. -/
theorem updateIndices_advances :
    Advances localDeviceId s (RustM.endState
      ((BepProcessor.updateIndices localDeviceId receivedIndex clientDeviceId).run s)) := by
  unfold BepProcessor.updateIndices
  rw [run_index_bind]
  refine advances_trans (advances_index receivedIndex.folder clientDeviceId s) ?_
  obtain ⟨-, hpeer⟩ := index_untouched receivedIndex.folder clientDeviceId localDeviceId s
  refine advances_diff_bind fun diff hdiff => ?_
  refine RustM.endState_bind_rel (Advances localDeviceId) advances_trans ?_ fun _ s₁ _ => ?_
  · apply advances_rmReplaceFileInfo hpeer
    intro _ hknows f hf
    exact (((diffOrPanic_spec (hknows.named _ _ hpeer) hdiff).2 f).mp hf).2
  -- what is known of the peer now is compared with what is known of this device
  rw [run_index_bind]
  refine advances_trans (advances_index receivedIndex.folder localDeviceId s₁) ?_
  rw [run_index_bind]
  refine advances_trans (advances_index receivedIndex.folder clientDeviceId _) ?_
  have hlocal := get_index_of_some receivedIndex.folder clientDeviceId
    (index_untouched receivedIndex.folder localDeviceId localDeviceId s₁).2
  refine advances_diff_bind fun diff' hdiff' => ?_
  refine RustM.endState_bind_rel (Advances localDeviceId) advances_trans ?_ fun _ s₂ _ => ?_
  · apply advances_rmReplaceFileInfo hlocal
    intro _ hknows f hf
    exact (((diffOrPanic_spec (hknows.named _ _ hlocal) hdiff').2 f).mp hf).2
  · exact advances_refl localDeviceId s₂

/-! ## Files that are new no more -/

/-- Of the files nothing is new to the entry of a device, but such as are left out. -/
def Settled (s : BepState) (folder : String) (deviceId : DeviceId) (keep : FileInfo → Bool)
    (files : List FileInfo) : Prop :=
  ∃ entry, s.indices.indices.get ⟨folder, deviceId⟩ = some entry ∧
    ∀ f ∈ files, Fresh entry.files f → keep f = false

/-- Files that were compared and inserted settle. -/
theorem settled_of_inserted {added newly files : List FileInfo} {keep : FileInfo → Bool}
    {deviceId : DeviceId} (hkeep : ∀ f n, keep { f with sequence := n } = keep f)
    (hnodup : (added.map FileInfo.name).Nodup)
    (hnewly : ∀ f, f ∈ newly ↔ f ∈ added ∧ Fresh entry.files f)
    (hnumbered : List.Forall₂ Numbered newly files)
    (hget : s'.indices.indices.get ⟨folder, deviceId⟩ = some { entry with
      files := GrizolIndex.insertAll entry.files (files.filter keep) }) :
    Settled s' folder deviceId keep added :=
  ⟨_, hget, fun _ hf hfresh => not_fresh_of_inserted hkeep hnodup hnewly hnumbered hf hfresh⟩

/-- The files of an `Index` that was handled are new no more. -/
theorem replaceIndices_settled (hnamed : NamedEntries s)
    (hnodup : (receivedIndex.files.map FileInfo.name).Nodup)
    (h : (BepProcessor.replaceIndices localDeviceId receivedIndex clientDeviceId).run s =
      .ok unstoredBlocks s') :
    Settled s' receivedIndex.folder localDeviceId (fun _ => true) receivedIndex.files := by
  unfold BepProcessor.replaceIndices at h
  obtain ⟨⟨⟩, s₁, hreplace, h⟩ := RustM.run_bind_eq_ok.mp h
  have hnamed₁ : NamedEntries s₁ := by
    refine namedEntries_step (e := .replaceIndex receivedIndex clientDeviceId) hnamed ?_
    rw [indexStep, hreplace, RustM.endState_ok]
  rw [run_index_bind] at h
  obtain ⟨-, hentry⟩ := index_untouched receivedIndex.folder localDeviceId localDeviceId s₁
  obtain ⟨diff, s₂, hlift, h⟩ := RustM.run_bind_eq_ok.mp h
  obtain ⟨hdiff, rfl⟩ := RustM.run_lift_eq_ok.mp hlift
  obtain ⟨-, hfresh⟩ := diffOrPanic_spec (named_entryFor hnamed₁ _ _) hdiff
  obtain ⟨⟨⟩, s₃, hinsert, hend⟩ := RustM.run_bind_eq_ok.mp h
  obtain rfl : s₃ = s' := (EStateM.Result.ok.inj hend).2
  obtain ⟨files, hnumbered, hget⟩ := entry_of_insertFileInfo hentry hinsert
  refine settled_of_inserted (fun _ _ => rfl) hnodup hfresh hnumbered ?_
  rw [hget, List.filter_true]

/-- What `rm_replace_file_info` of a difference leaves. -/
theorem rmReplaceFileInfo_settled {added : List FileInfo} {diff : IndexDiff}
    {deviceId : DeviceId} (hnodup : (added.map FileInfo.name).Nodup)
    (hnewly : ∀ f, f ∈ diff.newlyAddedFiles ↔ f ∈ added ∧ Fresh entry.files f)
    (hentry : s.indices.indices.get ⟨folder, deviceId⟩ = some entry)
    (h : (BepState.rmReplaceFileInfo folder deviceId diff.newlyAddedFiles).run s = .ok () s') :
    Settled s' folder deviceId (fun f => !f.deleted) added := by
  obtain ⟨files, hnumbered, hget, -⟩ := rmReplaceFileInfo_eq_ok hentry h
  exact settled_of_inserted (fun _ _ => rfl) hnodup hnewly hnumbered hget

/-- The files of an `IndexUpdate` that was handled are new no more to what is known of the
peer, which is new no more to what is known of this device; but what is flagged deleted. -/
theorem updateIndices_settled (hnamed : NamedEntries s)
    (hnodup : (receivedIndex.files.map FileInfo.name).Nodup)
    (h : (BepProcessor.updateIndices localDeviceId receivedIndex clientDeviceId).run s =
      .ok unstoredBlocks s') :
    Settled s' receivedIndex.folder clientDeviceId (fun f => !f.deleted) receivedIndex.files ∧
      Settled s' receivedIndex.folder localDeviceId (fun f => !f.deleted)
        (known s' receivedIndex.folder clientDeviceId).files := by
  unfold BepProcessor.updateIndices at h
  rw [run_index_bind] at h
  obtain ⟨-, hpeer⟩ := index_untouched receivedIndex.folder clientDeviceId localDeviceId s
  obtain ⟨diff, s₁, hlift, h⟩ := RustM.run_bind_eq_ok.mp h
  obtain ⟨hdiff, rfl⟩ := RustM.run_lift_eq_ok.mp hlift
  obtain ⟨-, hfresh⟩ := diffOrPanic_spec (named_entryFor hnamed _ _) hdiff
  have hnamed₁ : NamedEntries (RustM.endState
      ((BepState.index receivedIndex.folder clientDeviceId).run s)) :=
    namedEntries_step (e := .index receivedIndex.folder clientDeviceId) hnamed rfl
  obtain ⟨⟨⟩, s₂, hreplace, h⟩ := RustM.run_bind_eq_ok.mp h
  have hsettled := rmReplaceFileInfo_settled hnodup hfresh hpeer hreplace
  have hnamed₂ : NamedEntries s₂ := by
    refine namedEntries_step hnamed₁ (e := .rmReplaceFileInfo receivedIndex.folder clientDeviceId
      diff.newlyAddedFiles) ?_
    rw [indexStep, hreplace, RustM.endState_ok]
  obtain ⟨peerEntry, hpeer₂, hold⟩ := hsettled
  have hnames := hnamed₂ _ _ hpeer₂
  rw [run_index_bind] at h
  have hpeer₃ := get_index_of_some receivedIndex.folder localDeviceId hpeer₂
  obtain ⟨-, hlocal₃⟩ := index_untouched receivedIndex.folder localDeviceId localDeviceId s₂
  rw [run_index_bind, known_of_entry hpeer₃] at h
  have hpeer₄ := get_index_of_some receivedIndex.folder clientDeviceId hpeer₃
  have hlocal₄ := get_index_of_some receivedIndex.folder clientDeviceId hlocal₃
  obtain ⟨diff', s₃, hlift', h⟩ := RustM.run_bind_eq_ok.mp h
  obtain ⟨hdiff', rfl⟩ := RustM.run_lift_eq_ok.mp hlift'
  obtain ⟨-, hfresh'⟩ := diffOrPanic_spec (named_entryFor hnamed₂ _ _) hdiff'
  obtain ⟨⟨⟩, s₃, hreplace', hend⟩ := RustM.run_bind_eq_ok.mp h
  obtain rfl : s₃ = s' := (EStateM.Result.ok.inj hend).2
  have hsettled' := rmReplaceFileInfo_settled (nodup_names hnames) hfresh' hlocal₄ hreplace'
  -- the entry of the peer stays, also where the peer is this device
  have hkept : s₃.indices.indices.get ⟨receivedIndex.folder, clientDeviceId⟩ = some peerEntry := by
    obtain ⟨files, hnumbered, hget, hothers⟩ := rmReplaceFileInfo_eq_ok hlocal₄ hreplace'
    by_cases hsame : clientDeviceId = localDeviceId
    · subst hsame
      have hnone : diff'.newlyAddedFiles = [] := by
        rw [List.eq_nil_iff_forall_not_mem]
        intro f hf
        obtain ⟨hmem, hnew⟩ := (hfresh' f).mp hf
        rw [entryFor_of_some hpeer₂] at hnew
        exact not_fresh_of_mem hnames hmem hnew
      rw [hnone] at hnumbered
      obtain rfl := List.forall₂_nil_left_iff.mp hnumbered
      rw [hget, entryFor_of_some hpeer₂]
      rfl
    · rw [hothers, hpeer₄]
      intro heq
      exact hsame (FolderDevice.mk.inj heq).2
  refine ⟨⟨peerEntry, hkept, hold⟩, ?_⟩
  rw [known_of_entry hkept]
  exact hsettled'

/-! ## Handling a message again -/

/-- An `Index` that is handled again finds nothing new. -/
theorem replaceIndices_again (hother : clientDeviceId ≠ localDeviceId) (hnamed : NamedEntries s)
    (hsettled : Settled s receivedIndex.folder localDeviceId (fun _ => true)
      receivedIndex.files) :
    SameRowsOf localDeviceId s.db (RustM.endState
      ((BepProcessor.replaceIndices localDeviceId receivedIndex clientDeviceId).run s)).db := by
  unfold BepProcessor.replaceIndices
  obtain ⟨huntouched, hrows⟩ := @replaceIndex_untouched s localDeviceId clientDeviceId receivedIndex hother
  refine RustM.endState_bind_rel (fun s s' : BepState => SameRowsOf localDeviceId s.db s'.db)
    SameRowsOf.trans hrows fun _ s₁ hreplace => ?_
  obtain ⟨entry, hentry, hnew⟩ := hsettled
  have hentry₁ : s₁.indices.indices.get ⟨receivedIndex.folder, localDeviceId⟩ = some entry := by
    rw [hreplace, RustM.endState_ok] at huntouched
    rcases huntouched.entries receivedIndex.folder with hsame | ⟨hnone, -⟩
    · rw [hsame, hentry]
    · rw [hnone] at hentry
      cases hentry
  have hnamed₁ : NamedEntries s₁ := by
    refine namedEntries_step (e := .replaceIndex receivedIndex clientDeviceId) hnamed ?_
    rw [indexStep, hreplace, RustM.endState_ok]
  rw [run_index_bind, ← index_db receivedIndex.folder localDeviceId s₁]
  refine RustM.endState_bind_rel (fun s s' : BepState => SameRowsOf localDeviceId s.db s'.db)
    SameRowsOf.trans ?_ fun diff s₂ hlift => ?_
  · rw [RustM.endState_lift]
    exact SameRowsOf.refl localDeviceId _
  obtain ⟨hdiff, rfl⟩ := RustM.run_lift_eq_ok.mp hlift
  obtain ⟨-, hfresh⟩ := diffOrPanic_spec (named_entryFor hnamed₁ _ _) hdiff
  have hnone : diff.newlyAddedFiles = [] := by
    rw [List.eq_nil_iff_forall_not_mem]
    intro f hf
    obtain ⟨hmem, hfresh⟩ := (hfresh f).mp hf
    rw [entryFor_of_some hentry₁] at hfresh
    exact absurd (hnew f hmem hfresh) (by simp)
  refine RustM.endState_bind_rel (fun s s' : BepState => SameRowsOf localDeviceId s.db s'.db)
    SameRowsOf.trans ?_ fun _ s₃ _ => ?_
  · rw [hnone, insertFileInfo_nil_db]
    exact SameRowsOf.refl localDeviceId _
  · exact SameRowsOf.refl localDeviceId s₃.db

/-- An index that is cached is not read. -/
theorem endState_index_of_some (hentry : s.indices.indices.get ⟨folder, clientDeviceId⟩ =
      some entry) :
    RustM.endState ((BepState.index folder clientDeviceId).run s) = s := by
  rw [index_run, RustM.endState_ok, if_pos (AssocMap.contains_iff.mpr ⟨entry, hentry⟩)]

/-- A difference of what is new no more is not written. -/
theorem rmReplaceFileInfo_again {added : Index} {deviceId : DeviceId} {β : Type}
    {next : RustM BepState β} (hnamed : NamedEntries s)
    (hsettled : Settled s folder deviceId (fun f => !f.deleted) added.files)
    (hnext : ∀ s₁, SameFilesAs s s₁ → SameFilesAs s₁ (RustM.endState (next.run s₁))) :
    SameFilesAs s (RustM.endState (EStateM.run (do
      let diff ← diffOrPanic folder added (known s folder deviceId)
      BepState.rmReplaceFileInfo folder deviceId diff.newlyAddedFiles
      next) s)) := by
  obtain ⟨entry, hentry, hnew⟩ := hsettled
  refine RustM.endState_bind_rel SameFilesAs sameFilesAs_trans ?_ fun diff s₁ hlift => ?_
  · rw [RustM.endState_lift]
    exact ⟨rfl, fun _ => rfl⟩
  obtain ⟨hdiff, rfl⟩ := RustM.run_lift_eq_ok.mp hlift
  obtain ⟨-, hfresh⟩ := diffOrPanic_spec (named_entryFor hnamed _ _) hdiff
  have hdeleted : ∀ f ∈ diff.newlyAddedFiles, f.deleted = true := by
    intro f hf
    obtain ⟨hmem, hfresh⟩ := (hfresh f).mp hf
    rw [entryFor_of_some hentry] at hfresh
    simpa using hnew f hmem hfresh
  have hsame := rmReplaceFileInfo_of_deleted hentry hdeleted
  refine RustM.endState_bind_rel SameFilesAs sameFilesAs_trans hsame fun _ s₂ hreplace => ?_
  rw [hreplace, RustM.endState_ok] at hsame
  exact hnext s₂ hsame

/-- An `IndexUpdate` that is handled again writes nothing. -/
theorem updateIndices_again (hnamed : NamedEntries s)
    (hpeer : Settled s receivedIndex.folder clientDeviceId (fun f => !f.deleted)
      receivedIndex.files)
    (hlocal : Settled s receivedIndex.folder localDeviceId (fun f => !f.deleted)
      (known s receivedIndex.folder clientDeviceId).files) :
    SameFilesAs s (RustM.endState
      ((BepProcessor.updateIndices localDeviceId receivedIndex clientDeviceId).run s)) := by
  obtain ⟨peerEntry, hpeerEntry, -⟩ := id hpeer
  obtain ⟨localEntry, hlocalEntry, -⟩ := id hlocal
  unfold BepProcessor.updateIndices
  rw [run_index_bind, endState_index_of_some hpeerEntry]
  refine rmReplaceFileInfo_again hnamed hpeer fun s₁ hsame => ?_
  -- the entries are still there, so the second difference is that of before
  have hpeerEntry₁ := (hsame.2 _).trans hpeerEntry
  have hlocalEntry₁ := (hsame.2 _).trans hlocalEntry
  rw [run_index_bind, endState_index_of_some hlocalEntry₁, run_index_bind,
    endState_index_of_some hpeerEntry₁]
  have hnamed₁ : NamedEntries s₁ := by
    intro key entry hget
    rw [hsame.2] at hget
    exact hnamed key entry hget
  have hlocal₁ : Settled s₁ receivedIndex.folder localDeviceId (fun f => !f.deleted)
      (known s₁ receivedIndex.folder clientDeviceId).files := by
    obtain ⟨entry, hentry, hnew⟩ := hlocal
    refine ⟨entry, (hsame.2 _).trans hentry, ?_⟩
    rw [known_of_entry hpeerEntry₁, ← known_of_entry hpeerEntry]
    exact hnew
  exact rmReplaceFileInfo_again hnamed₁ hlocal₁ fun s₂ _ => ⟨rfl, fun _ => rfl⟩

end Sections

/-! ## Handlers -/

section Handlers

variable {p p' p'' : BepProcessor} {m : Received} {s s' s₁ : BepState} {deviceId : DeviceId}
  {unstoredBlocks : List BlockInfoExt}

/-- The section of the handler of a message that writes. -/
def writeOf (m : Received) (localDeviceId : DeviceId) : RustM BepState (List BlockInfoExt) :=
  match m.message with
  | .index received => BepProcessor.replaceIndices localDeviceId received m.peer
  | .indexUpdate received =>
      BepProcessor.updateIndices localDeviceId
        { folder := received.folder, files := received.files } m.peer

/-- The handler of a message writes first, and queues afterwards. -/
theorem handle_run (m : Received) (p : BepProcessor) :
    m.handle.run p = (queueAfter (writeOf m p.config.localDeviceId) m.clock).run p := by
  obtain ⟨received | received, peer, clock⟩ := m
  · exact handleIndex_run received peer clock p
  · exact handleIndexUpdate_run received peer clock p

/-- What a message leaves of the files is what its section that writes leaves of them. -/
theorem receive_state (h : Received.receive p m = some p') :
    p'.config = p.config ∧
      p'.state.db = (RustM.endState ((writeOf m p.config.localDeviceId).run p.state)).db ∧
      p'.state.indices =
        (RustM.endState ((writeOf m p.config.localDeviceId).run p.state)).indices := by
  have hend := Option.some.inj h
  rw [handle_run] at hend
  rw [← hend]
  refine ⟨queueAfter_config _ _ p, queueAfter_db _ _ p, ?_⟩
  exact @queueAfter_part _ BepState.indices (fun _ _ _ => rfl) _ _ p

/-- A handler that returned had a section that returned. -/
theorem writeOf_eq_ok {events : List (Except BepProcessorError GrizolEvent)}
    (h : m.handle.run p = .ok events p') :
    ∃ unstoredBlocks s₁,
      (writeOf m p.config.localDeviceId).run p.state = .ok unstoredBlocks s₁ := by
  rw [handle_run] at h
  cases hrun : (writeOf m p.config.localDeviceId).run p.state with
  | ok unstoredBlocks s₁ => exact ⟨unstoredBlocks, s₁, rfl⟩
  | error e s₁ =>
      obtain ⟨a, p₁, hwrite, -⟩ := RustM.run_bind_eq_ok.mp h
      rw [BepProcessor.onState_eq_error hrun] at hwrite
      cases hwrite

/-- What is known depends on the database and the cache. -/
theorem knows_congr (hdb : s'.db = s.db) (hindices : s'.indices = s.indices) :
    Knows s' deviceId ↔ Knows s deviceId := by
  have hentry : entryFor s' = entryFor s := by
    funext folder deviceId
    rw [entryFor, entryFor, hdb, hindices]
  constructor
  · rintro ⟨hnamed, hfiles⟩
    rw [NamedEntries, hindices] at hnamed
    rw [hdb, hentry] at hfiles
    exact ⟨hnamed, hfiles⟩
  · rintro ⟨hnamed, hfiles⟩
    refine ⟨?_, ?_⟩
    · rw [NamedEntries, hindices]
      exact hnamed
    · rw [hdb, hentry]
      exact hfiles

/-- So does what became newer. -/
theorem onlyNewer_congr (hdb : s'.db = s₁.db) (hindices : s'.indices = s₁.indices)
    (h : OnlyNewer deviceId s s₁) : OnlyNewer deviceId s s' := by
  have hentry : entryFor s' = entryFor s₁ := by
    funext folder deviceId
    rw [entryFor, entryFor, hdb, hindices]
  constructor
  · rw [hdb]
    exact h.stored
  · rw [hentry]
    exact h.known

/-- The first section of a handler advances. -/
theorem writeOf_advances (hnodup : (m.files.map FileInfo.name).Nodup)
    (hother : m.FromOther deviceId) :
    Advances deviceId s (RustM.endState ((writeOf m deviceId).run s)) := by
  obtain ⟨received | received, peer, clock⟩ := m
  · exact replaceIndices_advances (hother received rfl) hnodup
  · exact updateIndices_advances

/-- The section of a handler that returned changes no row when it runs again. -/
theorem writeOf_again (hnodup : (m.files.map FileInfo.name).Nodup)
    (hother : m.FromOther deviceId) (hnamed : NamedEntries s)
    (hrun : (writeOf m deviceId).run s = .ok unstoredBlocks s₁) (hnamed₁ : NamedEntries s')
    (hindices : s'.indices = s₁.indices) :
    SameRowsOf deviceId s'.db (RustM.endState ((writeOf m deviceId).run s')).db := by
  obtain ⟨received | received, peer, clock⟩ := m
  · have hsettled := replaceIndices_settled hnamed hnodup hrun
    rw [Settled, ← hindices] at hsettled
    exact replaceIndices_again (hother received rfl) hnamed₁ hsettled
  · obtain ⟨⟨entry, hentry, hnew⟩, hlocal⟩ := updateIndices_settled hnamed hnodup hrun
    rw [known_of_entry hentry, Settled, ← hindices] at hlocal
    rw [← hindices] at hentry
    rw [← known_of_entry hentry] at hlocal
    obtain ⟨hdb, -⟩ := updateIndices_again hnamed₁ ⟨entry, hentry, hnew⟩ hlocal
    have hdb' : (RustM.endState ((writeOf ⟨.indexUpdate received, peer, clock⟩ deviceId).run
        s')).db = s'.db := hdb
    rw [hdb']
    exact SameRowsOf.refl deviceId s'.db

/-- A message with different names, where the files of this device are known. -/
theorem monotone_step (hnodup : (m.files.map FileInfo.name).Nodup)
    (hother : m.FromOther p.config.localDeviceId)
    (hknows : Knows p.state p.config.localDeviceId) (h : Received.receive p m = some p') :
    Knows p'.state p'.config.localDeviceId ∧ Monotone p m p' := by
  obtain ⟨hconfig, hdb, hindices⟩ := receive_state h
  obtain ⟨hknows', hnewer⟩ := writeOf_advances hnodup hother hknows
  rw [← knows_congr hdb hindices, ← hconfig] at hknows'
  refine ⟨hknows', onlyNewer_congr hdb hindices hnewer, ?_⟩
  intro events hok clock p'' hagain
  obtain ⟨unstoredBlocks, s₁, hrun⟩ := writeOf_eq_ok hok
  obtain ⟨-, hdb', -⟩ := receive_state hagain
  rw [hrun, RustM.endState_ok] at hindices
  rw [hdb', hconfig]
  exact writeOf_again (m := { m with clock := clock }) hnodup hother hknows.named hrun
    hknows'.named hindices

/-- **Messages bring newer files only, and each brings its files once.** In a run of messages
from any devices, their names different, from a state in which the files of this device are
known: each `Index` is from another device. -/
theorem onlyNewer_of_run {messages : List Received}
    (hnodup : ∀ m ∈ messages, (m.files.map FileInfo.name).Nodup)
    (hother : ∀ m ∈ messages, m.FromOther p.config.localDeviceId)
    (hknows : Knows p.state p.config.localDeviceId) :
    Transition.Along Received.receive Monotone p messages := by
  have hmeets : Transition.Meets Received.receive (fun _ (m : Received) =>
      (m.files.map FileInfo.name).Nodup ∧ m.FromOther p.config.localDeviceId) p messages :=
    Transition.meets_of_forall_mem (fun m hm => ⟨hnodup m hm, hother m hm⟩) p
  refine Transition.along_of_invariant (fun p' => p'.config.localDeviceId =
    p.config.localDeviceId ∧ Knows p'.state p'.config.localDeviceId) ?_ ⟨rfl, hknows⟩ hmeets
  intro p₁ m p₂ ⟨hdevice, hknows₁⟩ ⟨hnodup, hother⟩ hstep
  rw [← hdevice] at hother ⊢
  obtain ⟨hknows₂, hmonotone⟩ := monotone_step hnodup hother hknows₁ hstep
  obtain ⟨hconfig, -, -⟩ := receive_state hstep
  exact ⟨⟨by rw [hconfig], hknows₂⟩, hmonotone⟩

/-- Entries that follow the tables know the files that are stored. -/
theorem knows_of_cacheInvariant (h : CacheInvariant s) : Knows s deviceId := by
  have htop : ∀ {file old : FileInfo}, SameFile file old → topValue file = topValue old :=
    fun hsame => topValue_congr fun c => hsame.counters.mem_iff
  constructor
  · intro key entry hentry name file hfile
    obtain ⟨-, hmirrors⟩ := h key entry hentry
    have hrel := hmirrors name
    rw [hfile] at hrel
    cases hstored : stored s.db ⟨key.folder, key.deviceId, name⟩ with
    | none =>
        rw [hstored] at hrel
        cases hrel
    | some old =>
        rw [hstored] at hrel
        cases hrel with
        | some hsame =>
            obtain ⟨row, -, rfl⟩ := Option.map_eq_some_iff.mp hstored
            exact congrArg FileInfo.name hsame.fields
  · intro folder name old hold
    cases hentry : s.indices.indices.get ⟨folder, deviceId⟩ with
    | none => exact ⟨old, by rw [get_entryFor_of_none hentry, hold], rfl⟩
    | some entry =>
        obtain ⟨-, hmirrors⟩ := h _ entry hentry
        have hrel := hmirrors name
        rw [hold] at hrel
        rw [entryFor_of_some hentry]
        cases hfile : entry.files.get name with
        | none =>
            rw [hfile] at hrel
            cases hrel
        | some file =>
            rw [hfile] at hrel
            cases hrel with
            | some hsame => exact ⟨file, rfl, htop hsame⟩

end Handlers

/-! ## A file that was renamed -/

section Example

/-- A peer sends a file, and then a change to it. -/
theorem onlyNewer_of_run_shared :
    Transition.Along Received.receive Monotone sharingNode
      [⟨.index ⟨"default", [sharedFile 1 false]⟩, peerDevice, fun _ => 0⟩,
       ⟨.indexUpdate ⟨"default", [sharedFile 2 false]⟩, peerDevice, fun _ => 0⟩] := by
  apply onlyNewer_of_run
  · intro m hm
    rcases List.mem_pair.mp hm with rfl | rfl <;> decide
  · intro m hm received hreceived
    rcases List.mem_pair.mp hm with rfl | rfl <;> decide
  · exact knows_of_cacheInvariant (cacheInvariant_new _)

/-- The counters of a file of this device after a number of events. -/
def countersAfter (name : String) (events : List NodeEvent) : Option (Option (List Counter)) :=
  (Transition.run (nodeStep (fun _ _ _ => 0) id fun _ => "") sharingNode events).map fun p =>
    (stored p.state.db ⟨"default", thisDevice, name⟩).map countersOf

/-- The file of a peer, under another name. -/
def renamedEvents : List NodeEvent :=
  [.index ⟨"default", [sharedFile 5 false]⟩ peerDevice fun _ => 0,
   .call (.mvFileInfo "default" thisDevice (sharedFile 5 false) "b" [])]

/-- An older file of that name is written over the newer one, which is not in memory. -/
theorem renamedFile_not_onlyNewer :
    ∃ p, Transition.run (nodeStep (fun _ _ _ => 0) id fun _ => "") sharingNode renamedEvents =
        some p ∧
      ¬ Transition.Along Received.receive Monotone p
        [⟨.index ⟨"default", [{ sharedFile 1 false with name := "b" }]⟩, peerDevice,
          fun _ => 0⟩] := by
  have hbefore : countersAfter "b" renamedEvents = some (some [⟨1, 5⟩]) := by decide +kernel
  have hafter : countersAfter "b" (renamedEvents ++
      [.index ⟨"default", [{ sharedFile 1 false with name := "b" }]⟩ peerDevice fun _ => 0]) =
      some (some [⟨1, 1⟩, ⟨1, 5⟩]) := by
    decide +kernel
  obtain ⟨p, hrun⟩ : ∃ p, Transition.run (nodeStep (fun _ _ _ => 0) id fun _ => "") sharingNode
      renamedEvents = some p := Option.isSome_iff_exists.mp (by decide +kernel)
  have hdevice : (Transition.run (nodeStep (fun _ _ _ => 0) id fun _ => "") sharingNode
      renamedEvents).map (fun p => p.config.localDeviceId) = some thisDevice := by
    decide +kernel
  refine ⟨p, hrun, ?_⟩
  intro h
  obtain ⟨p', hreceive⟩ : ∃ p', Received.receive p
      ⟨.index ⟨"default", [{ sharedFile 1 false with name := "b" }]⟩, peerDevice, fun _ => 0⟩ =
      some p' := ⟨_, rfl⟩
  have hrun' : Transition.run (nodeStep (fun _ _ _ => 0) id fun _ => "") sharingNode
      (renamedEvents ++
        [.index ⟨"default", [{ sharedFile 1 false with name := "b" }]⟩ peerDevice fun _ => 0]) =
      some p' := Transition.run_concat.mpr ⟨p, hrun, hreceive⟩
  rw [hrun, Option.map_some, Option.some.injEq] at hdevice
  rw [countersAfter, hrun, Option.map_some, Option.some.injEq] at hbefore
  rw [countersAfter, hrun', Option.map_some, Option.some.injEq] at hafter
  obtain ⟨old, hold, hcounters⟩ := Option.map_eq_some_iff.mp hbefore
  obtain ⟨⟨hnewer, -⟩, -⟩ := h p' hreceive
  obtain ⟨hstored, -⟩ := hnewer
  obtain ⟨new, hnew, hchange⟩ := hstored ⟨"default", thisDevice, "b"⟩ old hdevice.symm hold
  rw [hnew, Option.map_some, Option.some.injEq] at hafter
  rcases hchange with rfl | hchange
  · rw [hcounters] at hafter
    cases hafter
  · refine not_newer_of_topValue ?_ hchange
    rw [topValue, topValue, hcounters, hafter]
    decide

end Example

end Grizol.Analysis
