import Grizol.Analysis.SentRequests
import Grizol.Interface.OfferedBlocks

/-!
# Nothing is asked for that nobody offered

What holds of every block of the messages that came, and of the database, is kept by all
that moves blocks (`Knows`): the writers of rows, the indices in memory that are loaded
from them, the differences of two indices, and the queue. The step that takes a message
only adds what the message brings.
-/

set_option autoImplicit false

namespace Grizol.Analysis

open Grizol.Library Grizol.Model Grizol.Interface
open Grizol.Model.Syncthing

variable {codec : Codec} {hash : String → ℕ → ℕ → UInt64} {sha256 : Bytes → Bytes}
  {debugRequest : Request → String} {config : ConnectionConfig}

/-! ## Rows -/

section Rows

variable {O : BlockAt → Prop} {db db' : Database}

/-- The rows are of known blocks. -/
def RowsKnown (O : BlockAt → Prop) (db : Database) : Prop :=
  ∀ key, db.bepBlockInfo.contains key = true → O (.ofRow key)

/-- The blocks of the file are known. -/
def FileKnown (O : BlockAt → Prop) (folder : String) (file : FileInfo) : Prop :=
  ∀ block ∈ file.blocks, O (.ofFile folder file block)

/-- The same rows are known. -/
theorem RowsKnown.of_same (h : RowsKnown O db) (hsame : db'.bepBlockInfo = db.bepBlockInfo) :
    RowsKnown O db' := by
  intro key hkey
  rw [hsame] at hkey
  exact h key hkey

/-- The row of a file is not one of a block. -/
theorem rowsKnown_insertFileInfo (h : RowsKnown O db) {key : FileKey} {row : FileRow}
    (hinsert : db.insertFileInfo key row = .ok db') : RowsKnown O db' := by
  unfold Database.insertFileInfo at hinsert
  split_ifs at hinsert
  obtain rfl := Except.ok.inj hinsert
  exact h.of_same rfl

/-- A deletion leaves fewer rows. -/
theorem rowsKnown_deleteFileInfo (h : RowsKnown O db) (p : FileKey → Bool) :
    RowsKnown O (db.deleteFileInfo p) := by
  intro key hkey
  obtain ⟨row, hrow⟩ := AssocMap.contains_iff.mp hkey
  dsimp only [Database.deleteFileInfo] at hrow
  rw [AssocMap.get_retain, Option.filter_eq_some_iff] at hrow
  exact h key (AssocMap.contains_iff.mpr ⟨row, hrow.1⟩)

/-- A known block may be written. -/
theorem rowsKnown_insertBlock (h : RowsKnown O db) {key : BlockKey} {row : BlockRow}
    (hkey : O (.ofRow key)) (hinsert : db.insertBlock key row = .ok db') : RowsKnown O db' := by
  unfold Database.insertBlock at hinsert
  split_ifs at hinsert
  obtain rfl := Except.ok.inj hinsert
  intro key' hkey'
  obtain ⟨row', hrow'⟩ := AssocMap.contains_iff.mp hkey'
  dsimp only at hrow'
  rw [AssocMap.get_entryOrInsert] at hrow'
  split_ifs at hrow' with heq
  · rw [heq]
    exact hkey
  · exact h key' (AssocMap.contains_iff.mpr ⟨row', hrow'⟩)

/-- So may several. -/
theorem rowsKnown_insertBlocks (h : RowsKnown O db) {key : FileKey} {blocks : List BlockInfo}
    (hinsert : BepState.insertBlocks key blocks db = .ok db')
    (hblocks : ∀ block ∈ blocks, O (.ofRow (BepState.blockKey key block))) : RowsKnown O db' := by
  induction blocks generalizing db with
  | nil =>
      obtain rfl := Except.ok.inj hinsert
      exact h
  | cons block blocks ih =>
      obtain ⟨hblock, hrest⟩ := List.forall_mem_cons.mp hblocks
      obtain ⟨db₁, hfirst, hinsert⟩ := Rust.bind_eq_ok.mp hinsert
      exact ih (rowsKnown_insertBlock h hblock hfirst) hinsert hrest

variable {folder : String} {deviceId : DeviceId} {file : FileInfo}

/-- A file of known blocks may be written over its row. -/
theorem rowsKnown_upsertFile (h : RowsKnown O db) (hfile : FileKnown O folder file)
    (hwrite : BepState.upsertFile folder deviceId file db = .ok db') : RowsKnown O db' := by
  obtain ⟨db₁, hinsert, hwrite⟩ := Rust.bind_eq_ok.mp hwrite
  obtain ⟨version, -, hwrite⟩ := Rust.bind_eq_ok.mp hwrite
  obtain ⟨db₂, hversions, hwrite⟩ := Rust.bind_eq_ok.mp hwrite
  obtain ⟨-, hsame, -⟩ := insertVersions_eq_ok hversions
  exact rowsKnown_insertBlocks ((rowsKnown_insertFileInfo h hinsert).of_same hsame) hwrite hfile

/-- Or in place of it. -/
theorem rowsKnown_replaceFile (h : RowsKnown O db) (hfile : FileKnown O folder file)
    (hwrite : BepState.replaceFile folder deviceId file db = .ok db') : RowsKnown O db' := by
  obtain ⟨db₁, hinsert, hwrite⟩ := Rust.bind_eq_ok.mp hwrite
  obtain ⟨version, -, hwrite⟩ := Rust.bind_eq_ok.mp hwrite
  obtain ⟨db₂, hversions, hwrite⟩ := Rust.bind_eq_ok.mp hwrite
  obtain ⟨-, hsame, -⟩ := insertVersions_eq_ok hversions
  split_ifs at hwrite
  exact rowsKnown_insertBlocks ((rowsKnown_insertFileInfo
    (rowsKnown_deleteFileInfo h _) hinsert).of_same hsame)
    (insertBlocks_of_insertNewBlocks hwrite) hfile

/-- And so may several files. -/
theorem rowsKnown_writeFiles {write : FileInfo → Database → Rust Database}
    (hstep : ∀ file db db', RowsKnown O db → FileKnown O folder file → write file db = .ok db' →
      RowsKnown O db')
    {files : List FileInfo} (h : RowsKnown O db) (hfiles : ∀ f ∈ files, FileKnown O folder f)
    (hwrite : BepState.writeFiles write files db = .ok db') : RowsKnown O db' := by
  induction files generalizing db with
  | nil =>
      obtain rfl := Except.ok.inj hwrite
      exact h
  | cons file files ih =>
      obtain ⟨hfile, hrest⟩ := List.forall_mem_cons.mp hfiles
      obtain ⟨db₁, hfirst, hwrite⟩ := Rust.bind_eq_ok.mp hwrite
      exact ih (hstep file db db₁ h hfile hfirst) hrest hwrite

/-- What is loaded has the blocks of the rows. -/
theorem fileKnown_loadIndex (h : RowsKnown O db) (folder : String) (deviceId : DeviceId) :
    ∀ f ∈ (BepState.loadIndex db folder deviceId).files, FileKnown O folder f := by
  obtain ⟨files, hfiles, hget⟩ := loadIndex_files db folder deviceId
  intro f hf block hblock
  rw [hfiles] at hf
  obtain ⟨name, hname⟩ := AssocMap.mem_values_iff.mp hf
  rw [hget] at hname
  obtain ⟨row, -, rfl⟩ := Option.map_eq_some_iff.mp hname
  obtain ⟨⟨key, row'⟩, he, rfl⟩ := List.mem_map.mp hblock
  obtain ⟨hentry, hkey⟩ := List.mem_filter.mp he
  have hknown := h key (AssocMap.contains_iff.mpr ⟨row', AssocMap.mem_entries_iff.mp hentry⟩)
  have hfile : key.file = ⟨folder, deviceId, name⟩ := by simpa using hkey
  rw [BlockAt.ofRow, hfile] at hknown
  exact hknown

end Rows

/-! ## The state -/

section States

variable {O : BlockAt → Prop} {s s' : BepState}

/-- What may be asked for. -/
def Asked (O : BlockAt → Prop) (k : OutgoingRequest) : Prop :=
  k.fromTemporary = false ∧ O ⟨k.folder, k.name, k.offset, k.size, k.hash.toList⟩

/-- All blocks the state has are known: those of its rows, of its indices and of its queue. -/
structure Knows (O : BlockAt → Prop) (s : BepState) : Prop where
  rows : RowsKnown O s.db
  entries : ∀ key entry, s.indices.indices.get key = some entry →
    ∀ f ∈ entry.files.values, FileKnown O key.folder f
  queue : ∀ k, s.outgoingRequests.requestsByRequest.contains k = true → Asked O k

/-- With more offered, all is still known. -/
theorem Knows.mono {O' : BlockAt → Prop} (h : Knows O s) (hmore : ∀ b, O b → O' b) :
    Knows O' s where
  rows key hkey := hmore _ (h.rows key hkey)
  entries key entry hentry f hf block hblock :=
    hmore _ (h.entries key entry hentry f hf block hblock)
  queue k hk := (h.queue k hk).imp_right (hmore _)

/-- At the start there are only the rows. -/
theorem knows_new {db : Database} (h : RowsKnown O db) : Knows O (.new db) where
  rows := h
  entries key entry hentry := by simp [BepState.new, GrizolIndices.default] at hentry
  queue k hk := by simp [BepState.new, OutgoingRequests.default, AssocMap.contains] at hk

/-- Blocks that are known, whatever the numbers of the files. -/
theorem fileKnown_of_numbered {folder : String} {files files' : List FileInfo}
    (h : List.Forall₂ Numbered files files') (hfiles : ∀ f ∈ files, FileKnown O folder f) :
    ∀ f ∈ files', FileKnown O folder f := by
  intro f' hf'
  obtain ⟨f, hf, n, rfl⟩ := Numbered.mem h hf'
  exact hfiles f hf

/-- A panic leaves nothing that is not known. -/
theorem Knows.of_aborts (h : Knows O s) {α : Type} {x : RustM BepState α} (habort : Aborts s x) :
    Knows O (RustM.endState (x.run s)) := by
  obtain ⟨e, s', hrun, n, rfl⟩ := habort
  rw [hrun]
  exact ⟨h.rows, h.entries, h.queue⟩

/-- The files that the state knows of have known blocks. -/
theorem fileKnown_known (h : Knows O s) (folder : String) (deviceId : DeviceId) :
    ∀ f ∈ (known s folder deviceId).files, FileKnown O folder f := by
  cases hentry : s.indices.indices.get ⟨folder, deviceId⟩ with
  | some entry =>
      rw [known_of_entry hentry]
      exact h.entries _ entry hentry
  | none =>
      rw [known_of_no_entry hentry]
      exact fileKnown_loadIndex h.rows folder deviceId

/-- What is loaded is known. -/
theorem Knows.of_loads (h : Knows O s) (hblocks : s'.db.bepBlockInfo = s.db.bepBlockInfo)
    (hqueue : s'.outgoingRequests = s.outgoingRequests) (hloads : LoadsEntries s s') :
    Knows O s' where
  rows := h.rows.of_same hblocks
  entries key entry hentry f hf := by
    rcases hloads key entry hentry with hold | ⟨db, -, hsame, rfl⟩
    · exact h.entries key entry hold f hf
    · rcases mem_values_insertAll hf with hf | hf
      · exact fileKnown_loadIndex (h.rows.of_same hsame) key.folder key.deviceId f hf
      · cases hf
  queue k hk := h.queue k (hqueue ▸ hk)

/-- Reading an index caches what the rows have. -/
theorem knows_index (h : Knows O s) (folder : String) (deviceId : DeviceId) :
    Knows O (RustM.endState ((BepState.index folder deviceId).run s)) := by
  have hloads := loads_index folder deviceId s
  exact h.of_loads (by rw [hloads.db]) hloads.queue hloads.entries

/-- An entry gets files. -/
theorem Knows.of_files (h : Knows O s) {folder : String} {deviceId : DeviceId}
    {files : List FileInfo} (hrows : RowsKnown O s'.db)
    (hfiles : ∀ f ∈ files, FileKnown O folder f)
    (hindices : s'.indices = s.indices.insertFileInfo folder deviceId files)
    (hqueue : s'.outgoingRequests = s.outgoingRequests) : Knows O s' where
  rows := hrows
  entries key entry hentry f hf := by
    rw [hindices, get_insertFileInfo folder deviceId s.indices files key] at hentry
    split_ifs at hentry with hkey
    · obtain rfl := hkey
      obtain rfl := Option.some.inj hentry
      rcases mem_values_insertAll hf with hf | hf
      · exact hfiles f hf
      · cases hold : s.indices.indices.get ⟨folder, deviceId⟩ with
        | some entry =>
            rw [hold] at hf
            exact h.entries _ entry hold f hf
        | none =>
            rw [hold] at hf
            cases hf
    · exact h.entries key entry hentry f hf
  queue k hk := h.queue k (hqueue ▸ hk)

/-- Known files may be added. -/
theorem knows_insertFileInfo (h : Knows O s) (folder : String) (deviceId : DeviceId)
    {files : List FileInfo} (hfiles : ∀ f ∈ files, FileKnown O folder f) :
    Knows O (RustM.endState ((BepState.insertFileInfo folder deviceId files).run s)) := by
  rcases insertFileInfo_run folder deviceId s files with
    habort | ⟨files', tx, n, hnumbered, hwrite, hrun⟩
  · exact h.of_aborts habort
  · rw [hrun]
    have hfiles' := fileKnown_of_numbered hnumbered hfiles
    have hrows := rowsKnown_writeFiles (fun _ _ _ => rowsKnown_upsertFile) h.rows hfiles' hwrite
    exact h.of_files hrows hfiles' rfl rfl

/-- Or put in place of those that are there. -/
theorem knows_rmReplaceFileInfo (h : Knows O s) (folder : String) (deviceId : DeviceId)
    {files : List FileInfo} (hfiles : ∀ f ∈ files, FileKnown O folder f) :
    Knows O (RustM.endState ((BepState.rmReplaceFileInfo folder deviceId files).run s)) := by
  rcases rmReplaceFileInfo_run folder deviceId s files with
    habort | ⟨files', tx, n, hnumbered, hwrite, hrun⟩
  · exact h.of_aborts habort
  · rw [hrun]
    have hkept : ∀ f ∈ files'.filter (fun f => !f.deleted), FileKnown O folder f :=
      fun f hf => fileKnown_of_numbered hnumbered hfiles f (List.mem_of_mem_filter hf)
    have hrows := rowsKnown_writeFiles (fun _ _ _ => rowsKnown_replaceFile) h.rows hkept hwrite
    exact h.of_files hrows hkept rfl rfl

/-- An index of known files may replace the one that is there. -/
theorem knows_replaceIndex (h : Knows O s) (deviceId : DeviceId) {index : Index}
    (hfiles : ∀ f ∈ index.files, FileKnown O index.folder f) :
    Knows O (RustM.endState ((BepState.replaceIndex index deviceId).run s)) := by
  rcases replaceIndex_run deviceId s index with habort | ⟨files, tx, n, hnumbered, hwrite, hrun⟩
  · exact h.of_aborts habort
  · rw [hrun]
    have hfiles' := fileKnown_of_numbered hnumbered hfiles
    have hrows := rowsKnown_writeFiles (fun _ _ _ => rowsKnown_upsertFile)
      (rowsKnown_deleteFileInfo h.rows _) hfiles' hwrite
    refine ⟨hrows, fun key entry hentry f hf => ?_, h.queue⟩
    dsimp only [RustM.endState_ok, GrizolIndices.insert] at hentry
    rw [AssocMap.get_insert] at hentry
    split_ifs at hentry with hkey
    · obtain rfl := hkey
      obtain rfl := Option.some.inj hentry
      rcases mem_values_insertAll hf with hf | hf
      · exact hfiles' f hf
      · cases hf
    · exact h.entries key entry hentry f hf

/-! ### Sections -/

/-- The listed blocks go into the queue. -/
theorem knows_storeOutgoingRequests (h : Knows O s) {blocks : List BlockInfoExt}
    (hblocks : ∀ b ∈ blocks, O ⟨b.folder, b.name, b.offset, b.size, b.hash⟩) (clock : ℕ → ℕ) :
    Knows O (RustM.endState ((storeOutgoingRequests blocks clock).run s)) := by
  let part (s : BepState) := (s.db, s.indices)
  have hpart : ∀ (s : BepState) q n, part { s with outgoingRequests := q, requestId := n } =
      part s := fun _ _ _ => rfl
  obtain ⟨hdb, hindices⟩ := Prod.mk.inj (storeOutgoingRequests_part hpart blocks clock s)
  refine ⟨by rw [hdb]; exact h.rows, by rw [hindices]; exact h.entries, fun k hk => ?_⟩
  obtain ⟨v, hv⟩ := AssocMap.contains_iff.mp hk
  rcases (storeOutgoingRequests_enqueued blocks clock s).added k v hv with
    hold | ⟨hwhole, b, hb, hfolder, hname, hoffset, hsize, hhash⟩
  · exact h.queue k (AssocMap.contains_iff.mpr ⟨v, hold⟩)
  · have hknown := hblocks b hb
    rw [hfolder, hname, hoffset, hsize, hhash] at hknown
    exact ⟨hwhole, hknown⟩

variable {received : Index} (localDeviceId clientDeviceId : DeviceId)

/-- The newer files of an index whose blocks are known. -/
theorem fileKnown_newlyAdded {folder : String} {added existing : Index} {diff : IndexDiff}
    {s s' : BepState} (hadded : ∀ f ∈ added.files, FileKnown O folder f)
    (h : EStateM.run (liftM (diffOrPanic folder added existing) : RustM BepState IndexDiff) s =
      .ok diff s') : ∀ f ∈ diff.newlyAddedFiles, FileKnown O folder f := by
  obtain ⟨hdiff, -⟩ := RustM.run_lift_eq_ok.mp h
  exact fun f hf => hadded f (mem_of_diffIndices (diffOrPanic_eq_ok hdiff) hf)

/-- The blocks of an `Index` go to the client, and those that are newer to this device. -/
theorem knows_replaceIndices (h : Knows O s)
    (hreceived : ∀ f ∈ received.files, FileKnown O received.folder f) :
    Knows O (RustM.endState
      ((BepProcessor.replaceIndices localDeviceId received clientDeviceId).run s)) := by
  unfold BepProcessor.replaceIndices
  refine RustM.endState_bind_inv (Knows O) (knows_replaceIndex h _ hreceived)
    fun _ s₁ _ h₁ => ?_
  refine RustM.endState_bind_inv (Knows O) (knows_index h₁ _ _) fun _ s₂ _ h₂ => ?_
  refine RustM.endState_bind_inv (Knows O) (by rwa [RustM.endState_lift]) fun _ s₃ _ h₃ => ?_
  refine RustM.endState_bind_inv (Knows O) (by rwa [RustM.endState_lift])
    fun diff s₄ hdiff h₄ => ?_
  have hnew := fileKnown_newlyAdded hreceived hdiff
  exact RustM.endState_bind_inv (Knows O) (knows_insertFileInfo h₄ _ _ hnew) fun _ _ _ h₅ => h₅

/-- Those of an `IndexUpdate` go to the client where they are newer, and of all that is known of
the client then, what is newer goes to this device. -/
theorem knows_updateIndices (h : Knows O s)
    (hreceived : ∀ f ∈ received.files, FileKnown O received.folder f) :
    Knows O (RustM.endState
      ((BepProcessor.updateIndices localDeviceId received clientDeviceId).run s)) := by
  unfold BepProcessor.updateIndices
  refine RustM.endState_bind_inv (Knows O) (knows_index h _ _) fun _ s₁ _ h₁ => ?_
  refine RustM.endState_bind_inv (Knows O) (by rwa [RustM.endState_lift]) fun _ s₂ _ h₂ => ?_
  refine RustM.endState_bind_inv (Knows O) (by rwa [RustM.endState_lift])
    fun diff s₃ hdiff h₃ => ?_
  have hnew := fileKnown_newlyAdded hreceived hdiff
  refine RustM.endState_bind_inv (Knows O) (knows_rmReplaceFileInfo h₃ _ _ hnew)
    fun _ s₄ _ h₄ => ?_
  refine RustM.endState_bind_inv (Knows O) (knows_index h₄ _ _) fun _ s₅ _ h₅ => ?_
  refine RustM.endState_bind_inv (Knows O) (by rwa [RustM.endState_lift]) fun _ s₆ _ h₆ => ?_
  refine RustM.endState_bind_inv (Knows O) (knows_index h₆ _ _) fun peer s₇ hpeer h₇ => ?_
  refine RustM.endState_bind_inv (Knows O) (by rwa [RustM.endState_lift])
    fun peer' s₈ hpeer' h₈ => ?_
  refine RustM.endState_bind_inv (Knows O) (by rwa [RustM.endState_lift])
    fun diff s₉ hdiff h₉ => ?_
  have hfiles : ∀ f ∈ peer'.files, FileKnown O received.folder f := by
    obtain ⟨rfl, -, -⟩ := entry_of_index hpeer
    obtain ⟨hexpect, -⟩ := RustM.run_lift_eq_ok.mp hpeer'
    obtain rfl := Except.ok.inj hexpect
    exact fileKnown_known h₆ received.folder clientDeviceId
  have hnew := fileKnown_newlyAdded hfiles hdiff
  exact RustM.endState_bind_inv (Knows O) (knows_rmReplaceFileInfo h₉ _ _ hnew)
    fun _ _ _ h => h

/-- Rows and requests that are gone, or are as they were. -/
theorem Knows.of_fewer (h : Knows O s) (hindices : s'.indices = s.indices)
    (hblocks : ∀ key, s'.db.bepBlockInfo.contains key = true →
      s.db.bepBlockInfo.contains key = true)
    (hqueue : ∀ k, s'.outgoingRequests.requestsByRequest.contains k = true →
      s.outgoingRequests.requestsByRequest.contains k = true) : Knows O s' where
  rows key hkey := h.rows key (hblocks key hkey)
  entries := hindices ▸ h.entries
  queue k hk := h.queue k (hqueue k hk)

/-- A request that is forgotten leaves the others. -/
theorem knows_removeRequest (h : Knows O s) (requestId : Int32) :
    Knows O (RustM.endState ((BepState.removeRequest requestId).run s)) := by
  rw [BepState.removeRequest, onQueue_run]
  refine h.of_fewer rfl (fun _ hkey => hkey) fun k hk => ?_
  dsimp only at hk
  by_cases hown : ∃ r own, s.outgoingRequests.requestsById.get requestId = some r ∧
      OutgoingRequest.ofRequest r = .ok own
  · obtain ⟨r, own, hr, hown⟩ := hown
    rw [remove_requestsByRequest hr hown, AssocMap.contains, AssocMap.get_erase] at hk
    split_ifs at hk
    · cases hk
    · exact hk
  · rwa [remove_requestsByRequest_of_none fun r own hr hk => hown ⟨r, own, hr, hk⟩] at hk

end States

/-! ## Turns -/

section Turns

variable {O O' : BlockAt → Prop} {s : ServerState} {p : BepProcessor}

/-- A turn of the handler of a response brings no block. -/
theorem knows_response (hs : Knows O p.state) (h : ResponseHandler) (outcome : TurnOutcome) :
    Knows O (h.act hash sha256 debugRequest p outcome).2.state := by
  rw [(act_state h p outcome).1]
  unfold stateAfter
  cases h.pc with
  | updateState request fileSize blockSize =>
      dsimp only
      rcases updateBlockStorageState_run h.response.id p.config.localDeviceId p.state with
        ⟨e, hrun⟩ | ⟨r, status, -, hrun⟩
      · rw [hrun]
        exact hs
      · rw [hrun]
        refine hs.of_fewer rfl (fun key hkey => ?_) fun _ hk => hk
        dsimp only [RustM.endState_ok, markHash, Database.setStorageStatus] at hkey
        rw [AssocMap.contains, AssocMap.get_mapValues, Option.isSome_map] at hkey
        exact hkey
  | updateLocations request locations =>
      have hrows := updateFileLocations_rows request.folder p.config.localDeviceId request.name
        locations p.state
      exact hs.of_fewer hrows.indices (fun _ hkey => hrows.blocks ▸ hkey)
        fun _ hk => hrows.queue ▸ hk
  | removeLocations request => exact hs.of_fewer rfl (fun _ hkey => hkey) fun _ hk => hk
  | removeRequest stored => exact knows_removeRequest hs h.response.id
  | _ => exact hs

/-- The index a handler writes. -/
def writtenIndex : IndexMessage → Index
  | .index received => received
  | .indexUpdate received => { folder := received.folder, files := received.files }

/-- What the handler of an index has in its hands is known. -/
def HandlerKnows (O : BlockAt → Prop) : MessageHandler → Prop
  | .index h =>
      (∀ f ∈ (writtenIndex h.message).files, FileKnown O (writtenIndex h.message).folder f) ∧
      ∀ blocks, h.pc = .enqueue blocks →
        ∀ b ∈ blocks, O ⟨b.folder, b.name, b.offset, b.size, b.hash⟩
  | _ => True

/-- With more offered, a handler still holds only what is known. -/
theorem HandlerKnows.mono {h : MessageHandler} (hh : HandlerKnows O h) (hmore : ∀ b, O b → O' b) :
    HandlerKnows O' h := by
  cases h with
  | index h =>
      exact ⟨fun f hf b hb => hmore _ (hh.1 f hf b hb),
        fun blocks hpc b hb => hmore _ (hh.2 blocks hpc b hb)⟩
  | _ => trivial

/-- A turn of the handler of an index: its message goes into the rows, and the rows that are not
stored into the queue. -/
theorem knows_indexHandler (hs : Knows O p.state) {h : IndexHandler}
    (hh : HandlerKnows O (.index h)) :
    Knows O (h.act p).2.state ∧ HandlerKnows O (.ofIndex (h.act p).1) := by
  cases hpc : h.pc with
  | writeIndices =>
      obtain ⟨hstate, hafter⟩ := act_writeIndices p hpc
      have hwritten : Knows O (h.act p).2.state := by
        rw [hstate]
        obtain ⟨message, client, clock, pc⟩ := h
        cases message with
        | index received => exact knows_replaceIndices _ client hs hh.1
        | indexUpdate received => exact knows_updateIndices _ client hs hh.1
      refine ⟨hwritten, ?_⟩
      rcases hafter with hblocks | ⟨e, hpanicked⟩
      · have hmessage : (h.act p).1.message = h.message := by
          unfold IndexHandler.act
          rw [hpc]
          dsimp only
          split <;> rfl
        rw [MessageHandler.ofIndex, hblocks]
        refine ⟨by rw [hmessage]; exact hh.1, fun blocks hlisted b hb => ?_⟩
        rw [hblocks] at hlisted
        obtain rfl := IndexPc.enqueue.inj hlisted
        obtain ⟨⟨key, row⟩, he, rfl⟩ := List.mem_map.mp hb
        have hentry := AssocMap.mem_entries_iff.mp (List.mem_of_mem_filter he)
        exact hwritten.rows key (AssocMap.contains_iff.mpr ⟨row, hentry⟩)
      · rw [MessageHandler.ofIndex, hpanicked]
        trivial
  | enqueue blocks =>
      obtain ⟨hstate, hafter⟩ := act_enqueue p hpc
      refine ⟨?_, ?_⟩
      · rw [hstate]
        exact knows_storeOutgoingRequests hs (hh.2 blocks hpc) h.clock
      · rcases hafter with hreturned | ⟨e, hpanicked⟩
        · rw [MessageHandler.ofIndex, hreturned]
          trivial
        · rw [MessageHandler.ofIndex, hpanicked]
          trivial
  | returned =>
      unfold IndexHandler.act MessageHandler.ofIndex
      simp only [hpc]
      exact ⟨hs, trivial⟩
  | panicked e =>
      unfold IndexHandler.act MessageHandler.ofIndex
      simp only [hpc]
      exact ⟨hs, trivial⟩

/-- A turn of any handler. -/
theorem knows_act (hs : Knows O s.processor.state) {h : MessageHandler} (hh : HandlerKnows O h)
    (outcome : TurnOutcome) :
    Knows O (h.act hash sha256 debugRequest outcome s).2.processor.state ∧
      HandlerKnows O (h.act hash sha256 debugRequest outcome s).1 := by
  cases h with
  | clusterConfig h =>
      have hshares := shares_act h s
      refine ⟨hs.of_loads hshares.blocks hshares.queue hshares.entries, ?_⟩
      dsimp only [MessageHandler.act, MessageHandler.ofClusterConfig]
      split <;> trivial
  | index h => exact knows_indexHandler hs hh
  | response h =>
      refine ⟨knows_response hs h outcome, ?_⟩
      dsimp only [MessageHandler.act, MessageHandler.ofResponse]
      split <;> trivial
  | returned results | panicked e => exact ⟨hs, trivial⟩

end Turns

/-! ## Runs -/

section Runs

variable {db : Database} {indexed : List Index} {s s' : ServerState} {k k' : Connection}
  {event : ConnectionEvent} {r : ConnectionRecord}

variable (db) in
/-- What has been offered stays so. -/
theorem offered_mono {indexed' : List Index} (hmore : indexed ⊆ indexed') (b : BlockAt)
    (h : Offered db indexed b) : Offered db indexed' b :=
  h.imp_right fun ⟨i, hi, hb⟩ => ⟨i, hmore hi, hb⟩

/-- What is known of the handlers of a connection. -/
abbrev ClientKnows (db : Database) (indexed : List Index) (k : Connection)
    (r : ConnectionRecord) : Prop :=
  ConnectionFollows (HandlerKnows (Offered db indexed)) (fun _ => True) k r

/-- The handler of a message that was taken knows what the message offers. -/
theorem handlerKnows_taken {m : CompleteMessage}
    (hindexed : ∀ i, broughtIndex m = some i → i ∈ indexed) (clientDeviceId : DeviceId)
    (clock : ℕ → ℕ) :
    HandlerKnows (Offered db indexed) (.handleCompleteMessage config clientDeviceId clock m) := by
  have hoffers : ∀ i, broughtIndex m = some i → ∀ f ∈ i.files,
      FileKnown (Offered db indexed) i.folder f := fun i hi f hf block hblock =>
    .inr ⟨i, hindexed i hi, List.mem_flatMap.mpr ⟨f, hf, List.mem_map_of_mem hblock⟩⟩
  cases m with
  | index x => exact ⟨hoffers x rfl, fun blocks hpc => by cases hpc⟩
  | indexUpdate x => exact ⟨hoffers _ rfl, fun blocks hpc => by cases hpc⟩
  | response x =>
      unfold MessageHandler.handleCompleteMessage MessageHandler.handleResponse
      dsimp only
      repeat' split
      all_goals trivial
  | _ => trivial

variable (config) in
/-- The requests of the loop of a connection are queued ones, and it brings no block. -/
theorem knows_requestsFor {O : BlockAt → Prop} {p : BepProcessor} (hinv : QueueInStep p.state)
    (hs : Knows O p.state) (event : GrizolEvent) :
    Knows O (RustM.endState ((Connection.requestsFor config event).run p)).state ∧
      ∀ requests p', (Connection.requestsFor config event).run p = .ok requests p' →
        ∀ r ∈ requests, ∃ own, OutgoingRequest.ofRequest r = .ok own ∧ Asked O own := by
  cases event with
  | message m =>
      refine ⟨hs, fun requests p' hrun r hr => ?_⟩
      obtain ⟨rfl, -⟩ := EStateM.Result.ok.inj hrun
      cases hr
  | requestProcessed | requestCreated =>
      obtain ⟨taken, hsent, hend, -, hrequests⟩ := updatePendingRequests_sentFrom
        hinv.consistent config.maxPendingRequests config.maxTotalPendingRequestsSize
      refine ⟨?_, fun requests p' hrun r hr => ?_⟩
      · show Knows O (RustM.endState ((BepProcessor.throttledRequests config.maxPendingRequests
          config.maxTotalPendingRequestsSize).run p)).state
        rw [BepProcessor.throttledRequests, BepProcessor.onState_run,
          BepState.updatePendingRequests, onQueue_run, hend]
        exact ⟨hs.rows, hs.entries, hs.queue⟩
      · change (BepProcessor.onState (BepState.onQueue (OutgoingRequests.updatePendingRequests
          config.maxPendingRequests config.maxTotalPendingRequestsSize))).run p =
            .ok requests p' at hrun
        cases hqueue : (OutgoingRequests.updatePendingRequests config.maxPendingRequests
            config.maxTotalPendingRequestsSize).run p.state.outgoingRequests with
        | error e q =>
            rw [BepProcessor.onState_eq_error (onQueue_eq_error hqueue)] at hrun
            cases hrun
        | ok requests' q =>
            rw [BepProcessor.onState_eq_ok (onQueue_eq_ok hqueue)] at hrun
            obtain rfl := (EStateM.Result.ok.inj hrun).1
            rw [hrequests _ q hqueue] at hr
            obtain ⟨entry, hentry, rfl⟩ := List.mem_map.mp hr
            obtain ⟨id, t, hkey, hrequest⟩ := hsent.queued entry hentry
            obtain ⟨r, hr, hown⟩ := (hinv.consistent.same id entry.1).mpr ⟨t, hkey⟩
            obtain rfl := Option.some.inj (hr.symm.trans hrequest)
            exact ⟨entry.1, hown, hs.queue _ (AssocMap.contains_iff.mpr ⟨_, hkey⟩)⟩

/-- Requests for known blocks ask for what was offered. -/
theorem asksForOffered_of_asked {requests : List Request}
    (h : ∀ r ∈ requests, ∃ own, OutgoingRequest.ofRequest r = .ok own ∧
      Asked (Offered db indexed) own) : AsksForOffered db indexed requests := by
  have hfields : ∀ r ∈ requests, Offered db indexed (.ofRequest r) ∧ r.hash.length = 32 ∧
      r.fromTemporary = false := by
    intro r hr
    obtain ⟨own, hown, hwhole, hoffered⟩ := h r hr
    unfold OutgoingRequest.ofRequest at hown
    split_ifs at hown with hlength
    obtain rfl := Except.ok.inj hown
    exact ⟨hoffered, hlength, hwhole⟩
  exact ⟨fun r hr => (hfields r hr).1, fun r hr => (hfields r hr).2.1,
    fun r hr => (hfields r hr).2.2⟩

/-- The requests of a step are of known blocks, and the blocks stay known. -/
theorem knows_of_moved (hinv : QueueInStep s.processor.state)
    (hs : Knows (Offered db indexed) s.processor.state) (hk : ClientKnows db indexed k r)
    (hmoved : Moved codec hash sha256 debugRequest config k s event k' s') :
    Knows (Offered db indexed) s'.processor.state ∧
      AsksForOffered db indexed (writtenRequests codec config s k event) := by
  have hnone : AsksForOffered db indexed [] := ⟨by simp, by simp, by simp⟩
  unfold writtenRequests
  cases hmoved with
  | turn i input task task' queued s' htask hturned hqueued =>
      have hbefore := hk.tasks task (List.mem_of_getElem? htask)
      refine ⟨?_, hnone⟩
      cases hturned with
      | act h messages => exact (knows_act hs hbefore input.outcome).1
      | _ => exact hs
  | broken event events p outcome hevents hp hwritten =>
      rw [hwritten, hp]
      exact ⟨(knows_requestsFor config hinv hs event).1, hnone⟩
  | wrote event events requests p data outcome hevents hrequests hdata =>
      have hwritten : writtenEvent codec config s k (.send outcome) = [(event, requests)] := by
        simp [writtenEvent, hevents, hrequests, hdata]
      rw [hwritten, List.flatMap_singleton]
      obtain ⟨hafter, hasked⟩ := knows_requestsFor config hinv hs event
      rw [hrequests] at hafter
      exact ⟨hafter, asksForOffered_of_asked (hasked requests p hrequests)⟩
  | _ => exact ⟨hs, hnone⟩

/-- A step of a connection asks only for what was offered. -/
theorem clientKnows_of_moved (hs : Knows (Offered db indexed) s.processor.state)
    (hk : ClientKnows db indexed k r)
    (hmoved : Moved codec hash sha256 debugRequest config k s event k' s') :
    ClientKnows db (indexed ++ indexedBy s k event) k' (r.extend codec config s k event) := by
  have hmore := offered_mono db (List.subset_append_left indexed (indexedBy s k event))
  refine follows_of_moved hk hmoved (fun _ hh => hh.mono hmore) (fun _ _ => trivial)
    (fun clock m hm => handlerKnows_taken (fun i hi => ?_) _ _)
    (fun h outcome hh _ => (knows_act hs hh outcome).2.mono hmore) (fun _ _ _ _ => trivial) trivial
    fun _ => trivial
  exact List.mem_append_right _ (List.mem_filterMap.mpr ⟨m, hm, hi⟩)

/-- What a step takes and what it sends. -/
def takenAndSent (codec : Codec) (config : ConnectionConfig) (s : ServerState) (k : Connection)
    (event : ConnectionEvent) : List (Index ⊕ Request) :=
  (indexedBy s k event).map .inl ++ (writtenRequests codec config s k event).map .inr

/-- The indices of a step are those it took. -/
theorem lefts_takenAndSent : (takenAndSent codec config s k event).filterMap Sum.getLeft? =
    indexedBy s k event := by
  simp [takenAndSent, Function.comp_def]

/-- The requests of a step are those it wrote. -/
theorem rights_takenAndSent : (takenAndSent codec config s k event).filterMap Sum.getRight? =
    writtenRequests codec config s k event := by
  simp [takenAndSent, Function.comp_def]

/-- The state that all connections share, after what was taken and sent. -/
structure OfferedInStep (config : ConnectionConfig) (db : Database) (xs : List (Index ⊕ Request))
    (s : ServerState) : Prop where
  sent : SentInStep config (xs.filterMap Sum.getRight?) s.processor.state
  knows : Knows (Offered db (xs.filterMap Sum.getLeft?)) s.processor.state
  asks : AsksForOffered db (xs.filterMap Sum.getLeft?) (xs.filterMap Sum.getRight?)

/-- A step of a connection keeps the record in step with the state. -/
theorem offeredInStep_of_moved {xs : List (Index ⊕ Request)} (hs : OfferedInStep config db xs s)
    (hk : ClientKnows db (xs.filterMap Sum.getLeft?) k r)
    (hmoved : Moved codec hash sha256 debugRequest config k s event k' s') :
    OfferedInStep config db (xs ++ takenAndSent codec config s k event) s' := by
  obtain ⟨hknows, hasks⟩ := knows_of_moved hs.sent.inStep hs.knows hk hmoved
  have hmore := offered_mono db
    (List.subset_append_left (xs.filterMap Sum.getLeft?) (indexedBy s k event))
  constructor <;> simp only [List.filterMap_append, lefts_takenAndSent, rights_takenAndSent]
  · exact sentInStep_of_moved hs.sent hmoved
  · exact hknows.mono hmore
  · refine ⟨fun q hq => hmore _ ?_, fun q hq => ?_, fun q hq => ?_⟩
    · exact (List.mem_append.mp hq).elim (hs.asks.offered q) (hasks.offered q)
    · exact (List.mem_append.mp hq).elim (hs.asks.hashed q) (hasks.hashed q)
    · exact (List.mem_append.mp hq).elim (hs.asks.whole q) (hasks.whole q)

/-- **Nothing is asked for that nobody offered.** However the connections of a server take turns,
every request that is sent on any of them is for a block that was in the database, or that an
index offered which was taken before, on whichever connection. -/
theorem asksForOffered_of_run (codec : Codec) (hash : String → ℕ → ℕ → UInt64)
    (sha256 : Bytes → Bytes) (debugRequest : Request → String) (config : ConnectionConfig)
    {state : ServerState} {db : Database} (hstart : state.processor.state = .new db)
    {es : List ServerEvent} {s : Server}
    (hrun : Transition.run (serverStep codec hash sha256 debugRequest config) (.start state) es =
      some s) :
    AsksForOffered db (indexedIn codec hash sha256 debugRequest config (.start state) es)
      (requestsIn codec hash sha256 debugRequest config (.start state) es) := by
  have hfirst : OfferedInStep config db [] state := by
    refine ⟨?_, ?_, by simp, by simp, by simp⟩
    · rw [hstart]
      exact sentInStep_new db
    · rw [hstart]
      exact knows_new fun key hkey => .inl ⟨key, hkey, rfl⟩
  obtain ⟨hshared, -⟩ := server_of_run (takenAndSent codec config)
    (P := OfferedInStep config db)
    (Q := fun xs _ k r => ClientKnows db (xs.filterMap Sum.getLeft?) k r) hfirst
    (fun xs s d => follows_new d)
    (fun xs s k event k' s' r hs hk hmoved => by
      refine ⟨offeredInStep_of_moved hs hk hmoved, ?_⟩
      rw [List.filterMap_append, lefts_takenAndSent]
      exact clientKnows_of_moved hs.knows hk hmoved)
    (fun xs s k event k' s' r k₂ r₂ hs hk hmoved hk₂ => by
      rw [List.filterMap_append]
      exact hk₂.mono (fun _ hh => hh.mono (offered_mono db (List.subset_append_left _ _)))
        fun _ _ => trivial) hrun
  have hasks := hshared.asks
  rw [Transition.filterMap_collect, Transition.filterMap_collect] at hasks
  have hleft : (fun s e => (handedOver (takenAndSent codec config) s e).filterMap Sum.getLeft?) =
      handedOver indexedBy := by
    funext s e
    unfold handedOver
    cases s.connections e.connection with
    | none => rfl
    | some k => exact lefts_takenAndSent
  have hright : (fun s e => (handedOver (takenAndSent codec config) s e).filterMap Sum.getRight?) =
      handedOver (writtenRequests codec config) := by
    funext s e
    unfold handedOver
    cases s.connections e.connection with
    | none => rfl
    | some k => exact rights_takenAndSent
  rw [hleft, hright] at hasks
  exact hasks

/-- Witness: both requests are of the file that was offered. -/
theorem asksForOffered_of_run_offer :
    (requestsIn offeringMessages (fun _ _ _ => 0) pairHash (fun _ => "") unnamedConfig
        (.start unsharedState) offeredRun).map Request.name = ["a", "a"] ∧
      AsksForOffered unsharedState.processor.state.db
        (indexedIn offeringMessages (fun _ _ _ => 0) pairHash (fun _ => "") unnamedConfig
          (.start unsharedState) offeredRun)
        (requestsIn offeringMessages (fun _ _ _ => 0) pairHash (fun _ => "") unnamedConfig
          (.start unsharedState) offeredRun) := by
  have hsome : (Transition.run (serverStep offeringMessages (fun _ _ _ => 0) pairHash
      (fun _ => "") unnamedConfig) (.start unsharedState) offeredRun).isSome = true := by
    decide +kernel
  obtain ⟨s, hrun⟩ := Option.isSome_iff_exists.mp hsome
  exact ⟨by decide +kernel, asksForOffered_of_run offeringMessages (fun _ _ _ => 0) pairHash
    (fun _ => "") unnamedConfig rfl hrun⟩

end Runs

end Grizol.Analysis
