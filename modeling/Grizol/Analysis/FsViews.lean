import Grizol.Analysis.Lookups
import Grizol.Interface.FsViews

/-!
# The tree shows the view

`viewOf` reads the view off a tree. One refresh does to it what `FsView.refresh` says: at the
covered paths are the listed rows (`entry_of_refresh`), a listed number is present, and
another one stays what it was unless its node was in a listed folder (`inode_of_refresh`).
-/

set_option autoImplicit false

namespace Grizol.Analysis

open Grizol.Library
open Grizol.Model Grizol.Model.Syncthing Grizol.Interface

open GrizolFsMem (splitPath)

/-- What a weak reference still stands for. -/
def inodeStateOf (m : GrizolFsMem) (weak : WeakFsNode) : InodeState :=
  match m.upgrade weak with
  | none => .gone
  | some node => .present weak.path node.fileType

/-- The view a tree shows. -/
def viewOf (m : GrizolFsMem) : FsView where
  entry path := (m.tree.get path).map fun node => (node.id, node.fileType)
  inode ino := ((m.nodes.get ino).map (inodeStateOf m)).getD .unknown

/-- The new tree has the new view. -/
theorem viewOf_new : viewOf .new = FsView.new := by
  have hnode : ∀ path, GrizolFsMem.new.tree.get path =
      if path = [] then some ⟨0, fuseRootId, .folder ⟨{}, 1⟩⟩ else none := by
    intro path
    rw [GrizolFsMem.new, get_insertNode]
    split_ifs
    · rfl
    · rfl
    · rfl
  have hweak : ∀ ino, GrizolFsMem.new.nodes.get ino =
      if ino = fuseRootId then some ⟨[], 0⟩ else none := by
    intro ino
    rw [GrizolFsMem.new, nodes_insertNode]
    rfl
  have hlive : GrizolFsMem.new.upgrade ⟨[], 0⟩ = some ⟨0, fuseRootId, .folder ⟨{}, 1⟩⟩ :=
    upgrade_eq_some.mpr ⟨hnode [], rfl⟩
  ext1
  · funext path
    simp only [viewOf, hnode, FsView.new]
    split_ifs
    · rfl
    · rfl
  · funext ino
    simp only [viewOf, hweak, FsView.new]
    split_ifs
    · simp only [Option.map_some, Option.getD_some, inodeStateOf, hlive]
    · rfl

/-! ## One refresh -/

section Refreshed

variable {m m' : GrizolFsMem} {r : Refresh}

/-- What a refresh lists are its folders and files. -/
theorem mem_listedRows {row : ListedRow} : row ∈ r.listedRows ↔
    (∃ f ∈ r.folders, row = ⟨[f.folder.id], f.id.toUInt64.toNat + topDirsStart, .folder f⟩) ∨
      ∃ f ∈ r.files, row = ⟨splitPath f, f.id.toUInt64.toNat + entriesStart, .file f⟩ := by
  rw [Refresh.listedRows, List.mem_append, List.mem_map, List.mem_map]
  simp only [eq_comm]

/-- Every row is where it says, and is found by its number. -/
theorem node_of_listed (h : afterRefresh m r = some m') {row : ListedRow}
    (hrow : row ∈ r.listedRows) :
    ∃ serial, m'.tree.get row.path = some ⟨serial, row.ino, row.fileType⟩ ∧
      m'.nodes.get row.ino = some ⟨row.path, serial⟩ := by
  obtain ⟨-, m₁, -, -, hfolders, hfiles⟩ := loaded_of_ended r.rows (afterRefresh_eq_some.mp h)
  rcases mem_listedRows.mp hrow with ⟨f, hf, rfl⟩ | ⟨f, hf, rfl⟩
  · obtain ⟨id, serial, hid, hnode, hweak⟩ := folder_of_loaded hfolders hfiles f hf
    obtain rfl := (topDirId_eq_ok.mp hid).1
    exact ⟨serial, hnode, hweak⟩
  · obtain ⟨id, serial, hid, hnode, hweak⟩ := hfiles.file f hf
    obtain rfl := entryId_eq_ok hid
    exact ⟨serial, hnode, hweak⟩

/-- A covered path has a node only if it is listed. -/
theorem listed_of_node (h : afterRefresh m r = some m') {path : List String} {node : FsNode}
    (hcovered : r.Covers path) (hnode : m'.tree.get path = some node) :
    ∃ row ∈ r.listedRows, row.path = path := by
  obtain ⟨-, m₁, -, -, hfolders, hfiles⟩ := loaded_of_ended r.rows (afterRefresh_eq_some.mp h)
  rcases path_of_loaded hfolders hfiles hnode with ⟨f, hf, rfl⟩ | ⟨f, hf, rfl⟩ | ⟨hnot, -⟩
  · exact ⟨_, mem_listedRows.mpr (Or.inl ⟨f, hf, rfl⟩), rfl⟩
  · exact ⟨_, mem_listedRows.mpr (Or.inr ⟨f, hf, rfl⟩), rfl⟩
  · exact absurd hcovered hnot

/-- A number that is not listed keeps its reference. -/
theorem nodes_of_unlisted (h : afterRefresh m r = some m') {ino : ℕ}
    (hino : ∀ row ∈ r.listedRows, row.ino ≠ ino) : m'.nodes.get ino = m.nodes.get ino := by
  obtain ⟨-, m₁, -, -, hfolders, hfiles⟩ := loaded_of_ended r.rows (afterRefresh_eq_some.mp h)
  rw [hfiles.otherNode, hfolders.otherNode]
  · intro f hf hid
    exact hino _ (mem_listedRows.mpr (Or.inl ⟨f, hf, rfl⟩)) (topDirId_eq_ok.mp hid).1
  · intro f hf hid
    exact hino _ (mem_listedRows.mpr (Or.inr ⟨f, hf, rfl⟩)) (entryId_eq_ok hid)

/-- What a refresh does to a path. -/
theorem entry_of_refresh (h : afterRefresh m r = some m') (path : List String) :
    (viewOf m').entry path = ((viewOf m).refresh r).entry path := by
  show (m'.tree.get path).map _ = if r.Covers path then _ else (m.tree.get path).map _
  split_ifs with hcovered
  · cases hfound : r.listedRows.find? fun row => row.path = path with
    | some row =>
        obtain ⟨serial, hnode, -⟩ := node_of_listed h (List.mem_of_find?_eq_some hfound)
        have hpath : row.path = path := by simpa using List.find?_some hfound
        rw [← hpath, hnode]
        rfl
    | none =>
        have hnone : m'.tree.get path = none := by
          rw [Option.eq_none_iff_forall_ne_some]
          intro node hnode
          obtain ⟨row, hrow, hpath⟩ := listed_of_node h hcovered hnode
          exact List.find?_eq_none.mp hfound row hrow (decide_eq_true hpath)
        rw [hnone]
        rfl
  · rw [elsewhere_afterRefresh h path hcovered]

/-- What a reference stands for after a refresh that does not list its number. -/
theorem stateOf_of_refresh (hm : Rooted m) (h : afterRefresh m r = some m') {ino : ℕ}
    {weak : WeakFsNode} (hweak : m.nodes.get ino = some weak) :
    inodeStateOf m' weak = FsView.unlisted r (inodeStateOf m weak) := by
  by_cases hcovered : r.Covers weak.path
  · -- whatever is at the path now is newer than the reference
    have hgone : m'.upgrade weak = none := by
      rw [Option.eq_none_iff_forall_ne_some]
      intro node hnode
      obtain ⟨hget, hserial⟩ := upgrade_eq_some.mp hnode
      have hnew := since_afterRefresh h hcovered hget
      have hold := hm.counted ino weak hweak
      omega
    rw [inodeStateOf, hgone, inodeStateOf]
    cases m.upgrade weak with
    | none => rfl
    | some node => exact (if_pos hcovered).symm
  · have hsame : m'.upgrade weak = m.upgrade weak := by
      rw [GrizolFsMem.upgrade, elsewhere_afterRefresh h weak.path hcovered, GrizolFsMem.upgrade]
    rw [inodeStateOf, hsame, inodeStateOf]
    cases m.upgrade weak with
    | none => rfl
    | some node => exact (if_neg hcovered).symm

/-- What a refresh does to a number. -/
theorem inode_of_refresh (hm : Rooted m) (h : afterRefresh m r = some m') (ino : ℕ) :
    (viewOf m').inode ino = ((viewOf m).refresh r).inode ino := by
  rw [FsView.refresh]
  dsimp only
  cases hfound : r.listedRows.find? fun row => row.ino = ino with
  | some row =>
      obtain ⟨serial, hnode, hweak⟩ := node_of_listed h (List.mem_of_find?_eq_some hfound)
      have hino : row.ino = ino := by simpa using List.find?_some hfound
      have hlive : m'.upgrade ⟨row.path, serial⟩ = some ⟨serial, row.ino, row.fileType⟩ :=
        upgrade_eq_some.mpr ⟨hnode, rfl⟩
      rw [hino] at hweak
      simp only [viewOf, hweak, inodeStateOf, hlive, Option.map_some, Option.getD_some]
  | none =>
      have hnot : ∀ row ∈ r.listedRows, row.ino ≠ ino := by simpa using hfound
      have hsame := nodes_of_unlisted h hnot
      cases hweak : m.nodes.get ino with
      | none => simp only [viewOf, hsame, hweak, Option.map_none, Option.getD_none, FsView.unlisted]
      | some weak =>
          simp only [viewOf, hsame, hweak, Option.map_some, Option.getD_some]
          exact stateOf_of_refresh hm h hweak

end Refreshed

/-- **The view of a run**: the refreshes do to the tree what they do to the view. -/
theorem viewOf_of_run {refreshes : List Refresh} {m : GrizolFsMem}
    (hrun : Transition.run afterRefresh .new refreshes = some m) :
    Rooted m ∧ viewOf m = FsView.after refreshes := by
  refine Transition.run_induction
    (motive := fun refreshes m => Rooted m ∧ viewOf m = FsView.after refreshes)
    ⟨rooted_new, viewOf_new⟩ ?_ hrun
  rintro refreshes m r m' - ⟨hm, hview⟩ h
  refine ⟨rooted_afterRefresh h hm, ?_⟩
  rw [FsView.after, List.foldl_concat, ← FsView.after, ← hview]
  ext1
  · exact funext (entry_of_refresh h)
  · exact funext (inode_of_refresh hm h)

/-! ## What the calls reply with -/

section Replies

variable (config : OwnerConfig) (m : GrizolFsMem)

/-- The three states of a number. -/
theorem inode_viewOf (ino : ℕ) : (viewOf m).inode ino =
    match m.nodes.get ino with
    | none => .unknown
    | some weak => inodeStateOf m weak := by
  show ((m.nodes.get ino).map (inodeStateOf m)).getD .unknown = _
  cases m.nodes.get ino with
  | none => rfl
  | some weak => rfl

/-- The tree answers `getattr` as its view does. -/
theorem getattr_viewOf (ino : ℕ) : getattrMem config m ino = (viewOf m).getattr config ino := by
  rw [getattrMem, FsView.getattr, inode_viewOf]
  refine if_congr Iff.rfl rfl ?_
  cases m.nodes.get ino with
  | none => rfl
  | some weak =>
      dsimp only [inodeStateOf]
      cases m.upgrade weak with
      | none => rfl
      | some node => rfl

/-- And `lookup`. -/
theorem lookup_viewOf (parent : ℕ) (name : OsStr) :
    lookupMem config m parent name = (viewOf m).lookup config parent name := by
  cases name with
  | other bytes => rfl
  | text name =>
      rw [lookupMem, FsView.lookup, inode_viewOf]
      dsimp only [OsStr.toStr]
      cases m.nodes.get parent with
      | none => rfl
      | some weak =>
          dsimp only [inodeStateOf]
          cases m.upgrade weak with
          | none => rfl
          | some node =>
              rw [Rust.unwrap_some, Rust.ok_bind]
              show _ = replyEntry _ ((m.tree.get (weak.path ++ [name])).map _)
              cases m.tree.get (weak.path ++ [name]) with
              | none => rfl
              | some child => rfl

/-- And finds the same file to read. -/
theorem fileToRead_viewOf (readCacheSize ino : ℕ) :
    fileToRead readCacheSize m ino = (viewOf m).fileToRead readCacheSize ino := by
  rw [fileToRead, FsView.fileToRead, inode_viewOf]
  refine if_congr Iff.rfl rfl ?_
  cases m.nodes.get ino with
  | none => rfl
  | some weak =>
      dsimp only [inodeStateOf]
      cases m.upgrade weak with
      | none => rfl
      | some node =>
          obtain ⟨serial, id, fileType⟩ := node
          cases fileType with
          | folder f => rfl
          | file f =>
              rw [Rust.unwrap_some, Rust.ok_bind]
              dsimp only
              cases BepState.u64 f.fileInfo.size with
              | error e => rfl
              | ok size =>
                  simp only [Rust.ok_bind]
                  by_cases hfits : size ≤ readCacheSize
                  · rw [if_neg (not_lt.mpr hfits), if_pos hfits]
                  · rw [if_pos (not_le.mp hfits), if_neg hfits]

/-- An entry shows the kind of its node. -/
theorem childEntry_eq (name : String) (node : FsNode) :
    childEntry (name, node) = (fun k => (node.id, k, name)) <$> FsView.kind node.fileType := by
  obtain ⟨serial, id, fileType⟩ := node
  cases fileType with
  | folder f => rfl
  | file f => rfl

/-- So it fails only if the kind does. -/
theorem childEntry_eq_ok {name : String} {node : FsNode} {x : ℕ × FileType × String} :
    childEntry (name, node) = .ok x ↔
      ∃ k, FsView.kind node.fileType = .ok k ∧ x = (node.id, k, name) := by
  rw [childEntry_eq]
  cases FsView.kind node.fileType with
  | error e => simp [Functor.map, Except.map]
  | ok k => simp [Functor.map, Except.map, eq_comm]

/-- The tree lists a directory as its view does. -/
theorem readdir_viewOf (ino : ℕ) : (viewOf m).Lists ino (readdirMem unbounded m ino 0) := by
  rw [FsView.Lists, inode_viewOf, readdirMem]
  cases m.nodes.get ino with
  | none => rfl
  | some weak =>
      dsimp only [inodeStateOf]
      cases m.upgrade weak with
      | none => rfl
      | some node =>
          intro hkinds
          have hentry : ∀ name x, (viewOf m).entry (weak.path ++ [name]) = some x ↔
              ∃ child, (name, child) ∈ m.children weak.path ∧ (child.id, child.fileType) = x := by
            intro name x
            simp only [viewOf, Option.map_eq_some_iff, mem_children]
          have hreturns : ∀ x ∈ m.children weak.path, ∃ e, childEntry x = .ok e := by
            rintro ⟨name, child⟩ hchild
            obtain ⟨k, hk⟩ := hkinds name _ ((hentry name _).mpr ⟨child, hchild, rfl⟩)
            exact ⟨_, childEntry_eq_ok.mpr ⟨k, hk, rfl⟩⟩
          obtain ⟨entries, hrun, hshown⟩ := replyEntries_unbounded (m.children weak.path) 0 []
            hreturns
          refine ⟨entries, ?_, ?_⟩
          · rw [Rust.unwrap_some, Rust.ok_bind, List.drop_zero, hrun]
            rfl
          · intro ino k name
            rw [hshown]
            constructor
            · rintro (hnone | ⟨⟨name', child⟩, hchild, he⟩)
              · cases hnone
              · obtain ⟨k', hk, hx⟩ := childEntry_eq_ok.mp he
                cases hx
                exact ⟨child.fileType, (hentry _ _).mpr ⟨child, hchild, rfl⟩, hk⟩
            · rintro ⟨t, ht, hk⟩
              obtain ⟨child, hchild, hx⟩ := (hentry _ _).mp ht
              obtain ⟨rfl, rfl⟩ := Prod.mk.inj hx
              exact Or.inr ⟨_, hchild, childEntry_eq_ok.mpr ⟨k, hk, rfl⟩⟩

end Replies

/-- **The tree answers as the view does** after every sequence of refreshes, for all it is
asked. -/
theorem answersAs_of_run (config : OwnerConfig) (readCacheSize : ℕ) {refreshes : List Refresh}
    {m : GrizolFsMem} (hrun : Transition.run afterRefresh .new refreshes = some m) :
    AnswersAs config readCacheSize m (FsView.after refreshes) := by
  rw [← (viewOf_of_run hrun).2]
  exact ⟨getattr_viewOf config m, lookup_viewOf config m, readdir_viewOf m,
    fileToRead_viewOf m readCacheSize⟩

/-- Witness: a file that comes again under a new row. -/
theorem answersAs_of_run_reinserted :
    ∃ m, Transition.run afterRefresh .new [firstRefresh, reinserted] = some m ∧
      AnswersAs ⟨1000, 1000⟩ 4096 m (FsView.after [firstRefresh, reinserted]) ∧
      (FsView.after [firstRefresh, reinserted]).fileToRead 4096 (9 + entriesStart) =
        .error .unwrap ∧
      (FsView.after [firstRefresh, reinserted]).fileToRead 4096 (10 + entriesStart) =
        .ok (.ok ⟨{ name := "a" }, [], "default", 10⟩) := by
  obtain ⟨m, hm⟩ : ∃ m, Transition.run afterRefresh .new [firstRefresh, reinserted] = some m :=
    Option.isSome_iff_exists.mp (by decide +kernel)
  exact ⟨m, hm, answersAs_of_run ⟨1000, 1000⟩ 4096 hm, by decide +kernel, by decide +kernel⟩

/-! ## What the view has after a run -/

section After

variable {refreshes : List Refresh}

/-- The last refresh comes last. -/
theorem after_concat (refreshes : List Refresh) (r : Refresh) :
    FsView.after (refreshes ++ [r]) = (FsView.after refreshes).refresh r := by
  rw [FsView.after, List.foldl_concat, ← FsView.after]

/-- The number of a row is above that of the root. -/
theorem root_lt_of_listed {r : Refresh} {row : ListedRow} (hrow : row ∈ r.listedRows) :
    fuseRootId < row.ino := by
  rcases mem_listedRows.mp hrow with ⟨f, -, rfl⟩ | ⟨f, -, rfl⟩
  · show 1 < f.id.toUInt64.toNat + 10
    omega
  · show 1 < f.id.toUInt64.toNat + 2 ^ 32
    omega

/-- A row is in a folder of its refresh. -/
theorem covers_of_listed {r : Refresh} {row : ListedRow} (hrow : row ∈ r.listedRows) :
    r.Covers row.path := by
  rcases mem_listedRows.mp hrow with ⟨f, hf, rfl⟩ | ⟨f, hf, rfl⟩
  · exact ⟨f, hf, List.prefix_refl _⟩
  · obtain ⟨folder, hfolder, hid⟩ := r.rows.inFolder f hf
    exact ⟨folder, hfolder, Path.split f.fileInfo.name, by rw [hid]; rfl⟩

/-- No refresh covers the root. -/
theorem not_covers_nil (r : Refresh) : ¬ r.Covers [] := by
  rintro ⟨f, -, habove⟩
  cases List.prefix_nil.mp habove

/-- Nor lists its inode number. -/
theorem find_root (r : Refresh) :
    (r.listedRows.find? fun row => row.ino = fuseRootId) = none := by
  rw [List.find?_eq_none]
  intro row hrow hino
  exact absurd (root_lt_of_listed hrow) (of_decide_eq_true hino ▸ lt_irrefl _)

/-- The root stays. -/
theorem root_of_after (refreshes : List Refresh) :
    (FsView.after refreshes).entry [] = some (fuseRootId, .folder ⟨{}, 1⟩) ∧
      (FsView.after refreshes).inode fuseRootId = .present [] (.folder ⟨{}, 1⟩) := by
  induction refreshes using List.reverseRecOn with
  | nil => exact ⟨rfl, rfl⟩
  | append_singleton refreshes r ih =>
      rw [after_concat]
      constructor
      · exact (if_neg (not_covers_nil r)).trans ih.1
      · simp only [FsView.refresh, find_root, ih.2, FsView.unlisted, if_neg (not_covers_nil r)]

/-- What is anywhere below the root came with a refresh. -/
theorem covered_of_entry {path : List String} {x : ℕ × GrizolFSFileType}
    (h : (FsView.after refreshes).entry path = some x) :
    path = [] ∨ ∃ r ∈ refreshes, r.Covers path := by
  induction refreshes using List.reverseRecOn with
  | nil =>
      by_cases hnil : path = []
      · exact Or.inl hnil
      · cases (if_neg hnil).symm.trans h
  | append_singleton refreshes r ih =>
      rw [after_concat] at h
      by_cases hcovered : r.Covers path
      · exact Or.inr ⟨r, List.mem_concat_self, hcovered⟩
      · refine (ih ((if_neg hcovered).symm.trans h)).imp_right ?_
        rintro ⟨r', hr', hcovered'⟩
        exact ⟨r', List.mem_append_left _ hr', hcovered'⟩

/-- This number was in one of the refreshes. -/
def WasListed (refreshes : List Refresh) (ino : ℕ) : Prop :=
  ∃ r ∈ refreshes, ∃ row ∈ r.listedRows, row.ino = ino

/-- What was listed stays so. -/
theorem WasListed.concat {ino : ℕ} (h : WasListed refreshes ino) (r : Refresh) :
    WasListed (refreshes ++ [r]) ino := by
  obtain ⟨r', hr', hrow⟩ := h
  exact ⟨r', List.mem_append_left _ hr', hrow⟩

/-- What the state of a number says of the refreshes. -/
def Records (refreshes : List Refresh) (ino : ℕ) : InodeState → Prop
  | .unknown => ¬ WasListed refreshes ino
  | .gone => WasListed refreshes ino
  | .present path _ => WasListed refreshes ino ∧ ∃ r ∈ refreshes, r.Covers path

/-- The view keeps what the refreshes listed last. -/
theorem records_of_after (refreshes : List Refresh) {ino : ℕ} (hino : ino ≠ fuseRootId) :
    Records refreshes ino ((FsView.after refreshes).inode ino) := by
  induction refreshes using List.reverseRecOn with
  | nil =>
      have hnew : (FsView.after []).inode ino = .unknown := if_neg hino
      rw [hnew]
      rintro ⟨r, hr, -⟩
      cases hr
  | append_singleton refreshes r ih =>
      rw [after_concat, FsView.refresh]
      dsimp only
      cases hfound : r.listedRows.find? fun row => row.ino = ino with
      | some row =>
          have hrow := List.mem_of_find?_eq_some hfound
          have hsame : row.ino = ino := by simpa using List.find?_some hfound
          exact ⟨⟨r, List.mem_concat_self, row, hrow, hsame⟩, r, List.mem_concat_self,
            covers_of_listed hrow⟩
      | none =>
          have hnot : ∀ row ∈ r.listedRows, row.ino ≠ ino := by simpa using hfound
          generalize (FsView.after refreshes).inode ino = state at ih
          cases state with
          | unknown =>
              rintro ⟨r', hr', row, hrow, hsame⟩
              rcases List.mem_append.mp hr' with hr' | hr'
              · exact ih ⟨r', hr', row, hrow, hsame⟩
              · obtain rfl := List.mem_singleton.mp hr'
                exact hnot row hrow hsame
          | gone => exact ih.concat r
          | present path fileType =>
              rw [FsView.unlisted]
              split_ifs
              · exact ih.1.concat r
              · obtain ⟨hlisted, r', hr', hcovered⟩ := ih
                exact ⟨hlisted.concat r, r', List.mem_append_left _ hr', hcovered⟩

end After

/-! ## What is listed last -/

section Last

variable {earlier : List Refresh} {r : Refresh}

/-- What the rows of a refresh say is what its lists say. -/
theorem located_iff_listed (h : NumberedRows r.folders r.files) {ino : ℕ} {path : List String}
    {kind : FileType} (hne : path ≠ []) : Located r.folders r.files ino path kind ↔
      ∃ row ∈ r.listedRows, row.path = path ∧ row.ino = ino ∧
        FsView.kind row.fileType = .ok kind := by
  constructor
  · intro hlocated
    cases hlocated with
    | root => exact absurd rfl hne
    | @folder f _ hf hid =>
        exact ⟨_, mem_listedRows.mpr (Or.inl ⟨f, hf, rfl⟩), rfl, (topDirId_eq_ok.mp hid).1, rfl⟩
    | @file f _ _ hf hid hkind =>
        exact ⟨_, mem_listedRows.mpr (Or.inr ⟨f, hf, rfl⟩), rfl, entryId_eq_ok hid, hkind⟩
  · rintro ⟨row, hrow, rfl, rfl, hkind⟩
    rcases mem_listedRows.mp hrow with ⟨f, hf, rfl⟩ | ⟨f, hf, rfl⟩
    · cases hkind
      exact .folder hf (topDirId_of_rows (h.folders f hf))
    · exact .file hf (entryId_of_nonneg (h.files f hf)) hkind

/-- The listed rows have kinds. -/
theorem located_of_listed (h : Snapshot r.folders r.files) {row : ListedRow}
    (hrow : row ∈ r.listedRows) :
    ∃ kind, FsView.kind row.fileType = .ok kind ∧
      Located r.folders r.files row.ino row.path kind := by
  have hkind : ∃ kind, FsView.kind row.fileType = .ok kind := by
    rcases mem_listedRows.mp hrow with ⟨f, -, rfl⟩ | ⟨f, hf, rfl⟩
    · exact ⟨_, rfl⟩
    · exact fileType_returns (h.types f hf)
  obtain ⟨kind, hkind⟩ := hkind
  have hne : row.path ≠ [] := fun hnil => not_covers_nil r (hnil ▸ covers_of_listed hrow)
  exact ⟨kind, hkind, (located_iff_listed h.rows hne).mpr ⟨row, hrow, rfl, rfl, hkind⟩⟩

/-- **After the last refresh** there is at every path what it lists, when earlier ones had no
other folders. -/
theorem entry_of_last
    (hfewer : ∀ r' ∈ earlier, ∀ f' ∈ r'.folders, ∃ f ∈ r.folders, f.folder.id = f'.folder.id)
    {path : List String} (hne : path ≠ []) :
    (FsView.after (earlier ++ [r])).entry path =
      (r.listedRows.find? fun row => row.path = path).map fun row => (row.ino, row.fileType) := by
  rw [after_concat]
  by_cases hcovered : r.Covers path
  · exact if_pos hcovered
  · have hnone : (FsView.after earlier).entry path = none := by
      rw [Option.eq_none_iff_forall_ne_some]
      intro x hx
      obtain ⟨r', hr', f', hf', habove⟩ := (covered_of_entry hx).resolve_left hne
      obtain ⟨f, hf, hid⟩ := hfewer r' hr' f' hf'
      exact hcovered ⟨f, hf, hid ▸ habove⟩
    have hfind : (r.listedRows.find? fun row => row.path = path) = none := by
      rw [List.find?_eq_none]
      intro row hrow hpath
      exact hcovered (of_decide_eq_true hpath ▸ covers_of_listed hrow)
    rw [hfind]
    exact (if_neg hcovered).trans hnone

/-- A number that the last refresh does not list is unknown, or gone. -/
theorem inode_of_unlisted
    (hfewer : ∀ r' ∈ earlier, ∀ f' ∈ r'.folders, ∃ f ∈ r.folders, f.folder.id = f'.folder.id)
    {ino : ℕ} (hroot : ino ≠ fuseRootId) (hnot : ∀ row ∈ r.listedRows, row.ino ≠ ino) :
    (FsView.after (earlier ++ [r])).inode ino = .gone ∧ WasListed earlier ino ∨
      (FsView.after (earlier ++ [r])).inode ino = .unknown ∧ ¬ WasListed earlier ino := by
  have hrecords := records_of_after earlier hroot
  have hfind : (r.listedRows.find? fun row => row.ino = ino) = none := by simpa using hnot
  rw [after_concat, FsView.refresh]
  simp only [hfind]
  generalize (FsView.after earlier).inode ino = state at hrecords ⊢
  cases state with
  | unknown => exact Or.inr ⟨rfl, hrecords⟩
  | gone => exact Or.inl ⟨rfl, hrecords⟩
  | present path fileType =>
      obtain ⟨hlisted, r', hr', f', hf', habove⟩ := hrecords
      obtain ⟨f, hf, hid⟩ := hfewer r' hr' f' hf'
      exact Or.inl ⟨if_pos ⟨f, hf, hid ▸ habove⟩, hlisted⟩

end Last

/-! ## Attributes of what is listed -/

/-- The kind of a file is that of its type. -/
theorem kind_of_attrFromFile {config : OwnerConfig} {f : GrizolFileInfo} {attr : FileAttr}
    (h : attrFromFile config f = .ok attr) : fileType f.fileInfo.type = .ok attr.kind := by
  obtain ⟨modifiedTs, -, h⟩ := Rust.bind_eq_ok.mp h
  obtain ⟨ino, -, h⟩ := Rust.bind_eq_ok.mp h
  obtain ⟨kind, hkind, h⟩ := Rust.bind_eq_ok.mp h
  obtain rfl := Except.ok.inj h
  exact hkind

section Attributes

variable (config : OwnerConfig) {r : Refresh}

/-- A listed row has attributes, with its number and its kind. -/
theorem attr_of_listed (h : Snapshot r.folders r.files) (htimes : ∀ f ∈ r.files, HasModifiedTime f)
    {row : ListedRow} (hrow : row ∈ r.listedRows) :
    ∃ attr, FsView.attr config row.fileType = .ok attr ∧ attr.ino = row.ino ∧
      FsView.kind row.fileType = .ok attr.kind := by
  rcases mem_listedRows.mp hrow with ⟨f, hf, rfl⟩ | ⟨f, hf, rfl⟩
  · have hid := topDirId_of_rows (h.rows.folders f hf)
    obtain ⟨attr, hattr, hino⟩ := attrFromFolder_eq config hid
    refine ⟨attr, hattr, hino, ?_⟩
    rw [attrFromFolder, hid] at hattr
    obtain rfl := Except.ok.inj hattr
    rfl
  · obtain ⟨kind, hkind⟩ := fileType_returns (h.types f hf)
    obtain ⟨attr, hattr, hino⟩ := attrFromFile_of_time config
      (entryId_of_nonneg (h.rows.files f hf)) hkind (htimes f hf)
    exact ⟨attr, hattr, hino, kind_of_attrFromFile hattr⟩

/-- The number of a row is its own. -/
theorem listed_ino_unique (h : NumberedRows r.folders r.files) {row row' : ListedRow}
    (hrow : row ∈ r.listedRows) (hrow' : row' ∈ r.listedRows) (hino : row.ino = row'.ino) :
    row = row' := by
  have hfolder : ∀ f ∈ r.folders, topDirId f.id = .ok (f.id.toUInt64.toNat + topDirsStart) :=
    fun f hf => topDirId_of_rows (h.folders f hf)
  have hfile : ∀ f ∈ r.files, entryId f.id = .ok (f.id.toUInt64.toNat + entriesStart) :=
    fun f hf => entryId_of_nonneg (h.files f hf)
  rcases mem_listedRows.mp hrow with ⟨f, hf, rfl⟩ | ⟨f, hf, rfl⟩
  · rcases mem_listedRows.mp hrow' with ⟨f', hf', rfl⟩ | ⟨f', hf', rfl⟩
    · have hid := topDirId_injective ((hfolder f hf).trans (congrArg _ hino)) (hfolder f' hf')
      rw [List.inj_on_of_nodup_map r.rows.folderRows hf hf' hid]
    · have hlt := (topDirId_bounds (hfolder f hf)).2
      dsimp only at hino
      omega
  · rcases mem_listedRows.mp hrow' with ⟨f', hf', rfl⟩ | ⟨f', hf', rfl⟩
    · have hlt := (topDirId_bounds (hfolder f' hf')).2
      dsimp only at hino
      omega
    · have hid := entryId_injective ((hfile f hf).trans (congrArg _ hino)) (hfile f' hf')
      rw [List.inj_on_of_nodup_map r.rows.fileRows hf hf' hid]

/-- What its number stands for after the refresh. -/
theorem inode_of_listed (h : NumberedRows r.folders r.files) {row : ListedRow}
    (hrow : row ∈ r.listedRows) (v : FsView) :
    (v.refresh r).inode row.ino = .present row.path row.fileType := by
  rw [FsView.refresh]
  dsimp only
  cases hfound : r.listedRows.find? fun row' => row'.ino = row.ino with
  | none => exact absurd (decide_eq_true rfl) (List.find?_eq_none.mp hfound row hrow)
  | some row' =>
      have hsame : row'.ino = row.ino := by simpa using List.find?_some hfound
      obtain rfl := listed_ino_unique h (List.mem_of_find?_eq_some hfound) hrow hsame
      rfl

/-- The lists answer with the attributes of a row. -/
theorem getattrDb_of_listed (h : Snapshot r.folders r.files) {row : ListedRow}
    (hrow : row ∈ r.listedRows) :
    getattrDb config r.folders r.files row.ino = Except.ok <$> FsView.attr config row.fileType := by
  rw [getattrDb, if_neg (root_lt_of_listed hrow).ne']
  rcases mem_listedRows.mp hrow with ⟨f, hf, rfl⟩ | ⟨f, hf, rfl⟩
  · have hid := topDirId_of_rows (h.rows.folders f hf)
    obtain ⟨f', hf', hfound, hid'⟩ := findId_of_mem
      (fun f hf => ⟨_, topDirId_of_rows (h.rows.folders f hf)⟩) hf hid
    obtain rfl := List.inj_on_of_nodup_map r.rows.folderRows hf hf' (topDirId_injective hid hid')
    rw [if_pos (topDirId_bounds hid).2, hfound]
    rfl
  · have hid := entryId_of_nonneg (h.rows.files f hf)
    obtain ⟨f', hf', hfound, hid'⟩ := findId_of_mem
      (fun f hf => ⟨_, entryId_of_nonneg (h.rows.files f hf)⟩) hf hid
    obtain rfl := List.inj_on_of_nodup_map r.rows.fileRows hf hf' (entryId_injective hid hid')
    rw [if_neg (not_lt.mpr (entriesStart_le hid)), hfound]
    rfl

/-- The lists do not know another number. -/
theorem getattrDb_of_unlisted (h : Snapshot r.folders r.files) {ino : ℕ} (hroot : ino ≠ fuseRootId)
    (hnot : ∀ row ∈ r.listedRows, row.ino ≠ ino) :
    getattrDb config r.folders r.files ino = .ok (.error .enoent) := by
  rw [getattrDb, if_neg hroot, findId_of_not_mem, findId_of_not_mem]
  · split_ifs
    · rfl
    · rfl
  · exact fun f hf => ⟨_, entryId_of_nonneg (h.rows.files f hf)⟩
  · exact fun f hf hid => hnot _ (mem_listedRows.mpr (Or.inr ⟨f, hf, rfl⟩)) (entryId_eq_ok hid)
  · exact fun f hf => ⟨_, topDirId_of_rows (h.rows.folders f hf)⟩
  · exact fun f hf hid =>
      hnot _ (mem_listedRows.mpr (Or.inl ⟨f, hf, rfl⟩)) (topDirId_eq_ok.mp hid).1

end Attributes

/-! ## The walk -/

section Walks

variable (config : OwnerConfig) {earlier : List Refresh} {r : Refresh}

/-- Where a path leads. -/
def numberAt (r : Refresh) (path : List String) : Except Errno ℕ :=
  match r.listedRows.find? fun row => row.path = path with
  | some row => .ok row.ino
  | none => .error .enoent

/-- Everything above a row is listed. -/
theorem listed_of_prefix (h : ParentsListed r.folders r.files) {row : ListedRow}
    (hrow : row ∈ r.listedRows) {path : List String} (hne : path ≠ []) (habove : path <+: row.path) :
    ∃ row' ∈ r.listedRows, row'.path = path := by
  rcases mem_listedRows.mp hrow with ⟨f, hf, rfl⟩ | ⟨f, hf, rfl⟩
  · have hlen : path.length ≤ 1 := habove.length_le
    have hpos := List.length_pos_of_ne_nil hne
    exact ⟨_, hrow, (habove.eq_of_length (by simp only [List.length_singleton]; omega)).symm⟩
  · have hlisted := h f hf path hne habove
    rw [listedPaths, List.mem_append, List.mem_map, List.mem_map] at hlisted
    rcases hlisted with ⟨g, hg, hpath⟩ | ⟨g, hg, hpath⟩
    · exact ⟨_, mem_listedRows.mpr (Or.inl ⟨g, hg, rfl⟩), hpath⟩
    · exact ⟨_, mem_listedRows.mpr (Or.inr ⟨g, hg, rfl⟩), hpath⟩

/-- A path is found as it is listed. -/
theorem numberAt_of_located (h : Snapshot r.folders r.files) {path : List String} {ino : ℕ}
    {kind : FileType} (hne : path ≠ []) (hlocated : Located r.folders r.files ino path kind) :
    numberAt r path = .ok ino := by
  obtain ⟨row, hrow, hpath, -, -⟩ := (located_iff_listed h.rows hne).mp hlocated
  rw [numberAt]
  cases hfound : r.listedRows.find? fun row => row.path = path with
  | none => exact absurd (decide_eq_true hpath) (List.find?_eq_none.mp hfound row hrow)
  | some row' =>
      have hpath' : row'.path = path := by simpa using List.find?_some hfound
      obtain ⟨kind', -, hlocated'⟩ := located_of_listed h (List.mem_of_find?_eq_some hfound)
      rw [hpath'] at hlocated'
      exact congrArg Except.ok (located_unique r.rows hlocated' hlocated).1

/-- A path below one that is not listed is not listed. -/
theorem numberAt_of_missing (h : Snapshot r.folders r.files) {path : List String}
    (hmissing : ¬ ∃ ino kind, Located r.folders r.files ino path kind) :
    numberAt r path = .error .enoent := by
  rw [numberAt]
  cases hfound : r.listedRows.find? fun row => row.path = path with
  | none => rfl
  | some row =>
      have hpath : row.path = path := by simpa using List.find?_some hfound
      obtain ⟨kind, -, hlocated⟩ := located_of_listed h (List.mem_of_find?_eq_some hfound)
      exact absurd ⟨_, kind, hpath ▸ hlocated⟩ hmissing

/-- **The walk goes where the path leads**: every reply names the directory of the next lookup. -/
theorem walk_of_last (h : Snapshot r.folders r.files) (htimes : ∀ f ∈ r.files, HasModifiedTime f)
    (hfewer : ∀ r' ∈ earlier, ∀ f' ∈ r'.folders, ∃ f ∈ r.folders, f.folder.id = f'.folder.id)
    (names : List String) : ∀ {ino : ℕ} {path : List String} {fileType : GrizolFSFileType},
      (FsView.after (earlier ++ [r])).inode ino = .present path fileType →
        walk ((FsView.after (earlier ++ [r])).lookup config) ino names =
          .ok (if names = [] then .ok ino else numberAt r (path ++ names)) := by
  induction names with
  | nil =>
      intro ino path fileType _
      rfl
  | cons name names ih =>
      intro ino path fileType hino
      have hne : path ++ [name] ≠ [] := List.append_ne_nil_of_right_ne_nil _ (List.cons_ne_nil _ _)
      have happend : path ++ name :: names = path ++ [name] ++ names := by simp
      rw [walk, FsView.lookup, if_neg (List.cons_ne_nil _ _), happend]
      simp only [hino]
      rw [entry_of_last hfewer hne]
      cases hfound : r.listedRows.find? fun row => row.path = path ++ [name] with
      | some row =>
          have hrow := List.mem_of_find?_eq_some hfound
          have hpath : row.path = path ++ [name] := by simpa using List.find?_some hfound
          obtain ⟨attr, hattr, hattrIno, -⟩ := attr_of_listed config h htimes hrow
          have hpresent : (FsView.after (earlier ++ [r])).inode row.ino =
              .present (path ++ [name]) row.fileType := by
            rw [after_concat, inode_of_listed h.rows hrow, hpath]
          rw [Option.map_some, replyEntry, hattr, Rust.ok_bind, Rust.pure_eq_ok, Rust.ok_bind]
          dsimp only
          rw [hattrIno, ih hpresent]
          by_cases hnil : names = []
          · rw [if_pos hnil, hnil, List.append_nil, numberAt, hfound]
          · rw [if_neg hnil]
      | none =>
          have hmissing : numberAt r (path ++ [name] ++ names) = .error .enoent := by
            refine numberAt_of_missing h ?_
            rintro ⟨ino', kind, hlocated⟩
            obtain ⟨row, hrow, hpath, -, -⟩ := (located_iff_listed h.rows
              (List.append_ne_nil_of_left_ne_nil hne names)).mp hlocated
            obtain ⟨row', hrow', hpath'⟩ := listed_of_prefix h.parents hrow hne
              (hpath ▸ List.prefix_append _ _)
            exact List.find?_eq_none.mp hfound row' hrow' (decide_eq_true hpath')
          rw [hmissing]
          rfl

/-- **What is listed is found, and nothing else**, after any refreshes of no other folders: a
path by walking down from the root, a number in the tree and in the lists alike. -/
theorem resolvesListed_of_run (h : Snapshot r.folders r.files)
    (htimes : ∀ f ∈ r.files, HasModifiedTime f)
    (hfewer : ∀ r' ∈ earlier, ∀ f' ∈ r'.folders, ∃ f ∈ r.folders, f.folder.id = f'.folder.id)
    {m : GrizolFsMem} (hrun : Transition.run afterRefresh .new (earlier ++ [r]) = some m) :
    ResolvesListed config r.folders r.files earlier m := by
  have hview := (viewOf_of_run hrun).2
  have hlookup : lookupMem config m = (FsView.after (earlier ++ [r])).lookup config := by
    rw [← hview]
    exact funext₂ (lookup_viewOf config m)
  have hgetattr : ∀ ino, getattrMem config m ino =
      (FsView.after (earlier ++ [r])).getattr config ino := by
    rw [← hview]
    exact getattr_viewOf config m
  have hwalk : ∀ path, walk (lookupMem config m) fuseRootId path =
      .ok (if path = [] then .ok fuseRootId else numberAt r path) := fun path => by
    rw [hlookup, walk_of_last config h htimes hfewer path (root_of_after _).2, List.nil_append]
  constructor
  · intro path ino kind hlocated
    by_cases hnil : path = []
    · subst hnil
      have hroot : ino = fuseRootId ∧ kind = .directory :=
        located_unique r.rows hlocated .root
      obtain ⟨rfl, rfl⟩ := hroot
      exact ⟨hwalk [], rootDirAttr config, by rw [getattrMem, if_pos rfl]; rfl,
        by rw [getattrDb, if_pos rfl]; rfl, rfl, rfl⟩
    · obtain ⟨row, hrow, rfl, rfl, hkind⟩ := (located_iff_listed h.rows hnil).mp hlocated
      obtain ⟨attr, hattr, hino, hkind'⟩ := attr_of_listed config h htimes hrow
      obtain rfl := Except.ok.inj (hkind.symm.trans hkind')
      refine ⟨?_, attr, ?_, ?_, hino, rfl⟩
      · rw [hwalk, if_neg hnil, numberAt_of_located h hnil hlocated]
      · rw [hgetattr, FsView.getattr, if_neg (root_lt_of_listed hrow).ne', after_concat,
          inode_of_listed h.rows hrow]
        dsimp only
        rw [hattr]
        rfl
      · rw [getattrDb_of_listed config h hrow, hattr]
        rfl
  · intro path hmissing
    have hne : path ≠ [] := by
      rintro rfl
      exact hmissing ⟨_, _, .root⟩
    rw [hwalk, if_neg hne, numberAt_of_missing h hmissing]
  · intro ino hmissing
    have hroot : ino ≠ fuseRootId := by
      rintro rfl
      exact hmissing ⟨_, _, .root⟩
    have hnot : ∀ row ∈ r.listedRows, row.ino ≠ ino := by
      rintro row hrow rfl
      obtain ⟨kind, -, hlocated⟩ := located_of_listed h hrow
      exact hmissing ⟨_, kind, hlocated⟩
    refine ⟨getattrDb_of_unlisted config h hroot hnot, ?_⟩
    rw [hgetattr, FsView.getattr, if_neg hroot]
    rcases inode_of_unlisted hfewer hroot hnot with ⟨hgone, hbefore⟩ | ⟨hunknown, hbefore⟩
    · simp only [hgone]
      exact (if_pos hbefore).symm
    · simp only [hunknown]
      exact (if_neg hbefore).symm

end Walks

/-- The nested files, after a refresh with other rows. -/
def nestedRefresh : Refresh where
  folders := [⟨{ id := "default" }, 1⟩]
  files := nestedFiles
  rows := databaseRows_of_listing listing_nested
  turns := 4

/-- Witness: the number of the row before panics in the tree. -/
theorem resolvesListed_of_run_nested :
    ∃ m, Transition.run afterRefresh .new ([firstRefresh] ++ [nestedRefresh]) = some m ∧
      ResolvesListed ⟨1000, 1000⟩ nestedRefresh.folders nestedRefresh.files [firstRefresh] m ∧
      getattrMem ⟨1000, 1000⟩ m (9 + entriesStart) = .error .unwrap := by
  obtain ⟨m, hm⟩ : ∃ m,
      Transition.run afterRefresh .new ([firstRefresh] ++ [nestedRefresh]) = some m :=
    Option.isSome_iff_exists.mp (by decide +kernel)
  have htimes : ∀ f ∈ nestedRefresh.files, HasModifiedTime f := by
    unfold HasModifiedTime
    decide +kernel
  have hunlisted : ∀ row ∈ nestedRefresh.listedRows, row.ino ≠ 9 + entriesStart := by
    decide +kernel
  have hresolves := resolvesListed_of_run ⟨1000, 1000⟩ snapshot_nested htimes (by decide) hm
  refine ⟨m, hm, hresolves, ?_⟩
  rw [(hresolves.unlisted (9 + entriesStart) ?_).2, if_pos (by decide)]
  rintro ⟨path, kind, hlocated⟩
  have hne : path ≠ [] := by
    rintro rfl
    cases (located_unique nestedRefresh.rows hlocated .root).1
  obtain ⟨row, hrow, -, hino, -⟩ := (located_iff_listed snapshot_nested.rows hne).mp hlocated
  exact hunlisted row hrow hino

end Grizol.Analysis
