import Grizol.Analysis.Listings
import Grizol.Interface.RefreshedTrees

/-!
# What a refresh leaves of the tree before

A refresh puts a new node in the place of every listed folder, and everything below is new
then. What was elsewhere stays, and so do the entries of the index that are not written
again: those of the listed folders name nodes that are gone.
-/

set_option autoImplicit false

namespace Grizol.Analysis

open Grizol.Library
open Grizol.Model Grizol.Model.Syncthing Grizol.Interface

open GrizolFsMem (splitPath)

/-! ## A refresh that ended -/

section Ended

variable {m m' : GrizolFsMem}

/-- More turns than are needed change nothing. -/
theorem insertFiles_succ (fuel : ℕ) : ∀ {files : List GrizolFileInfo} {m : GrizolFsMem},
    insertFiles fuel files m = .ok m' → insertFiles (fuel + 1) files m = .ok m' := by
  induction fuel with
  | zero =>
      intro files m h
      cases files with
      | nil => exact h
      | cons f files => cases h
  | succ fuel ih =>
      intro files m h
      cases files with
      | nil => exact h
      | cons f files =>
          by_cases hready : ParentsIn m f
          · cases hid : entryId f.id with
            | error e =>
                rw [insertFiles, insertFile_of_no_number hready hid] at h
                cases h
            | ok id =>
                rw [insertFiles, insertFile_of_parents hready hid, Rust.ok_bind] at h ⊢
                exact ih h
          · rw [insertFiles, insertFile_of_no_parent hready, Rust.ok_bind] at h ⊢
            exact ih h

/-- With more turns the result is the same. -/
theorem insertFiles_add {fuel : ℕ} {files : List GrizolFileInfo}
    (h : insertFiles fuel files m = .ok m') (more : ℕ) :
    insertFiles (fuel + more) files m = .ok m' := by
  induction more with
  | zero => exact h
  | succ more ih => exact insertFiles_succ (fuel + more) ih

/-- The tree does not depend on the turns the loop is given. -/
theorem insertFiles_unique {fuel fuel' : ℕ} {files : List GrizolFileInfo} {m'' : GrizolFsMem}
    (h : insertFiles fuel files m = .ok m') (h' : insertFiles fuel' files m = .ok m'') :
    m' = m'' := by
  have hmore := insertFiles_add h fuel'
  rw [Nat.add_comm, insertFiles_add h' fuel] at hmore
  exact (Except.ok.inj hmore).symm

/-- One induction for what holds of every file that was inserted, at the time it was. -/
theorem insertFiles_induction {motive : List GrizolFileInfo → GrizolFsMem → Prop}
    (nil : motive [] m')
    (insert : ∀ {f : GrizolFileInfo} {files : List GrizolFileInfo} {m : GrizolFsMem} {id : ℕ},
      ParentsIn m f → entryId f.id = .ok id →
        motive files (m.insertNode (splitPath f) id (.file f)) → motive (f :: files) m)
    (rotate : ∀ {f : GrizolFileInfo} {files : List GrizolFileInfo} {m : GrizolFsMem},
      motive (files ++ [f]) m → motive (f :: files) m)
    (fuel : ℕ) : ∀ {files : List GrizolFileInfo} {m : GrizolFsMem},
      insertFiles fuel files m = .ok m' → motive files m := by
  induction fuel with
  | zero =>
      intro files m h
      cases files with
      | nil =>
          obtain rfl := Except.ok.inj h
          exact nil
      | cons f files => cases h
  | succ fuel ih =>
      intro files m h
      cases files with
      | nil =>
          obtain rfl := Except.ok.inj h
          exact nil
      | cons f files =>
          by_cases hready : ParentsIn m f
          · cases hid : entryId f.id with
            | error e =>
                rw [insertFiles, insertFile_of_no_number hready hid] at h
                cases h
            | ok id =>
                rw [insertFiles, insertFile_of_parents hready hid, Rust.ok_bind] at h
                exact insert hready hid (ih h)
          · rw [insertFiles, insertFile_of_no_parent hready, Rust.ok_bind] at h
            exact rotate (ih h)

/-- The files had inode numbers. -/
theorem ids_of_insertFiles {fuel : ℕ} {files : List GrizolFileInfo}
    (h : insertFiles fuel files m = .ok m') : ∀ f ∈ files, ∃ id, entryId f.id = .ok id := by
  refine insertFiles_induction (motive := fun files _ => ∀ f ∈ files, ∃ id, entryId f.id = .ok id)
    ?_ ?_ ?_ fuel h
  · simp
  · intro f files m id _ hid hrest
    exact List.forall_mem_cons.mpr ⟨⟨id, hid⟩, hrest⟩
  · intro f files m hrest
    exact List.forall_mem_cons.mpr ⟨hrest f (by simp), fun g hg => hrest g (by simp [hg])⟩

/-- What is above a file was in the tree, or came with it. -/
theorem parents_of_insertFiles {fuel : ℕ} {files : List GrizolFileInfo}
    (h : insertFiles fuel files m = .ok m') :
    ∀ f ∈ files, ∀ p, p ≠ [] → p <+: (splitPath f).dropLast →
      m.tree.contains p = true ∨ ∃ g ∈ files, splitPath g = p := by
  refine insertFiles_induction (motive := fun files m => ∀ f ∈ files, ∀ p, p ≠ [] →
    p <+: (splitPath f).dropLast → m.tree.contains p = true ∨ ∃ g ∈ files, splitPath g = p)
    ?_ ?_ ?_ fuel h
  · simp
  · intro f files m id hready _ hrest
    refine List.forall_mem_cons.mpr ⟨fun p hp habove => Or.inl (hready p hp habove), ?_⟩
    intro g hg p hp habove
    rcases hrest g hg p hp habove with hin | ⟨k, hk, hpath⟩
    · obtain ⟨node, hnode⟩ := AssocMap.contains_iff.mp hin
      rw [get_insertNode] at hnode
      split_ifs at hnode with hself hbelow
      · exact Or.inr ⟨f, List.mem_cons_self, hself.symm⟩
      · exact Or.inl (AssocMap.contains_iff.mpr ⟨node, hnode⟩)
    · exact Or.inr ⟨k, List.mem_cons_of_mem _ hk, hpath⟩
  · intro f files m hrest
    have hall : ∀ g ∈ f :: files, g ∈ files ++ [f] := by simp [or_comm]
    have hback : ∀ g ∈ files ++ [f], g ∈ f :: files := by simp [or_comm]
    intro g hg p hp habove
    refine (hrest g (hall g hg) p hp habove).imp_right ?_
    rintro ⟨k, hk, hpath⟩
    exact ⟨k, hback k hk, hpath⟩

variable {folders : List GrizolFolder} {files : List GrizolFileInfo}

/-- The two loops of a refresh that ended. -/
theorem refreshFoldersFiles_eq_ok {fuel : ℕ} :
    refreshFoldersFiles fuel folders files m = .ok m' ↔
      ∃ m₁, insertFolders folders m = .ok m₁ ∧ insertFiles fuel files m₁ = .ok m' := by
  rw [refreshFoldersFiles]
  cases insertFolders folders m with
  | error e => simp
  | ok m₁ => simp

/-- A refresh of rows of the database that ends has found all parents among them. -/
theorem parentsListed_of_ended (hrows : DatabaseRows folders files) {m₁ : GrizolFsMem} {fuel : ℕ}
    (hfolders : FoldersLoaded m folders m₁) (h : insertFiles fuel files m₁ = .ok m') :
    ParentsListed folders files := by
  intro file hfile path hne habove
  rw [listedPaths, List.mem_append, List.mem_map, List.mem_map]
  by_cases hself : path = splitPath file
  · exact Or.inr ⟨file, hfile, hself.symm⟩
  rcases parents_of_insertFiles h file hfile path hne (prefix_dropLast habove hself) with
    hin | hlisted
  · obtain ⟨folder, hfolder, hid⟩ := hrows.inFolder file hfile
    refine Or.inl ⟨folder, hfolder, ?_⟩
    have hbelow : [folder.folder.id] <+: path := by
      obtain ⟨top, rest, rfl⟩ := List.exists_cons_of_ne_nil hne
      rw [hid, ← (List.cons_prefix_cons.mp habove).1]
      exact ⟨rest, rfl⟩
    by_contra htop
    obtain ⟨node, hnode⟩ := AssocMap.contains_iff.mp hin
    rw [hfolders.below folder hfolder path hbelow (Ne.symm htop)] at hnode
    cases hnode
  · exact Or.inr hlisted

/-- **A refresh that ends has loaded the folders and the files.** -/
theorem loaded_of_ended (hrows : DatabaseRows folders files) {fuel : ℕ}
    (h : refreshFoldersFiles fuel folders files m = .ok m') :
    ParentsListed folders files ∧
      ∃ m₁, insertFolders folders m = .ok m₁ ∧ insertFiles fuel files m₁ = .ok m' ∧
        FoldersLoaded m folders m₁ ∧ Loaded m₁ files m' := by
  obtain ⟨m₁, hfirst, hsecond⟩ := refreshFoldersFiles_eq_ok.mp h
  have hnumbered : ∀ f ∈ folders, ∃ id, topDirId f.id = .ok id := by
    rcases insertFolders_cases folders m with ⟨e, hstop, -⟩ | hnumbered
    · rw [hfirst] at hstop
      cases hstop
    · exact hnumbered
  obtain ⟨m₂, hrun, hfolders⟩ := insertFolders_loads folders m hrows.folderIds hrows.folderRows
    hnumbered
  obtain rfl : m₁ = m₂ := Except.ok.inj (hfirst.symm.trans hrun)
  have hparents := parentsListed_of_ended hrows hfolders hsecond
  obtain ⟨fuel', m₂, hends, hfiles⟩ := insertFiles_loads files.length rfl
    ⟨waiting_of_parentsListed hparents hrows.names hfolders, ids_of_insertFiles hsecond,
      hrows.fileRows⟩
  obtain rfl := insertFiles_unique hsecond hends
  exact ⟨hparents, m₁, hfirst, hsecond, hfolders, hfiles⟩

/-- What every new node in one of the folders preserves is preserved by a refresh. -/
theorem refresh_invariant (Inv : GrizolFsMem → Prop)
    (hinsert : ∀ m top rest id fileType, (∃ f ∈ folders, f.folder.id = top) → fuseRootId < id →
      Inv m → Inv (m.insertNode (top :: rest) id fileType))
    (hinFolder : ∀ file ∈ files, ∃ folder ∈ folders, folder.folder.id = file.folder) {fuel : ℕ}
    (h : refreshFoldersFiles fuel folders files m = .ok m') (hm : Inv m) : Inv m' := by
  obtain ⟨m₁, hfirst, hsecond⟩ := refreshFoldersFiles_eq_ok.mp h
  have hfolders : ∀ listed : List GrizolFolder, (∀ f ∈ listed, f ∈ folders) → ∀ m m₁,
      insertFolders listed m = .ok m₁ → Inv m → Inv m₁ := by
    intro listed
    induction listed with
    | nil =>
        intro _ m m₁ hrun hm
        obtain rfl := Except.ok.inj hrun
        exact hm
    | cons f listed ih =>
        intro hlisted m m₁ hrun hm
        obtain ⟨hf, hlisted⟩ := List.forall_mem_cons.mp hlisted
        rw [insertFolders, GrizolFsMem.insertFolder] at hrun
        cases hid : topDirId f.id with
        | error e =>
            rw [hid] at hrun
            cases hrun
        | ok id =>
            rw [hid] at hrun
            exact ih hlisted _ m₁ hrun
              (hinsert m f.folder.id [] id _ ⟨f, hf, rfl⟩ (topDirId_bounds hid).1 hm)
  refine insertFiles_induction (motive := fun queue m =>
    (∀ file ∈ queue, file ∈ files) → Inv m → Inv m') ?_ ?_ ?_ fuel hsecond (fun _ hf => hf)
    (hfolders folders (fun _ hf => hf) m m₁ hfirst hm)
  · exact fun _ hm => hm
  · intro f queue m id _ hid hrest hlisted hm
    obtain ⟨hf, hlisted⟩ := List.forall_mem_cons.mp hlisted
    have hroot : fuseRootId < id := lt_of_lt_of_le (by decide) (entriesStart_le hid)
    exact hrest hlisted (hinsert m f.folder (Path.split f.fileInfo.name) id _ (hinFolder f hf)
      hroot hm)
  · intro f queue m hrest hlisted hm
    exact hrest (fun g hg => hlisted g (by simpa [or_comm] using hg)) hm

end Ended

/-! ## Every tree that refreshes leave -/

/-- The root has its number, and no entry of the index names a node that is still to come. -/
structure Rooted (m : GrizolFsMem) : Prop where
  root : ∃ serial fileType, m.tree.get [] = some ⟨serial, fuseRootId, fileType⟩ ∧
    m.nodes.get fuseRootId = some ⟨[], serial⟩
  counted : ∀ ino weak, m.nodes.get ino = some weak → weak.serial < m.created

/-- Below the root there are no other folders than these. -/
def Inside (folders : List GrizolFolder) (m : GrizolFsMem) : Prop :=
  ∀ p node, m.tree.get p = some node → p = [] ∨ ∃ f ∈ folders, [f.folder.id] <+: p

/-- The new tree has its root. -/
theorem rooted_new : Rooted .new := by
  refine ⟨⟨0, .folder ⟨{}, 1⟩, ?_, ?_⟩, ?_⟩
  · rw [GrizolFsMem.new, get_insertNode, if_pos rfl]
  · rw [GrizolFsMem.new, nodes_insertNode, if_pos rfl]
  · intro ino weak hweak
    rw [GrizolFsMem.new, nodes_insertNode] at hweak
    split_ifs at hweak
    · obtain rfl := Option.some.inj hweak
      exact Nat.zero_lt_one
    · cases hweak

/-- And nothing else. -/
theorem inside_new (folders : List GrizolFolder) : Inside folders .new := by
  intro p node hnode
  rw [GrizolFsMem.new, get_insertNode] at hnode
  split_ifs at hnode with hnil hbelow
  · exact Or.inl hnil
  · cases hnode

/-- A node below the root leaves it. -/
theorem rooted_insertNode {m : GrizolFsMem} (h : Rooted m) (top : String) (rest : List String)
    {id : ℕ} (fileType : GrizolFSFileType) (hid : fuseRootId < id) :
    Rooted (m.insertNode (top :: rest) id fileType) := by
  obtain ⟨serial, rootType, hnode, hweak⟩ := h.root
  refine ⟨⟨serial, rootType, ?_, ?_⟩, ?_⟩
  · rw [get_insertNode, if_neg (List.cons_ne_nil _ _).symm, if_neg (by simp), hnode]
  · rw [nodes_insertNode, if_neg (Nat.ne_of_lt hid), hweak]
  · intro ino weak hget
    rw [nodes_insertNode] at hget
    show weak.serial < m.created + 1
    split_ifs at hget
    · obtain rfl := Option.some.inj hget
      exact Nat.lt_succ_self _
    · exact Nat.lt_succ_of_lt (h.counted ino weak hget)

/-- A node of a folder is inside it. -/
theorem inside_insertNode {folders : List GrizolFolder} {m : GrizolFsMem} (h : Inside folders m)
    {top : String} (htop : ∃ f ∈ folders, f.folder.id = top) (rest : List String) (id : ℕ)
    (fileType : GrizolFSFileType) : Inside folders (m.insertNode (top :: rest) id fileType) := by
  intro p node hnode
  rw [get_insertNode] at hnode
  split_ifs at hnode with hself hbelow
  · obtain ⟨f, hf, rfl⟩ := htop
    exact Or.inr ⟨f, hf, hself ▸ ⟨rest, rfl⟩⟩
  · exact h p node hnode

/-- What is in no listed folder is as before. -/
theorem elsewhere_insertNode {folders : List GrizolFolder} {m m₀ : GrizolFsMem}
    (h : ∀ p, (¬ ∃ f ∈ folders, [f.folder.id] <+: p) → m.tree.get p = m₀.tree.get p)
    {top : String} (htop : ∃ f ∈ folders, f.folder.id = top) (rest : List String) (id : ℕ)
    (fileType : GrizolFSFileType) (p : List String)
    (hp : ¬ ∃ f ∈ folders, [f.folder.id] <+: p) :
    (m.insertNode (top :: rest) id fileType).tree.get p = m₀.tree.get p := by
  obtain ⟨f, hf, rfl⟩ := htop
  have happart : ¬ (f.folder.id :: rest) <+: p := fun hbelow =>
    hp ⟨f, hf, List.IsPrefix.trans ⟨rest, rfl⟩ hbelow⟩
  have hne : p ≠ f.folder.id :: rest := fun heq => happart (heq ▸ List.prefix_refl _)
  rw [get_insertNode, if_neg hne, if_neg happart, h p hp]

section Steps

variable {m m' : GrizolFsMem} {r : Refresh}

/-- A refresh that returns within its turns. -/
theorem afterRefresh_eq_some :
    afterRefresh m r = some m' ↔ refreshFoldersFiles r.turns r.folders r.files m = .ok m' := by
  rw [afterRefresh]
  cases refreshFoldersFiles r.turns r.folders r.files m with
  | error e => simp [Except.toOption]
  | ok m₁ => simp [Except.toOption]

/-- It leaves the root. -/
theorem rooted_afterRefresh (h : afterRefresh m r = some m') (hm : Rooted m) : Rooted m' :=
  refresh_invariant Rooted (fun _ top rest _ fileType _ hid hm =>
    rooted_insertNode hm top rest fileType hid) r.rows.inFolder (afterRefresh_eq_some.mp h) hm

/-- And inserts only nodes of its folders. -/
theorem inside_afterRefresh {folders : List GrizolFolder} (h : afterRefresh m r = some m')
    (hfewer : ∀ f ∈ r.folders, ∃ f' ∈ folders, f'.folder.id = f.folder.id)
    (hm : Inside folders m) : Inside folders m' := by
  refine refresh_invariant (Inside folders) ?_ r.rows.inFolder (afterRefresh_eq_some.mp h) hm
  rintro m _ rest id fileType ⟨f, hf, rfl⟩ _ hm
  exact inside_insertNode hm (hfewer f hf) rest id fileType

/-- **What a refresh leaves alone.** -/
theorem elsewhere_afterRefresh (h : afterRefresh m r = some m') (p : List String)
    (hp : ¬ ∃ f ∈ r.folders, [f.folder.id] <+: p) : m'.tree.get p = m.tree.get p :=
  refresh_invariant
    (fun m' => ∀ p, (¬ ∃ f ∈ r.folders, [f.folder.id] <+: p) → m'.tree.get p = m.tree.get p)
    (fun _ _ rest id fileType htop _ hm => elsewhere_insertNode hm htop rest id fileType)
    r.rows.inFolder (afterRefresh_eq_some.mp h) (fun _ _ => rfl) p hp

/-- The nodes at these paths are no older than this. -/
def Since (start : ℕ) (paths : List String → Prop) (m : GrizolFsMem) : Prop :=
  start ≤ m.created ∧ ∀ p node, paths p → m.tree.get p = some node → start ≤ node.serial

/-- A node that is inserted is newer than what was there. -/
theorem since_insertNode {start : ℕ} {paths : List String → Prop} (h : Since start paths m)
    (path : List String) (id : ℕ) (fileType : GrizolFSFileType) :
    Since start (fun p => paths p ∨ path <+: p) (m.insertNode path id fileType) := by
  refine ⟨h.1.trans (Nat.le_succ m.created), fun p node hp hnode => ?_⟩
  rw [get_insertNode] at hnode
  split_ifs at hnode with hself hbelow
  · obtain rfl := Option.some.inj hnode
    exact h.1
  · exact h.2 p node (hp.resolve_right hbelow) hnode

/-- So are several. -/
theorem since_insertFolders {start : ℕ} (folders : List GrizolFolder) :
    ∀ {paths : List String → Prop} {m m₁ : GrizolFsMem}, Since start paths m →
      insertFolders folders m = .ok m₁ →
        Since start (fun p => paths p ∨ ∃ f ∈ folders, [f.folder.id] <+: p) m₁ := by
  induction folders with
  | nil =>
      intro paths m m₁ hm hrun
      obtain rfl := Except.ok.inj hrun
      exact ⟨hm.1, fun p node hp => hm.2 p node (by simpa using hp)⟩
  | cons f folders ih =>
      intro paths m m₁ hm hrun
      rw [insertFolders, GrizolFsMem.insertFolder] at hrun
      cases hid : topDirId f.id with
      | error e =>
          rw [hid] at hrun
          cases hrun
      | ok id =>
          rw [hid] at hrun
          have hrest := ih (since_insertNode hm [f.folder.id] id (.folder f)) hrun
          refine ⟨hrest.1, fun p node hp => hrest.2 p node ?_⟩
          simpa only [List.mem_cons, exists_eq_or_imp, or_assoc] using hp

/-- **Everything in a listed folder is new after a refresh.** -/
theorem since_afterRefresh (h : afterRefresh m r = some m') {p : List String} {node : FsNode}
    (hp : ∃ f ∈ r.folders, [f.folder.id] <+: p) (hnode : m'.tree.get p = some node) :
    m.created ≤ node.serial := by
  obtain ⟨m₁, hfirst, hsecond⟩ := refreshFoldersFiles_eq_ok.mp (afterRefresh_eq_some.mp h)
  have hfolders : Since m.created (fun p => False ∨ ∃ f ∈ r.folders, [f.folder.id] <+: p) m₁ :=
    since_insertFolders r.folders ⟨le_rfl, fun p node hnone => hnone.elim⟩ hfirst
  have hfiles := insertFiles_induction
    (motive := fun _ k =>
      Since m.created (fun p => False ∨ ∃ f ∈ r.folders, [f.folder.id] <+: p) k →
        Since m.created (fun p => False ∨ ∃ f ∈ r.folders, [f.folder.id] <+: p) m')
    (fun hm => hm)
    (fun {f _ _ id} _ _ hrest hm => hrest
      ⟨(since_insertNode hm (splitPath f) id (.file f)).1, fun p node hp =>
        (since_insertNode hm (splitPath f) id (.file f)).2 p node (Or.inl hp)⟩)
    (fun hrest => hrest) r.turns hsecond
  exact (hfiles hfolders).2 p node (Or.inr hp) hnode

end Steps

/-! ## The tree of a listing -/

/-- What can be reached is in the tree. -/
theorem get_of_reachable {m : GrizolFsMem} {path : List String} {node : FsNode}
    (h : Reachable m path node) : m.tree.get path = some node := by
  cases h with
  | root hnode => exact hnode
  | child _ hchild => exact mem_children.mp hchild

/-- A node is reachable when everything above it is there. -/
theorem reachable_of_prefixes {m : GrizolFsMem} (path : List String) : ∀ {node : FsNode},
    (∀ p, p <+: path → m.tree.contains p = true) → m.tree.get path = some node →
      Reachable m path node := by
  induction path using List.reverseRecOn with
  | nil => exact fun _ hnode => .root hnode
  | append_singleton path name ih =>
      intro node habove hnode
      obtain ⟨parent, hparent⟩ := AssocMap.contains_iff.mp
        (habove path (List.prefix_append path [name]))
      exact .child (ih (fun p hp => habove p (hp.trans (List.prefix_append path [name]))) hparent)
        (mem_children.mpr hnode)

section Listed

variable {folders : List GrizolFolder} {files : List GrizolFileInfo} {m m₁ m' : GrizolFsMem}

/-- What is at a path of the tree after a refresh, and how it is found. -/
theorem node_cases (hm : Rooted m') (hinside : Inside folders m)
    (hfolders : FoldersLoaded m folders m₁) (hfiles : Loaded m₁ files m') {p : List String}
    {node : FsNode} (hnode : m'.tree.get p = some node) :
    (p = [] ∧ node.id = fuseRootId ∨
      (∃ f ∈ folders, [f.folder.id] = p ∧ topDirId f.id = .ok node.id) ∨
        ∃ f ∈ files, splitPath f = p ∧ entryId f.id = .ok node.id) ∧
      m'.nodes.get node.id = some ⟨p, node.serial⟩ := by
  rcases path_of_loaded hfolders hfiles hnode with ⟨f, hf, rfl⟩ | ⟨f, hf, rfl⟩ | ⟨hnone, hbefore⟩
  · obtain ⟨id, serial, hid, hget, hweak⟩ := folder_of_loaded hfolders hfiles f hf
    obtain rfl := Option.some.inj (hnode.symm.trans hget)
    exact ⟨Or.inr (Or.inl ⟨f, hf, rfl, hid⟩), hweak⟩
  · obtain ⟨id, serial, hid, hget, hweak⟩ := hfiles.file f hf
    obtain rfl := Option.some.inj (hnode.symm.trans hget)
    exact ⟨Or.inr (Or.inr ⟨f, hf, rfl, hid⟩), hweak⟩
  · obtain rfl := (hinside p node hbefore).resolve_right hnone
    obtain ⟨serial, fileType, hget, hweak⟩ := hm.root
    obtain rfl := Option.some.inj (hnode.symm.trans hget)
    exact ⟨Or.inl ⟨rfl, rfl⟩, hweak⟩

/-- The number of a node tells where it is. -/
theorem path_of_inode (hrows : DatabaseRows folders files) {p p' : List String} {ino : ℕ}
    (h : p = [] ∧ ino = fuseRootId ∨
      (∃ f ∈ folders, [f.folder.id] = p ∧ topDirId f.id = .ok ino) ∨
        ∃ f ∈ files, splitPath f = p ∧ entryId f.id = .ok ino)
    (h' : p' = [] ∧ ino = fuseRootId ∨
      (∃ f ∈ folders, [f.folder.id] = p' ∧ topDirId f.id = .ok ino) ∨
        ∃ f ∈ files, splitPath f = p' ∧ entryId f.id = .ok ino) : p = p' := by
  have hroot : ∀ {id : Int64}, ¬ (ino = fuseRootId ∧ topDirId id = .ok ino) := fun ⟨hino, hid⟩ =>
    absurd (topDirId_bounds hid).1 (hino ▸ lt_irrefl _)
  have hroot' : ∀ {id : Int64}, ¬ (ino = fuseRootId ∧ entryId id = .ok ino) := fun ⟨hino, hid⟩ =>
    absurd (entriesStart_le hid) (by rw [hino]; decide)
  have hranges : ∀ {id id' : Int64}, ¬ (topDirId id = .ok ino ∧ entryId id' = .ok ino) :=
    fun ⟨hid, hid'⟩ => absurd (topDirId_bounds hid).2 (not_lt.mpr (entriesStart_le hid'))
  rcases h with ⟨rfl, hino⟩ | ⟨f, hf, rfl, hid⟩ | ⟨f, hf, rfl, hid⟩
  · rcases h' with ⟨rfl, -⟩ | ⟨g, -, -, hid'⟩ | ⟨g, -, -, hid'⟩
    · rfl
    · exact absurd ⟨hino, hid'⟩ hroot
    · exact absurd ⟨hino, hid'⟩ hroot'
  · rcases h' with ⟨-, hino⟩ | ⟨g, hg, rfl, hid'⟩ | ⟨g, -, -, hid'⟩
    · exact absurd ⟨hino, hid⟩ hroot
    · rw [List.inj_on_of_nodup_map hrows.folderRows hf hg (topDirId_injective hid hid')]
    · exact absurd ⟨hid, hid'⟩ hranges
  · rcases h' with ⟨-, hino⟩ | ⟨g, -, -, hid'⟩ | ⟨g, hg, rfl, hid'⟩
    · exact absurd ⟨hino, hid⟩ hroot'
    · exact absurd ⟨hid', hid⟩ hranges
    · rw [List.inj_on_of_nodup_map hrows.fileRows hf hg (entryId_injective hid hid')]

/-- Everything above what is listed is in the tree. -/
theorem contains_of_listed (hm : Rooted m') (hparents : ParentsListed folders files)
    (hfolders : FoldersLoaded m folders m₁) (hfiles : Loaded m₁ files m') {path : List String}
    (hpath : path ∈ listedPaths folders files) :
    ∀ p, p <+: path → m'.tree.contains p = true := by
  have hlisted : ∀ p ∈ listedPaths folders files, m'.tree.contains p = true := by
    intro p hp
    rw [listedPaths, List.mem_append, List.mem_map, List.mem_map] at hp
    rcases hp with ⟨f, hf, rfl⟩ | ⟨f, hf, rfl⟩
    · obtain ⟨id, serial, -, hnode, -⟩ := folder_of_loaded hfolders hfiles f hf
      exact AssocMap.contains_iff.mpr ⟨_, hnode⟩
    · obtain ⟨id, serial, -, hnode, -⟩ := hfiles.file f hf
      exact AssocMap.contains_iff.mpr ⟨_, hnode⟩
  intro p hp
  by_cases hnil : p = []
  · obtain ⟨serial, fileType, hroot, -⟩ := hm.root
    exact hnil ▸ AssocMap.contains_iff.mpr ⟨_, hroot⟩
  apply hlisted
  have hself := hpath
  rw [listedPaths, List.mem_append, List.mem_map, List.mem_map] at hpath
  rcases hpath with ⟨f, hf, rfl⟩ | ⟨f, hf, rfl⟩
  · have hlen := hp.length_le
    have hpos := List.length_pos_of_ne_nil hnil
    rwa [hp.eq_of_length (by simp only [List.length_cons, List.length_nil] at hlen ⊢; omega)]
  · exact hparents f hf p hnil hp

/-- **The tree is that of the lists**, when there were no other folders in it. -/
theorem treeOf_of_loaded (hrows : DatabaseRows folders files)
    (hparents : ParentsListed folders files) (hm : Rooted m') (hinside : Inside folders m)
    (hfolders : FoldersLoaded m folders m₁) (hfiles : Loaded m₁ files m') :
    TreeOf folders files m' where
  root := by
    obtain ⟨serial, fileType, hroot, -⟩ := hm.root
    exact ⟨serial, fileType, .root hroot⟩
  folder f hf := by
    obtain ⟨id, serial, hid, hnode, -⟩ := folder_of_loaded hfolders hfiles f hf
    exact ⟨serial, id, hid, reachable_of_prefixes _ (contains_of_listed hm hparents hfolders hfiles
      (List.mem_append_left _ (List.mem_map_of_mem hf))) hnode⟩
  file f hf := by
    obtain ⟨id, serial, hid, hnode, -⟩ := hfiles.file f hf
    exact ⟨serial, id, hid, reachable_of_prefixes _ (contains_of_listed hm hparents hfolders hfiles
      (List.mem_append_right _ (List.mem_map_of_mem hf))) hnode⟩
  only path node hnode := by
    rcases (node_cases hm hinside hfolders hfiles (get_of_reachable hnode)).1 with
      ⟨rfl, -⟩ | ⟨f, hf, rfl, -⟩ | ⟨f, hf, rfl, -⟩
    · exact Or.inl rfl
    · exact Or.inr (List.mem_append_left _ (List.mem_map_of_mem hf))
    · exact Or.inr (List.mem_append_right _ (List.mem_map_of_mem hf))
  unique path path' node node' hnode hnode' := by
    have hget := get_of_reachable hnode
    have hget' := get_of_reachable hnode'
    refine ⟨?_, fun hsame => ?_⟩
    · rintro rfl
      exact Option.some.inj (hget.symm.trans hget')
    · refine path_of_inode hrows (node_cases hm hinside hfolders hfiles hget).1 ?_
      rw [hsame]
      exact (node_cases hm hinside hfolders hfiles hget').1
  resolved path node hnode := by
    have hget := get_of_reachable hnode
    refine ⟨_, (node_cases hm hinside hfolders hfiles hget).2, rfl, ?_⟩
    rw [GrizolFsMem.upgrade, hget, Option.filter_some, if_pos (by simp)]

end Listed

/-! ## Refreshes in a row -/

/-- What refreshes of no other folders leave. -/
theorem rooted_inside_of_run {folders : List GrizolFolder} {earlier : List Refresh}
    (hfewer : ∀ r ∈ earlier, ∀ f ∈ r.folders, ∃ f' ∈ folders, f'.folder.id = f.folder.id)
    {m : GrizolFsMem} (hm : Transition.run afterRefresh .new earlier = some m) :
    Rooted m ∧ Inside folders m := by
  refine Transition.invariant_run_of_meets (fun m => Rooted m ∧ Inside folders m)
    ⟨rooted_new, inside_new folders⟩ ?_ (Transition.meets_of_forall_mem hfewer _) hm
  intro m r m' hm hr hstep
  exact ⟨rooted_afterRefresh hstep hm.1, inside_afterRefresh hstep hr hm.2⟩

/-- A listing has rows as the database has them. -/
theorem databaseRows_of_listing {folders : List GrizolFolder} {files : List GrizolFileInfo}
    (h : Listing folders files) : DatabaseRows folders files where
  folderIds := h.folderIds
  folderRows := h.folderRows
  names := h.names
  fileRows := h.fileRows
  inFolder _ hf := folder_of_file h.parents hf

/-- A refresh of a tree without other folders shows what is listed. -/
theorem exists_treeOf {folders : List GrizolFolder} {files : List GrizolFileInfo}
    (h : Listing folders files) {m : GrizolFsMem} (hm : Rooted m) (hinside : Inside folders m) :
    ∃ fuel m', refreshFoldersFiles fuel folders files m = .ok m' ∧ TreeOf folders files m' := by
  obtain ⟨fuel, m₁, m', hrun, hfolders, hfiles⟩ := refreshFoldersFiles_loads h m
  have hrows := databaseRows_of_listing h
  have hrooted : Rooted m' := @rooted_afterRefresh m m' ⟨folders, files, hrows, fuel⟩
    (afterRefresh_eq_some.mpr hrun) hm
  exact ⟨fuel, m', hrun, treeOf_of_loaded hrows h.parents hrooted hinside hfolders hfiles⟩

/-- **A refresh ends and shows what is listed**, after any refreshes of no other folders and in
whatever order the files come. -/
theorem refresh_shows {folders : List GrizolFolder} {files : List GrizolFileInfo}
    (h : Listing folders files) {earlier : List Refresh}
    (hfewer : ∀ r ∈ earlier, ∀ f ∈ r.folders, ∃ f' ∈ folders, f'.folder.id = f.folder.id)
    {m : GrizolFsMem} (hm : Transition.run afterRefresh .new earlier = some m) :
    ∃ fuel m', refreshFoldersFiles fuel folders files m = .ok m' ∧ TreeOf folders files m' := by
  obtain ⟨hrooted, hinside⟩ := rooted_inside_of_run hfewer hm
  exact exists_treeOf h hrooted hinside

/-- What `upgrade` returns. -/
theorem upgrade_eq_some {m : GrizolFsMem} {weak : WeakFsNode} {node : FsNode} :
    m.upgrade weak = some node ↔ m.tree.get weak.path = some node ∧ node.serial = weak.serial := by
  rw [GrizolFsMem.upgrade, Option.filter_eq_some_iff, decide_eq_true_iff]

/-- **What a refresh does to the index**: it names nodes only, if and only if it keeps the inode
numbers of the listed folders. -/
theorem allLive_afterRefresh_iff {m m' : GrizolFsMem} {r : Refresh} (hm : Rooted m)
    (hlive : AllLive m) (h : afterRefresh m r = some m') : AllLive m' ↔ KeepsInodes m r := by
  obtain ⟨-, m₁, -, -, hfolders, hfiles⟩ := loaded_of_ended r.rows (afterRefresh_eq_some.mp h)
  have hold : ∀ ino, (∀ f ∈ r.folders, topDirId f.id ≠ .ok ino) →
      (∀ f ∈ r.files, entryId f.id ≠ .ok ino) → m'.nodes.get ino = m.nodes.get ino := by
    intro ino hnofolder hnofile
    rw [hfiles.otherNode ino hnofile, hfolders.otherNode ino hnofolder]
  constructor
  · intro hlive' ino weak hweak hlisted
    by_contra hgone
    rw [not_or] at hgone
    have hkept := hold ino (fun f hf heq => hgone.1 ⟨f, hf, heq⟩)
      (fun f hf heq => hgone.2 ⟨f, hf, heq⟩)
    obtain ⟨node, hnode⟩ := hlive' ino weak (hkept.trans hweak)
    obtain ⟨hget, hserial⟩ := upgrade_eq_some.mp hnode
    have hnew := since_afterRefresh h hlisted hget
    have hbefore := hm.counted ino weak hweak
    omega
  · intro hkeeps ino weak hweak
    by_cases hfolder : ∃ f ∈ r.folders, topDirId f.id = .ok ino
    · obtain ⟨f, hf, hid⟩ := hfolder
      obtain ⟨id, serial, hid', hget, hweak'⟩ := folder_of_loaded hfolders hfiles f hf
      obtain rfl : id = ino := Except.ok.inj (hid'.symm.trans hid)
      obtain rfl := Option.some.inj (hweak'.symm.trans hweak)
      exact ⟨_, upgrade_eq_some.mpr ⟨hget, rfl⟩⟩
    by_cases hfile : ∃ f ∈ r.files, entryId f.id = .ok ino
    · obtain ⟨f, hf, hid⟩ := hfile
      obtain ⟨id, serial, hid', hget, hweak'⟩ := hfiles.file f hf
      obtain rfl : id = ino := Except.ok.inj (hid'.symm.trans hid)
      obtain rfl := Option.some.inj (hweak'.symm.trans hweak)
      exact ⟨_, upgrade_eq_some.mpr ⟨hget, rfl⟩⟩
    -- the entry is an old one, and its node was in no listed folder
    rw [hold ino (fun f hf heq => hfolder ⟨f, hf, heq⟩) fun f hf heq => hfile ⟨f, hf, heq⟩] at hweak
    have helsewhere : ¬ ∃ f ∈ r.folders, [f.folder.id] <+: weak.path := fun hlisted =>
      (hkeeps ino weak hweak hlisted).elim hfolder hfile
    obtain ⟨node, hnode⟩ := hlive ino weak hweak
    obtain ⟨hget, hserial⟩ := upgrade_eq_some.mp hnode
    exact ⟨node, upgrade_eq_some.mpr
      ⟨(elsewhere_afterRefresh h weak.path helsewhere).trans hget, hserial⟩⟩

/-- In the new tree every number names a node. -/
theorem allLive_new : AllLive .new := by
  intro ino weak hweak
  rw [GrizolFsMem.new, nodes_insertNode] at hweak
  split_ifs at hweak
  · obtain rfl := Option.some.inj hweak
    refine ⟨⟨0, 1, .folder ⟨{}, 1⟩⟩, upgrade_eq_some.mpr ⟨?_, rfl⟩⟩
    rw [GrizolFsMem.new, get_insertNode, if_pos rfl]
  · cases hweak

/-- **The index names nodes of the tree all along a sequence of refreshes** if and only if every
one of them keeps the inode numbers of the folders it lists. -/
theorem allLive_along_iff {refreshes : List Refresh} {m : GrizolFsMem}
    (hm : Transition.run afterRefresh .new refreshes = some m) :
    Transition.Along afterRefresh (fun _ _ m' => AllLive m') .new refreshes ↔
      Transition.Meets afterRefresh KeepsInodes .new refreshes := by
  refine Transition.along_iff_meets_of_run (fun m => Rooted m ∧ AllLive m) ?_ ?_
    ⟨rooted_new, allLive_new⟩ hm
  · exact fun m r m' hm hstep => allLive_afterRefresh_iff hm.1 hm.2 hstep
  · exact fun m r m' hm hkeeps hstep => ⟨rooted_afterRefresh hstep hm.1,
      (allLive_afterRefresh_iff hm.1 hm.2 hstep).mpr hkeeps⟩

/-- A first refresh, with a file where there is a directory later. -/
def firstRefresh : Refresh where
  folders := [⟨{ id := "default" }, 7⟩]
  files := [⟨{ name := "a" }, [], "default", 9⟩]
  rows := ⟨by decide, by decide, by decide, by decide, by decide⟩
  turns := 1

/-- Witness: a file before its directory, after a refresh with other rows. -/
theorem refresh_shows_nested : ∃ m, afterRefresh .new firstRefresh = some m ∧
    ∃ fuel m', refreshFoldersFiles fuel [⟨{ id := "default" }, 1⟩] nestedFiles m = .ok m' ∧
      TreeOf [⟨{ id := "default" }, 1⟩] nestedFiles m' := by
  obtain ⟨m, hm⟩ : ∃ m, afterRefresh .new firstRefresh = some m :=
    Option.isSome_iff_exists.mp (by decide +kernel)
  refine ⟨m, hm, @refresh_shows _ _ listing_nested [firstRefresh] (by decide) m ?_⟩
  rw [Transition.run_cons, hm]
  rfl

/-- The file again, under a new row. -/
def reinserted : Refresh where
  folders := [⟨{ id := "default" }, 7⟩]
  files := [⟨{ name := "a" }, [], "default", 10⟩]
  rows := ⟨by decide, by decide, by decide, by decide, by decide⟩
  turns := 1

/-- The inode number of the old row panics. -/
theorem reinserted_dangles :
    ∃ m, Transition.run afterRefresh .new [firstRefresh, reinserted] = some m ∧
      readdirMem unbounded m (9 + entriesStart) 0 = .error .unwrap ∧ ¬ AllLive m := by
  have hrun : (Transition.run afterRefresh .new [firstRefresh, reinserted]).map
      (fun m => (m.nodes.get (9 + entriesStart),
        (m.nodes.get (9 + entriesStart)).bind m.upgrade)) =
          some (some ⟨["default", "a"], 2⟩, none) := by decide +kernel
  obtain ⟨m, hm, hnodes⟩ := Option.map_eq_some_iff.mp hrun
  obtain ⟨hweak, hgone⟩ := Prod.mk.inj hnodes
  rw [hweak] at hgone
  refine ⟨m, hm, ?_, ?_⟩
  · rw [readdirMem, hweak]
    show (Rust.unwrap (m.upgrade _) >>= _) = _
    rw [show m.upgrade _ = none from hgone]
    rfl
  · intro hlive
    obtain ⟨node, hnode⟩ := hlive _ _ hweak
    exact absurd (hnode.symm.trans hgone) (Option.some_ne_none node)

/-- Whether a refresh keeps the inode numbers is found by a look at each of the index. -/
instance (m : GrizolFsMem) (r : Refresh) : Decidable (KeepsInodes m r) :=
  decidable_of_iff (∀ ino ∈ m.nodes.keys, ∀ weak ∈ m.nodes.get ino,
      (∃ f ∈ r.folders, [f.folder.id] <+: weak.path) →
        (∃ f ∈ r.folders, topDirId f.id = .ok ino) ∨ ∃ f ∈ r.files, entryId f.id = .ok ino)
    ⟨fun h ino weak hweak => h ino (AssocMap.mem_keys_iff.mpr ⟨weak, hweak⟩) weak hweak,
      fun h ino _ weak hweak => h ino weak hweak⟩

/-- Witness: the file keeps its row, and every number names a node after both refreshes. -/
theorem allLive_along_iff_kept : ∃ m,
    Transition.run afterRefresh .new [firstRefresh, firstRefresh] = some m ∧
      Transition.Meets afterRefresh KeepsInodes .new [firstRefresh, firstRefresh] ∧
      Transition.Along afterRefresh (fun _ _ m' => AllLive m') .new
        [firstRefresh, firstRefresh] := by
  obtain ⟨m, hm⟩ : ∃ m, Transition.run afterRefresh .new [firstRefresh, firstRefresh] = some m :=
    Option.isSome_iff_exists.mp (by decide +kernel)
  have hkeeps : Transition.Meets afterRefresh KeepsInodes .new [firstRefresh, firstRefresh] := by
    decide +kernel
  exact ⟨m, hm, hkeeps, (allLive_along_iff hm).mpr hkeeps⟩

end Grizol.Analysis
