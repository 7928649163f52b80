import Grizol.Analysis.FsTree

/-!
# The tree and the lists show the same directories

After a refresh of an empty tree its nodes are the root, the folders and the files at
their paths (`Built`). Below the path of a directory are the files whose path is one part
longer, and those are the ones the filter of the lists keeps (`isFileInCurrentDir_iff`).
-/

set_option autoImplicit false

namespace Grizol.Analysis

open Grizol.Library
open Grizol.Model Grizol.Model.Syncthing Grizol.Interface

open GrizolFsMem (splitPath)

/-! ## Replies -/

/-- A reply that is never full shows the entry of everything in the list. -/
theorem replyEntries_unbounded {α : Type} {entry : α → Rust (ℕ × FileType × String)}
    (l : List α) : ∀ (i : ℕ) (added : List DirEntry), (∀ x ∈ l, ∃ e, entry x = .ok e) →
      ∃ entries, replyEntries unbounded entry i l added = .ok entries ∧
        ∀ e, e ∈ entries.map shown ↔ e ∈ added.map shown ∨ ∃ x ∈ l, entry x = .ok e := by
  induction l with
  | nil =>
      intro i added _
      exact ⟨added, rfl, by simp⟩
  | cons x l ih =>
      intro i added h
      obtain ⟨⟨⟨ino, kind, name⟩, hx⟩, hl⟩ := List.forall_mem_cons.mp h
      obtain ⟨entries, hrun, hshown⟩ := ih (i + 1) (added ++ [⟨ino, i + 1, kind, name⟩]) hl
      refine ⟨entries, ?_, ?_⟩
      · rw [replyEntries, hx]
        exact hrun
      · intro e
        have hnew : shown ⟨ino, i + 1, kind, name⟩ = (ino, kind, name) := rfl
        rw [hshown e, List.map_append, List.mem_append, List.map_singleton, List.mem_singleton,
          hnew]
        simp only [List.mem_cons, exists_eq_or_imp, hx, Except.ok.injEq]
        rw [or_assoc, eq_comm]

/-- Two lists with the same entries make the same listing. -/
theorem sameListing_of_entries {α β : Type} {entry : α → Rust (ℕ × FileType × String)}
    {entry' : β → Rust (ℕ × FileType × String)} {l : List α} {l' : List β}
    (hl : ∀ x ∈ l, ∃ e, entry x = .ok e) (hl' : ∀ y ∈ l', ∃ e, entry' y = .ok e)
    (hsame : ∀ e, (∃ x ∈ l, entry x = .ok e) ↔ ∃ y ∈ l', entry' y = .ok e)
    {r r' : Rust (Except Errno (List DirEntry))}
    (hr : ∀ entries, replyEntries unbounded entry 0 l [] = .ok entries → r = .ok (.ok entries))
    (hr' : ∀ entries, replyEntries unbounded entry' 0 l' [] = .ok entries →
      r' = .ok (.ok entries)) : SameListing r r' := by
  obtain ⟨entries, hrun, hshown⟩ := replyEntries_unbounded l 0 [] hl
  obtain ⟨entries', hrun', hshown'⟩ := replyEntries_unbounded l' 0 [] hl'
  refine Or.inr ⟨entries, entries', hr _ hrun, hr' _ hrun', fun e => ?_⟩
  rw [hshown e, hshown' e, hsame e]

/-- A type of the table has a kind. -/
theorem fileType_returns {code : Int32} (h : 0 ≤ code ∧ code ≤ 4) :
    ∃ kind, fileType code = .ok kind := by
  rw [fileType]
  by_cases h₀ : code = 0
  · exact ⟨_, if_pos h₀⟩
  rw [if_neg h₀]
  by_cases h₁ : code = 1
  · exact ⟨_, if_pos h₁⟩
  rw [if_neg h₁]
  have h₂ : 2 ≤ code := by
    rw [Int32.le_iff_toInt_le] at h ⊢
    have hne₀ : code.toInt ≠ 0 := fun heq => h₀ (Int32.toInt_inj.mp heq)
    have hne₁ : code.toInt ≠ 1 := fun heq => h₁ (Int32.toInt_inj.mp heq)
    have hle : (0 : ℤ) ≤ code.toInt := h.1
    change (2 : ℤ) ≤ code.toInt
    omega
  exact ⟨_, if_pos ⟨h₂, h.2⟩⟩

/-! ## The tree of a snapshot -/

/-- A tree with the folders and files of one refresh, and nothing else. -/
structure Built (folders : List GrizolFolder) (files : List GrizolFileInfo) (m : GrizolFsMem) :
    Prop where
  root : ∃ node : FsNode, m.tree.get [] = some node ∧
    m.nodes.get fuseRootId = some ⟨[], node.serial⟩
  folder : ∀ f ∈ folders, ∃ id serial, topDirId f.id = .ok id ∧
    m.tree.get [f.folder.id] = some ⟨serial, id, .folder f⟩ ∧
      m.nodes.get id = some ⟨[f.folder.id], serial⟩
  file : ∀ f ∈ files, ∃ id serial, entryId f.id = .ok id ∧
    m.tree.get (splitPath f) = some ⟨serial, id, .file f⟩ ∧
      m.nodes.get id = some ⟨splitPath f, serial⟩
  paths : ∀ p node, m.tree.get p = some node →
    p = [] ∨ (∃ f ∈ folders, [f.folder.id] = p) ∨ ∃ f ∈ files, splitPath f = p
  inodes : ∀ ino node, m.nodes.get ino = some node →
    ino = fuseRootId ∨ (∃ f ∈ folders, topDirId f.id = .ok ino) ∨
      ∃ f ∈ files, entryId f.id = .ok ino

section Snapshots

variable {folders : List GrizolFolder} {files : List GrizolFileInfo}

/-- What the inode number of a file is. -/
theorem entryId_eq_ok {id : Int64} {ino : ℕ} (h : entryId id = .ok ino) :
    id.toUInt64.toNat + entriesStart = ino := by
  rw [entryId, Rust.add] at h
  split_ifs at h
  exact Except.ok.inj h

/-- It is not below those of files. -/
theorem entriesStart_le {id : Int64} {ino : ℕ} (h : entryId id = .ok ino) : entriesStart ≤ ino :=
  (Nat.le_add_left _ _).trans (entryId_eq_ok h).le

/-- The inode numbers of folders are above the root, and below those of files. -/
theorem topDirId_bounds {id : Int64} {ino : ℕ} (h : topDirId id = .ok ino) :
    fuseRootId < ino ∧ ino < entriesStart := by
  obtain ⟨hino, hlt⟩ := topDirId_eq_ok.mp h
  unfold fuseRootId topDirsStart at *
  omega

/-- The path of a file has a folder and a name. -/
theorem splitPath_ne_of_short {p : List String} (h : p.length ≤ 1) (f : GrizolFileInfo) :
    splitPath f ≠ p := by
  rintro rfl
  have hpos := List.length_pos_of_ne_nil (Path.split_ne_nil f.fileInfo.name)
  rw [splitPath, List.length_cons] at h
  omega

/-- The files leave the folders where they were put. -/
theorem folder_of_loaded {m m₁ m' : GrizolFsMem} (hfolders : FoldersLoaded m folders m₁)
    (hfiles : Loaded m₁ files m') : ∀ f ∈ folders, ∃ id serial, topDirId f.id = .ok id ∧
      m'.tree.get [f.folder.id] = some ⟨serial, id, .folder f⟩ ∧
        m'.nodes.get id = some ⟨[f.folder.id], serial⟩ := by
  intro f hf
  obtain ⟨id, serial, hid, hnode, hweak⟩ := hfolders.folder f hf
  have hother : ∀ k ∈ files, entryId k.id ≠ .ok id := fun k _ heq =>
    absurd (topDirId_bounds hid).2 (not_lt.mpr (entriesStart_le heq))
  exact ⟨id, serial, hid, by rw [hfiles.other _ fun f _ => splitPath_ne_of_short le_rfl f, hnode],
    by rw [hfiles.otherNode _ hother, hweak]⟩

/-- Where the nodes of the tree come from. -/
theorem path_of_loaded {m m₁ m' : GrizolFsMem} (hfolders : FoldersLoaded m folders m₁)
    (hfiles : Loaded m₁ files m') {p : List String} {node : FsNode}
    (hnode : m'.tree.get p = some node) :
    (∃ f ∈ folders, [f.folder.id] = p) ∨ (∃ f ∈ files, splitPath f = p) ∨
      (¬ ∃ f ∈ folders, [f.folder.id] <+: p) ∧ m.tree.get p = some node := by
  by_cases hfile : ∃ f ∈ files, splitPath f = p
  · exact Or.inr (Or.inl hfile)
  rw [hfiles.other p fun f hf heq => hfile ⟨f, hf, heq⟩] at hnode
  by_cases hfolder : ∃ f ∈ folders, [f.folder.id] <+: p
  · obtain ⟨f, hf, habove⟩ := hfolder
    refine Or.inl ⟨f, hf, ?_⟩
    by_contra hne
    rw [hfolders.below f hf p habove (Ne.symm hne)] at hnode
    cases hnode
  · rw [hfolders.other p fun f hf habove => hfolder ⟨f, hf, habove⟩] at hnode
    exact Or.inr (Or.inr ⟨hfolder, hnode⟩)

/-- A tree that was loaded has all that was listed. -/
theorem built_of_loaded {m₁ m : GrizolFsMem} (hfolders : FoldersLoaded .new folders m₁)
    (hfiles : Loaded m₁ files m) : Built folders files m := by
  have hnew : ∀ p, GrizolFsMem.new.tree.get p =
      if p = [] then some ⟨0, 1, .folder ⟨{}, 1⟩⟩ else none := by
    intro p
    rw [GrizolFsMem.new, get_insertNode]
    refine if_congr Iff.rfl rfl ?_
    simp
  have hnewNodes : ∀ ino, GrizolFsMem.new.nodes.get ino =
      if ino = fuseRootId then some ⟨[], 0⟩ else none := by
    intro ino
    rw [GrizolFsMem.new, nodes_insertNode]
    rfl
  constructor
  · have hroot : ∀ f ∈ folders, ¬ [f.folder.id] <+: ([] : List String) := by simp
    have hroot₁ : ∀ f ∈ folders, topDirId f.id ≠ .ok fuseRootId := fun f _ heq =>
      absurd (topDirId_bounds heq).1 (lt_irrefl _)
    have hroot₂ : ∀ f ∈ files, entryId f.id ≠ .ok fuseRootId := fun f _ heq =>
      absurd (entriesStart_le heq) (by decide)
    refine ⟨⟨0, 1, .folder ⟨{}, 1⟩⟩, ?_, ?_⟩
    · rw [hfiles.other [] fun f _ => splitPath_ne_of_short (by simp) f, hfolders.other [] hroot,
        hnew, if_pos rfl]
    · rw [hfiles.otherNode _ hroot₂, hfolders.otherNode _ hroot₁, hnewNodes, if_pos rfl]
  · exact folder_of_loaded hfolders hfiles
  · exact hfiles.file
  · intro p node hnode
    rcases path_of_loaded hfolders hfiles hnode with hfolder | hfile | ⟨-, hbefore⟩
    · exact Or.inr (Or.inl hfolder)
    · exact Or.inr (Or.inr hfile)
    · rw [hnew] at hbefore
      split_ifs at hbefore with hnil
      exact Or.inl hnil
  · intro ino node hnode
    by_cases hfile : ∃ f ∈ files, entryId f.id = .ok ino
    · exact Or.inr (Or.inr hfile)
    rw [hfiles.otherNode ino fun f hf heq => hfile ⟨f, hf, heq⟩] at hnode
    by_cases hfolder : ∃ f ∈ folders, topDirId f.id = .ok ino
    · exact Or.inr (Or.inl hfolder)
    rw [hfolders.otherNode ino fun f hf heq => hfolder ⟨f, hf, heq⟩, hnewNodes] at hnode
    split_ifs at hnode with hroot
    exact Or.inl hroot

/-- A child is a node one part further. -/
theorem mem_children {m : GrizolFsMem} {path : List String} {name : String} {node : FsNode} :
    (name, node) ∈ m.children path ↔ m.tree.get (path ++ [name]) = some node := by
  rw [GrizolFsMem.children, List.mem_filterMap]
  constructor
  · rintro ⟨⟨p, child⟩, hentry, hmatch⟩
    have hget := AssocMap.mem_entries_iff.mp hentry
    dsimp only at hmatch
    cases hlast : p.getLast? with
    | none =>
        rw [hlast] at hmatch
        cases hmatch
    | some last =>
        rw [hlast] at hmatch
        dsimp only at hmatch
        split_ifs at hmatch with hpath
        obtain ⟨rfl, rfl⟩ := Prod.mk.inj (Option.some.inj hmatch)
        have hp : path ++ [last] = p := by
          rw [← hpath]
          exact List.dropLast_append_getLast? last hlast
        rw [hp]
        exact hget
  · intro hget
    refine ⟨(path ++ [name], node), AssocMap.mem_entries_iff.mpr hget, ?_⟩
    simp

/-! ## The files of a directory -/

/-- The filter of the lists keeps the files one part below. -/
theorem isFileInCurrentDir_iff {base : String} {parts : List String} {file : GrizolFileInfo}
    (hbase : Path.components base = parts.map Path.Component.normal)
    (hfile : Path.Canonical file.fileInfo.name) :
    isFileInCurrentDir base file = true ↔
      ∃ name, Path.split file.fileInfo.name = parts ++ [name] := by
  rw [isFileInCurrentDir, Path.components_of_canonical hfile, hbase, Path.stripPrefix_normal]
  by_cases habove : parts <+: Path.split file.fileInfo.name
  · obtain ⟨rest, hrest⟩ := habove
    have hdrop : (Path.split file.fileInfo.name).drop parts.length = rest := by
      rw [← hrest, List.drop_left]
    rw [if_pos ⟨rest, hrest⟩, hdrop]
    dsimp only
    rcases List.eq_nil_or_concat rest with rfl | ⟨dirs, name, rfl⟩
    · simp [Path.fileName, ← hrest]
    · rw [List.concat_eq_append] at hrest ⊢
      have hpart : name ∈ Path.split file.fileInfo.name := by
        rw [← hrest]
        simp
      have hname : Path.fileName ((dirs ++ [name]).map Path.Component.normal) = some name := by
        simp [Path.fileName]
      rw [hname]
      dsimp only
      rw [Path.components_of_mem_split hfile hpart, decide_eq_true_iff, ← hrest]
      constructor
      · intro hsingle
        obtain rfl : dirs = [] := by simpa using hsingle
        exact ⟨name, rfl⟩
      · rintro ⟨name', hparts⟩
        have hsingle : dirs ++ [name] = [name'] := List.append_cancel_left hparts
        rw [hsingle]
        obtain rfl : dirs = [] := by
          have hlen := congrArg List.length hsingle
          simpa using hlen
        obtain rfl : name = name' := by simpa using hsingle
        rfl
  · rw [if_neg habove]
    constructor
    · intro h
      cases h
    · rintro ⟨name, hname⟩
      exact absurd ⟨[name], hname.symm⟩ habove

/-- The entry of a file one part below, from the lists. -/
theorem fileEntry_eq {base : String} {parts : List String} {file : GrizolFileInfo} {name : String}
    (hbase : Path.components base = parts.map Path.Component.normal)
    (hfile : Path.Canonical file.fileInfo.name)
    (hname : Path.split file.fileInfo.name = parts ++ [name]) {id serial : ℕ}
    (hid : entryId file.id = .ok id) :
    fileEntry base file = childEntry (name, ⟨serial, id, .file file⟩) := by
  have hstripped : Path.stripPrefix (Path.components file.fileInfo.name) (Path.components base) =
      some [.normal name] := by
    rw [Path.components_of_canonical hfile, hbase, Path.stripPrefix_normal, hname,
      if_pos (List.prefix_append _ _), List.drop_left]
    rfl
  simp only [fileEntry, childEntry, hstripped, Rust.unwrap_some, Rust.ok_bind, hid,
    Path.asOsStr_normal]

/-- What `readdir_mem` answers for the number of a node of the tree. -/
theorem readdirMem_of_node {m : GrizolFsMem} {ino serial : ℕ} {path : List String} {node : FsNode}
    (hweak : m.nodes.get ino = some ⟨path, serial⟩) (hnode : m.tree.get path = some node)
    (hserial : node.serial = serial) {entries : List DirEntry}
    (hrun : replyEntries unbounded childEntry 0 (m.children path) [] = .ok entries) :
    readdirMem unbounded m ino 0 = .ok (.ok entries) := by
  have hupgrade : m.upgrade ⟨path, serial⟩ = some node := by
    rw [GrizolFsMem.upgrade, hnode, Option.filter_some, if_pos (by simpa using hserial)]
  rw [readdirMem, hweak]
  dsimp only
  rw [hupgrade, Rust.unwrap_some, Rust.ok_bind, List.drop_zero, hrun]
  rfl

/-- A number of the list is found. -/
theorem findId_of_mem {α : Type} {id : α → Rust ℕ} {ino : ℕ} {l : List α}
    (hl : ∀ x ∈ l, ∃ n, id x = .ok n) {x : α} (hx : x ∈ l) (hid : id x = .ok ino) :
    ∃ y ∈ l, findId id ino l = .ok (some y) ∧ id y = .ok ino := by
  induction l with
  | nil => cases hx
  | cons y l ih =>
      obtain ⟨⟨n, hn⟩, hrest⟩ := List.forall_mem_cons.mp hl
      rw [findId, hn, Rust.ok_bind]
      by_cases hsame : n = ino
      · rw [if_pos hsame]
        exact ⟨y, List.mem_cons_self, rfl, by rw [hn, hsame]⟩
      · have hne : x ≠ y := by
          rintro rfl
          exact hsame (Except.ok.inj (hn.symm.trans hid))
        obtain ⟨k, hk, hfound, hkid⟩ := ih hrest ((List.mem_cons.mp hx).resolve_left hne)
        rw [if_neg hsame]
        exact ⟨k, List.mem_cons_of_mem _ hk, hfound, hkid⟩

/-- Another one is not. -/
theorem findId_of_not_mem {α : Type} {id : α → Rust ℕ} {ino : ℕ} {l : List α}
    (hl : ∀ x ∈ l, ∃ n, id x = .ok n) (h : ∀ x ∈ l, id x ≠ .ok ino) :
    findId id ino l = .ok none := by
  induction l with
  | nil => rfl
  | cons y l ih =>
      obtain ⟨⟨n, hn⟩, hrest⟩ := List.forall_mem_cons.mp hl
      obtain ⟨hy, h⟩ := List.forall_mem_cons.mp h
      have hne : n ≠ ino := fun hsame => hy (hsame ▸ hn)
      rw [findId, hn, Rust.ok_bind, if_neg hne, ih hrest h]

/-- The children of a directory are the listed files one part below. -/
theorem file_of_child {m : GrizolFsMem} (hm : Built folders files m) {top name : String}
    {parts : List String} {node : FsNode} (h : (name, node) ∈ m.children (top :: parts)) :
    ∃ f ∈ files, f.folder = top ∧ Path.split f.fileInfo.name = parts ++ [name] ∧
      ∃ id serial, entryId f.id = .ok id ∧ node = ⟨serial, id, .file f⟩ := by
  have hnode := mem_children.mp h
  rcases hm.paths _ node hnode with hnil | ⟨f, -, hpath⟩ | ⟨f, hf, hpath⟩
  · simp at hnil
  · simp at hpath
  · obtain ⟨id, serial, hid, hfile, -⟩ := hm.file f hf
    rw [hpath, hnode] at hfile
    obtain ⟨hfolder, hname⟩ := List.cons.inj hpath
    exact ⟨f, hf, hfolder, hname, id, serial, hid, Option.some.inj hfile⟩

/-- A file is a child of its directory. -/
theorem child_of_file {m : GrizolFsMem} (hm : Built folders files m) {f : GrizolFileInfo}
    (hf : f ∈ files) {name : String} {parts : List String}
    (hname : Path.split f.fileInfo.name = parts ++ [name]) :
    ∃ id serial, entryId f.id = .ok id ∧
      (name, ⟨serial, id, .file f⟩) ∈ m.children (f.folder :: parts) := by
  obtain ⟨id, serial, hid, hnode, -⟩ := hm.file f hf
  have hpath : f.folder :: parts ++ [name] = splitPath f := by
    rw [splitPath, hname]
    rfl
  exact ⟨id, serial, hid, mem_children.mpr (hpath ▸ hnode)⟩

/-- A folder or a directory lists the same in both ways. -/
theorem sameListing_directory (h : Snapshot folders files) {m : GrizolFsMem}
    (hm : Built folders files m) {ino serial : ℕ} {node : FsNode} {top base : String}
    {parts : List String} (hbase : Path.components base = parts.map Path.Component.normal)
    (hweak : m.nodes.get ino = some ⟨top :: parts, serial⟩)
    (hnode : m.tree.get (top :: parts) = some node) (hserial : node.serial = serial)
    (hroot : ino ≠ fuseRootId) (htop : topFolder ino folders files = .ok (some top))
    (hdir : baseDir ino files = .ok (some base)) :
    SameListing (readdirMem unbounded m ino 0) (readdirDb unbounded folders files ino 0) := by
  have hkept : ∀ f, f ∈ files.filter (fun file => file.folder = top && isFileInCurrentDir base file) ↔
      f ∈ files ∧ f.folder = top ∧ ∃ name, Path.split f.fileInfo.name = parts ++ [name] := by
    intro f
    rw [List.mem_filter]
    refine and_congr_right fun hf => ?_
    rw [Bool.and_eq_true, decide_eq_true_iff, isFileInCurrentDir_iff hbase (h.canonical f hf)]
  have hsame : ∀ e, (∃ x ∈ m.children (top :: parts), childEntry x = .ok e) ↔
      ∃ f ∈ files.filter (fun file => file.folder = top && isFileInCurrentDir base file),
        fileEntry base f = .ok e := by
    intro e
    constructor
    · rintro ⟨⟨name, child⟩, hchild, he⟩
      obtain ⟨f, hf, hfolder, hname, id, serial', hid, rfl⟩ := file_of_child hm hchild
      refine ⟨f, (hkept f).mpr ⟨hf, hfolder, name, hname⟩, ?_⟩
      rw [fileEntry_eq hbase (h.canonical f hf) hname hid, he]
    · rintro ⟨f, hf, he⟩
      obtain ⟨hlisted, rfl, name, hname⟩ := (hkept f).mp hf
      obtain ⟨id, serial', hid, hchild⟩ := child_of_file hm hlisted hname
      refine ⟨_, hchild, ?_⟩
      rw [← fileEntry_eq hbase (h.canonical f hlisted) hname hid, he]
  have hreturns : ∀ x ∈ m.children (top :: parts), ∃ e, childEntry x = .ok e := by
    rintro ⟨name, child⟩ hchild
    obtain ⟨f, hf, -, -, id, serial', -, rfl⟩ := file_of_child hm hchild
    obtain ⟨kind, hkind⟩ := fileType_returns (h.types f hf)
    exact ⟨(id, kind, name), by simp only [childEntry, hkind, Rust.ok_bind, Rust.pure_eq_ok]⟩
  have hreturns' : ∀ f ∈ files.filter (fun file => file.folder = top && isFileInCurrentDir base file),
      ∃ e, fileEntry base f = .ok e := by
    intro f hf
    obtain ⟨hlisted, rfl, name, hname⟩ := (hkept f).mp hf
    obtain ⟨id, serial', hid, hchild⟩ := child_of_file hm hlisted hname
    obtain ⟨e, he⟩ := hreturns _ hchild
    exact ⟨e, by rw [fileEntry_eq hbase (h.canonical f hlisted) hname hid, he]⟩
  refine sameListing_of_entries hreturns hreturns' hsame
    (fun entries hrun => readdirMem_of_node hweak hnode hserial hrun) fun entries hrun => ?_
  rw [readdirDb, if_neg hroot, htop, hdir]
  simp only [Rust.ok_bind]
  split_ifs with hempty
  · have hnil := List.length_eq_zero_iff.mp hempty.symm
    rw [hnil] at hrun
    exact congrArg (fun entries => Except.ok (Except.ok entries)) (Except.ok.inj hrun)
  · rw [List.drop_zero, hrun]
    rfl

/-- The root lists the folders in both ways. -/
theorem sameListing_root {m : GrizolFsMem} (hm : Built folders files m) :
    SameListing (readdirMem unbounded m fuseRootId 0)
      (readdirDb unbounded folders files fuseRootId 0) := by
  obtain ⟨node, hnode, hweak⟩ := hm.root
  have hsame : ∀ e, (∃ x ∈ m.children [], childEntry x = .ok e) ↔
      ∃ f ∈ folders, folderEntry f = .ok e := by
    intro e
    constructor
    · rintro ⟨⟨name, child⟩, hchild, he⟩
      have hget := mem_children.mp hchild
      rcases hm.paths _ child hget with hnil | ⟨f, hf, hpath⟩ | ⟨f, -, hpath⟩
      · simp at hnil
      · obtain ⟨id, serial, hid, hfolder, -⟩ := hm.folder f hf
        rw [hpath, hget] at hfolder
        obtain rfl := Option.some.inj hfolder
        obtain rfl : f.folder.id = name := by simpa using hpath
        refine ⟨f, hf, ?_⟩
        rw [folderEntry, hid]
        exact he
      · have hname : Path.split f.fileInfo.name = [] := (List.cons.inj hpath).2
        exact absurd hname (Path.split_ne_nil _)
    · rintro ⟨f, hf, he⟩
      obtain ⟨id, serial, hid, hfolder, -⟩ := hm.folder f hf
      refine ⟨(f.folder.id, ⟨serial, id, .folder f⟩), mem_children.mpr hfolder, ?_⟩
      rw [folderEntry, hid] at he
      exact he
  have hreturns' : ∀ f ∈ folders, ∃ e, folderEntry f = .ok e := by
    intro f hf
    obtain ⟨id, -, hid, -⟩ := hm.folder f hf
    exact ⟨(id, .directory, f.folder.id), by rw [folderEntry, hid]; rfl⟩
  have hreturns : ∀ x ∈ m.children [], ∃ e, childEntry x = .ok e := by
    rintro ⟨name, child⟩ hchild
    have hget := mem_children.mp hchild
    rcases hm.paths _ child hget with hnil | ⟨f, hf, hpath⟩ | ⟨f, -, hpath⟩
    · simp at hnil
    · obtain ⟨id, serial, hid, hfolder, -⟩ := hm.folder f hf
      rw [hpath, hget] at hfolder
      obtain rfl := Option.some.inj hfolder
      exact ⟨(id, .directory, name), rfl⟩
    · have hname : Path.split f.fileInfo.name = [] := (List.cons.inj hpath).2
      exact absurd hname (Path.split_ne_nil _)
  refine sameListing_of_entries hreturns hreturns' hsame
    (fun entries hrun => readdirMem_of_node hweak hnode rfl hrun) fun entries hrun => ?_
  rw [readdirDb, if_pos rfl]
  split_ifs with hempty
  · have hnil := List.length_eq_zero_iff.mp hempty.symm
    rw [hnil] at hrun
    exact congrArg (fun entries => Except.ok (Except.ok entries)) (Except.ok.inj hrun)
  · rw [List.drop_zero, hrun]
    rfl

/-- The tree of the lists lists what they list, for every inode number. -/
theorem sameListing_of_built (h : Snapshot folders files) {m : GrizolFsMem}
    (hm : Built folders files m) (ino : ℕ) :
    SameListing (readdirMem unbounded m ino 0) (readdirDb unbounded folders files ino 0) := by
  have hfolderIds : ∀ f ∈ folders, ∃ id, topDirId f.id = .ok id := fun f hf => by
    obtain ⟨id, -, hid, -⟩ := hm.folder f hf
    exact ⟨id, hid⟩
  have hfileIds : ∀ f ∈ files, ∃ id, entryId f.id = .ok id := fun f hf => by
    obtain ⟨id, -, hid, -⟩ := hm.file f hf
    exact ⟨id, hid⟩
  by_cases hroot : ino = fuseRootId
  · rw [hroot]
    exact sameListing_root hm
  by_cases hfolder : ∃ f ∈ folders, topDirId f.id = .ok ino
  · obtain ⟨f, hf, hid⟩ := hfolder
    have hlt : ino < entriesStart := (topDirId_bounds hid).2
    obtain ⟨g, hg, hfound, hgid⟩ := findId_of_mem hfolderIds hf hid
    obtain ⟨id, serial, hid', hnode, hweak⟩ := hm.folder g hg
    obtain rfl : id = ino := Except.ok.inj (hid'.symm.trans hgid)
    refine sameListing_directory h hm Path.components_empty hweak hnode rfl hroot ?_ ?_
    · rw [topFolder, if_pos hlt, hfound]
      rfl
    · rw [baseDir, if_pos hlt]
      rfl
  by_cases hfile : ∃ f ∈ files, entryId f.id = .ok ino
  · obtain ⟨f, hf, hid⟩ := hfile
    have hge : ¬ ino < entriesStart := not_lt.mpr (entriesStart_le hid)
    obtain ⟨g, hg, hfound, hgid⟩ := findId_of_mem hfileIds hf hid
    obtain ⟨id, serial, hid', hnode, hweak⟩ := hm.file g hg
    obtain rfl : id = ino := Except.ok.inj (hid'.symm.trans hgid)
    refine sameListing_directory h hm (Path.components_of_canonical (h.canonical g hg)) hweak hnode
      rfl hroot ?_ ?_
    · rw [topFolder, if_neg hge, hfound]
      rfl
    · rw [baseDir, if_neg hge, hfound]
      rfl
  · -- no node has this number
    have hnone : m.nodes.get ino = none := by
      rw [Option.eq_none_iff_forall_ne_some]
      intro w hw
      rcases hm.inodes ino w hw with h₁ | h₁ | h₁
      · exact hroot h₁
      · exact hfolder h₁
      · exact hfile h₁
    have hnofolder := findId_of_not_mem hfolderIds fun f hf heq => hfolder ⟨f, hf, heq⟩
    have hnofile := findId_of_not_mem hfileIds fun f hf heq => hfile ⟨f, hf, heq⟩
    refine Or.inl ⟨by rw [readdirMem, hnone]; rfl, ?_⟩
    rw [readdirDb, if_neg hroot, topFolder, baseDir]
    by_cases hlt : ino < entriesStart
    · rw [if_pos hlt, if_pos hlt, hnofolder]
      rfl
    · rw [if_neg hlt, if_neg hlt, hnofile]
      rfl

/-- **Both implementations list the same.** The lists of a snapshot are loaded into an empty
tree, and for every inode number either neither knows the directory or both show the same
entries. -/
theorem readdir_agree (h : Snapshot folders files) :
    ∃ fuel m, refreshFoldersFiles fuel folders files .new = .ok m ∧
      ∀ ino, SameListing (readdirMem unbounded m ino 0)
        (readdirDb unbounded folders files ino 0) := by
  obtain ⟨fuel, m₁, m, hrun, hfolders, hfiles⟩ := refreshFoldersFiles_loads h.toListing .new
  exact ⟨fuel, m, hrun, sameListing_of_built h (built_of_loaded hfolders hfiles)⟩

end Snapshots

section Example

/-- A folder with a directory, a file in it, and a file whose name begins with that of the
directory. -/
def nestedFiles : List GrizolFileInfo :=
  [⟨{ name := "a/b" }, [], "default", 2⟩, ⟨{ name := "ab" }, [], "default", 3⟩,
    ⟨{ name := "a", type := 1 }, [], "default", 1⟩]

/-- The nested files are a listing. -/
theorem listing_nested : Listing [⟨{ id := "default" }, 1⟩] nestedFiles := by
  refine ⟨?_, ?_, ?_, ?_, ⟨?_, ?_⟩, ?_⟩
  · decide
  · decide
  · decide
  · decide
  · decide
  · decide
  · have hinits : ∀ file ∈ nestedFiles, ∀ path ∈ (splitPath file).inits, path ≠ [] →
        path ∈ listedPaths [⟨{ id := "default" }, 1⟩] nestedFiles := by decide +kernel
    intro file hfile path hne habove
    exact hinits file hfile path ((List.mem_inits path _).mpr habove) hne

/-- And a snapshot. -/
theorem snapshot_nested : Snapshot [⟨{ id := "default" }, 1⟩] nestedFiles := by
  refine ⟨listing_nested, ?_, ?_⟩
  · decide
  · unfold Path.Canonical
    decide +kernel

/-- They are listed alike, though the file comes before its directory. -/
theorem readdir_agree_nested :
    ∃ fuel m, refreshFoldersFiles fuel [⟨{ id := "default" }, 1⟩] nestedFiles .new = .ok m ∧
      ∀ ino, SameListing (readdirMem unbounded m ino 0)
        (readdirDb unbounded [⟨{ id := "default" }, 1⟩] nestedFiles ino 0) :=
  readdir_agree snapshot_nested

end Example

end Grizol.Analysis
