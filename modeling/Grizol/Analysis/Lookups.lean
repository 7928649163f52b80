import Mathlib.Data.List.Find
import Grizol.Analysis.DirectoryPaging
import Grizol.Interface.Lookups

/-!
# When a lookup finds what is listed

In the tree a name is looked up among the children of a node, so it can only go wrong where
a reply is not possible. The lists are searched for a relative name without regard to the
folder, and the first file that has it is taken.
-/

set_option autoImplicit false

namespace Grizol.Analysis

open Grizol.Library
open Grizol.Model Grizol.Model.Syncthing Grizol.Interface

open GrizolFsMem (splitPath)

/-- A lookup that panics does not agree. -/
theorem not_lookupAgrees_of_error {lookup : Rust (Except Errno FileAttr)} {e : Fault}
    {listing : Rust (Except Errno (List DirEntry))} {name : OsStr} (h : lookup = .error e) :
    ¬ LookupAgrees lookup listing name := by
  intro hagrees
  by_cases hshown : ∃ ino, ShowsName listing name ino
  · obtain ⟨ino, hino⟩ := hshown
    obtain ⟨attr, hattr, -⟩ := (hagrees.found ino).mpr hino
    rw [h] at hattr
    cases hattr
  · have hnone := hagrees.notFound fun ino hino => hshown ⟨ino, hino⟩
    rw [h] at hnone
    cases hnone

/-- One that says that there is nothing agrees when nothing is listed. -/
theorem lookupAgrees_of_none {lookup : Rust (Except Errno FileAttr)}
    {listing : Rust (Except Errno (List DirEntry))} {name : OsStr}
    (h : lookup = .ok (.error .enoent)) (hnot : ∀ ino, ¬ ShowsName listing name ino) :
    LookupAgrees lookup listing name := by
  refine ⟨fun ino => iff_of_false ?_ (hnot ino), fun _ => h⟩
  rintro ⟨attr, hattr, -⟩
  rw [h] at hattr
  cases Except.ok.inj hattr

/-- One that replies with an entry agrees when that is what is listed. -/
theorem lookupAgrees_of_entry {lookup : Rust (Except Errno FileAttr)}
    {listing : Rust (Except Errno (List DirEntry))} {name : OsStr} {attr : FileAttr}
    (h : lookup = .ok (.ok attr)) (hshows : ∀ ino, ShowsName listing name ino ↔ attr.ino = ino) :
    LookupAgrees lookup listing name := by
  constructor
  · intro ino
    rw [hshows ino, h]
    constructor
    · rintro ⟨attr', hsame, hino⟩
      obtain rfl := Except.ok.inj (Except.ok.inj hsame)
      exact hino
    · intro hino
      exact ⟨attr, rfl, hino⟩
  · intro hnot
    exact absurd ((hshows attr.ino).mpr rfl) (hnot attr.ino)

/-! ## Attributes -/

/-- The attributes of a folder are always there, with its inode number. -/
theorem attrFromFolder_eq (config : OwnerConfig) {f : GrizolFolder} {ino : ℕ}
    (hid : topDirId f.id = .ok ino) :
    ∃ attr, attrFromFolder config f = .ok attr ∧ attr.ino = ino := by
  rw [attrFromFolder, hid]
  exact ⟨_, rfl, rfl⟩

/-- A time that the system has. -/
theorem checkedAdd_of_lt {t : SystemTime} {secs nanos : ℕ}
    (h : t.secs + secs + (t.nanos + nanos) / 1000000000 < 2 ^ 63) :
    t.checkedAdd secs nanos =
      some ⟨t.secs + secs + (t.nanos + nanos) / 1000000000, (t.nanos + nanos) % 1000000000⟩ := by
  rw [SystemTime.checkedAdd, if_pos h]

/-- One that it has not. -/
theorem checkedAdd_of_not_lt {t : SystemTime} {secs nanos : ℕ}
    (h : ¬ t.secs + secs + (t.nanos + nanos) / 1000000000 < 2 ^ 63) :
    t.checkedAdd secs nanos = none := by
  rw [SystemTime.checkedAdd, if_neg h]

/-- A file with a time has attributes. -/
theorem attrFromFile_of_time (config : OwnerConfig) {f : GrizolFileInfo} {ino : ℕ}
    {kind : FileType} (hid : entryId f.id = .ok ino) (hkind : fileType f.fileInfo.type = .ok kind)
    (htime : HasModifiedTime f) :
    ∃ attr, attrFromFile config f = .ok attr ∧ attr.ino = ino := by
  rw [HasModifiedTime] at htime
  rw [attrFromFile, checkedAdd_of_lt (by simp only [unixEpoch]; omega), Option.bind_some,
    checkedAdd_of_lt (by simp only [unixEpoch]; omega), Rust.unwrap_some, Rust.ok_bind, hid,
    Rust.ok_bind, hkind]
  exact ⟨_, rfl, rfl⟩

/-- One without panics. -/
theorem attrFromFile_of_no_time (config : OwnerConfig) {f : GrizolFileInfo}
    (htime : ¬ HasModifiedTime f) : attrFromFile config f = .error .unwrap := by
  rw [HasModifiedTime] at htime
  by_cases hsecs : f.fileInfo.modifiedS.toUInt64.toNat < 2 ^ 63
  · rw [attrFromFile, checkedAdd_of_lt (by simp only [unixEpoch]; omega), Option.bind_some,
      checkedAdd_of_not_lt (by simp only [unixEpoch]; omega)]
    rfl
  · rw [attrFromFile, checkedAdd_of_not_lt (by simp only [unixEpoch]; omega)]
    rfl

/-! ## What is listed -/

section Directories

variable {folders : List GrizolFolder} {files : List GrizolFileInfo} {m : GrizolFsMem}

/-- A listing that shows the same shows the same names. -/
theorem showsName_congr {r r' : Rust (Except Errno (List DirEntry))} (h : SameListing r r')
    {name : OsStr} {ino : ℕ} : ShowsName r name ino ↔ ShowsName r' name ino := by
  have hshown : ∀ {entries : List DirEntry} {r : Rust (Except Errno (List DirEntry))},
      r = .ok (.ok entries) →
        (ShowsName r name ino ↔
          ∃ x ∈ entries.map shown, OsStr.text x.2.2 = name ∧ x.1 = ino) := by
    intro entries r hr
    constructor
    · rintro ⟨entries', hr', e, he, hname, hino⟩
      obtain rfl := Except.ok.inj (Except.ok.inj (hr.symm.trans hr'))
      exact ⟨_, List.mem_map_of_mem he, hname, hino⟩
    · rintro ⟨x, hx, hname, hino⟩
      obtain ⟨e, he, rfl⟩ := List.mem_map.mp hx
      exact ⟨entries, hr, e, he, hname, hino⟩
  have hnone : ∀ {r : Rust (Except Errno (List DirEntry))}, r = .ok (.error .enoent) →
      ¬ ShowsName r name ino := by
    rintro r hr ⟨entries, hr', -⟩
    rw [hr] at hr'
    cases Except.ok.inj hr'
  rcases h with ⟨hr, hr'⟩ | ⟨entries, entries', hr, hr', hsame⟩
  · exact iff_of_false (hnone hr) (hnone hr')
  · rw [hshown hr, hshown hr']
    exact exists_congr fun x => and_congr_left' (hsame x)

/-- An inode number of the index is that of something listed. -/
theorem located_of_nodes (h : Snapshot folders files) (hm : Built folders files m) {ino : ℕ}
    {weak : WeakFsNode} (hweak : m.nodes.get ino = some weak) :
    ∃ path kind, Located folders files ino path kind := by
  rcases hm.inodes ino weak hweak with rfl | ⟨f, hf, hid⟩ | ⟨f, hf, hid⟩
  · exact ⟨_, _, .root⟩
  · exact ⟨_, _, .folder hf hid⟩
  · obtain ⟨kind, hkind⟩ := fileType_returns (h.types f hf)
    exact ⟨_, kind, .file hf hid hkind⟩

/-- What is listed is what the lists say. -/
theorem showsName_mem_iff (h : Snapshot folders files) (hbuilt : Built folders files m)
    (hm : TreeOf folders files m) {parent ino : ℕ} {name : OsStr} :
    ShowsName (readdirMem unbounded m parent 0) name ino ↔
      ∃ path kind s kind', Located folders files parent path kind ∧ name = .text s ∧
        Located folders files ino (path ++ [s]) kind' := by
  by_cases hparent : ∃ path kind, Located folders files parent path kind
  · obtain ⟨path, kind, hlocated⟩ := hparent
    obtain ⟨hreturns, hchild⟩ := child_iff_isChild h hm hlocated
    obtain ⟨entries, hrun, hshown⟩ := replyEntries_unbounded (m.children path) 0 [] hreturns
    have hlisting := @readdirMem_eq folders files m hm parent path kind hlocated unbounded 0
      entries hrun
    have hentries : ∀ x, x ∈ entries.map shown ↔ IsChild folders files path x := fun x => by
      rw [hshown x, ← hchild x]
      simp
    constructor
    · rintro ⟨entries', hreply, e, he, rfl, rfl⟩
      obtain rfl := Except.ok.inj (Except.ok.inj (hlisting.symm.trans hreply))
      exact ⟨path, kind, e.name, e.kind, hlocated, rfl,
        (hentries (shown e)).mp (List.mem_map_of_mem he)⟩
    · rintro ⟨path', kind', s, kind'', hlocated', rfl, hino⟩
      obtain rfl := path_of_located_ino h hlocated hlocated'
      obtain ⟨e, he, hshows⟩ := List.mem_map.mp ((hentries (ino, kind'', s)).mpr hino)
      obtain ⟨hino, hrest⟩ := Prod.mk.inj hshows
      exact ⟨entries, hlisting, e, he, congrArg OsStr.text (Prod.mk.inj hrest).2, hino⟩
  · have hnone : m.nodes.get parent = none := by
      rw [Option.eq_none_iff_forall_ne_some]
      intro weak hweak
      exact hparent (located_of_nodes h hbuilt hweak)
    constructor
    · rintro ⟨entries, hreply, -⟩
      rw [readdirMem, hnone] at hreply
      cases Except.ok.inj hreply
    · rintro ⟨path, kind, -, -, hlocated, -⟩
      exact absurd ⟨path, kind, hlocated⟩ hparent

/-- The names of a directory are those the lists say. -/
theorem showsName_of_located (h : Snapshot folders files) (hbuilt : Built folders files m)
    (hm : TreeOf folders files m) {parent ino : ℕ} {path : List String} {kind : FileType}
    (hlocated : Located folders files parent path kind) {s : String} :
    ShowsName (readdirMem unbounded m parent 0) (.text s) ino ↔
      ∃ kind', Located folders files ino (path ++ [s]) kind' := by
  rw [showsName_mem_iff h hbuilt hm]
  constructor
  · rintro ⟨path', kind₁, s', kind', hlocated', hname, hino⟩
    obtain rfl := path_of_located_ino h hlocated hlocated'
    obtain rfl := OsStr.text.inj hname
    exact ⟨kind', hino⟩
  · rintro ⟨kind', hino⟩
    exact ⟨path, kind, s, kind', hlocated, rfl, hino⟩

/-- Nothing is listed under a name that is no text. -/
theorem not_showsName_other (h : Snapshot folders files) (hbuilt : Built folders files m)
    (hm : TreeOf folders files m) (parent : ℕ) (bytes : Bytes) (ino : ℕ) :
    ¬ ShowsName (readdirMem unbounded m parent 0) (.other bytes) ino := by
  intro hino
  obtain ⟨-, -, s, -, -, hname, -⟩ := (showsName_mem_iff h hbuilt hm).mp hino
  cases hname

/-- Nothing is listed in what is not there. -/
theorem not_showsName_unknown (h : Snapshot folders files) (hbuilt : Built folders files m)
    (hm : TreeOf folders files m) {parent : ℕ}
    (hunknown : ¬ ∃ path kind, Located folders files parent path kind) (name : OsStr) (ino : ℕ) :
    ¬ ShowsName (readdirMem unbounded m parent 0) name ino := by
  intro hino
  obtain ⟨path, kind, -, -, hlocated, -⟩ := (showsName_mem_iff h hbuilt hm).mp hino
  exact hunknown ⟨path, kind, hlocated⟩

/-- A listed file is located. -/
theorem located_of_file (h : Snapshot folders files) {f : GrizolFileInfo} (hf : f ∈ files) :
    ∃ ino kind, entryId f.id = .ok ino ∧ fileType f.fileInfo.type = .ok kind ∧
      Located folders files ino (splitPath f) kind := by
  obtain ⟨kind, hkind⟩ := fileType_returns (h.types f hf)
  have hid := entryId_of_nonneg (h.rows.files f hf)
  exact ⟨_, kind, hid, hkind, .file hf hid hkind⟩

/-! ## In the tree -/

/-- The attributes of what is located. -/
theorem attrFromNode_of_located (config : OwnerConfig) (h : Snapshot folders files)
    (hm : TreeOf folders files m) {ino : ℕ} {path : List String} {kind : FileType}
    (hlocated : Located folders files ino path kind) (hne : path ≠ []) :
    ∃ node, m.tree.get path = some node ∧
      ((∀ f ∈ files, splitPath f = path → HasModifiedTime f) →
        ∃ attr, attrFromNode config node = .ok attr ∧ attr.ino = ino) ∧
      ((∃ f ∈ files, splitPath f = path ∧ ¬ HasModifiedTime f) →
        attrFromNode config node = .error .unwrap) := by
  cases hlocated with
  | root => exact absurd rfl hne
  | @folder f _ hf hid =>
      obtain ⟨serial, id, -, hnode⟩ := hm.folder f hf
      refine ⟨_, get_of_reachable hnode, fun _ => attrFromFolder_eq config hid, ?_⟩
      rintro ⟨g, -, hpath, -⟩
      exact absurd hpath (splitPath_ne_of_short le_rfl g)
  | @file f _ _ hf hid hkind =>
      obtain ⟨serial, id, -, hnode⟩ := hm.file f hf
      refine ⟨_, get_of_reachable hnode, fun htime =>
        attrFromFile_of_time config hid hkind (htime f hf rfl), ?_⟩
      rintro ⟨g, hg, hpath, htime⟩
      obtain rfl := List.inj_on_of_nodup_map h.names hg hf (splitPath_injective hpath)
      exact attrFromFile_of_no_time config htime

/-- The lookup of a text in a directory of the tree. -/
theorem lookupMem_of_located (config : OwnerConfig) (hm : TreeOf folders files m) {parent : ℕ}
    {path : List String} {kind : FileType} (hlocated : Located folders files parent path kind)
    (s : String) :
    (m.tree.get (path ++ [s]) = none →
      lookupMem config m parent (.text s) = .ok (.error .enoent)) ∧
    ∀ node, m.tree.get (path ++ [s]) = some node →
      lookupMem config m parent (.text s) =
        attrFromNode config node >>= fun attr => pure (.ok attr) := by
  obtain ⟨dir, hdir, rfl, -⟩ := node_of_located hm hlocated
  obtain ⟨weak, hweak, rfl, hupgrade⟩ := hm.resolved path dir hdir
  constructor
  · intro hnone
    simp only [lookupMem, OsStr.toStr, hweak, hupgrade, Rust.unwrap_some, Rust.ok_bind, hnone,
      Rust.pure_eq_ok]
  · intro node hnode
    simp only [lookupMem, OsStr.toStr, hweak, hupgrade, Rust.unwrap_some, Rust.ok_bind, hnode]

/-- A text in a directory is found as it is listed, when the file of that name has a time. -/
theorem lookupMem_agrees_of_located (config : OwnerConfig) (h : Snapshot folders files)
    (hbuilt : Built folders files m) (hm : TreeOf folders files m) {parent : ℕ}
    {path : List String} {kind : FileType} (hlocated : Located folders files parent path kind)
    (s : String) :
    LookupAgrees (lookupMem config m parent (.text s)) (readdirMem unbounded m parent 0) (.text s) ↔
      ∀ f ∈ files, splitPath f = path ++ [s] → HasModifiedTime f := by
  obtain ⟨hmissing, hpresent⟩ := lookupMem_of_located config hm hlocated s
  have hne : path ++ [s] ≠ [] := List.append_ne_nil_of_right_ne_nil _ (List.cons_ne_nil _ _)
  constructor
  · intro hagrees f hf hpath
    by_contra htime
    obtain ⟨ino, kind', -, -, hfile⟩ := located_of_file h hf
    rw [hpath] at hfile
    obtain ⟨node, hnode, -, hpanics⟩ := attrFromNode_of_located config h hm hfile hne
    refine absurd hagrees (@not_lookupAgrees_of_error _ .unwrap _ _ ?_)
    rw [hpresent node hnode, hpanics ⟨f, hf, hpath, htime⟩]
    rfl
  · intro htimes
    cases hnode : m.tree.get (path ++ [s]) with
    | none =>
        refine lookupAgrees_of_none (hmissing hnode) fun ino hino => ?_
        obtain ⟨kind', hchild⟩ := (showsName_of_located h hbuilt hm hlocated).mp hino
        obtain ⟨node, hreach, -, -⟩ := node_of_located hm hchild
        rw [get_of_reachable hreach] at hnode
        cases hnode
    | some node =>
        obtain ⟨dir, hdir, -, -⟩ := node_of_located hm hlocated
        obtain ⟨kind', hchild⟩ := located_of_node h hm
          (.child hdir (mem_children.mpr hnode)) hne
        obtain ⟨node', hnode', hattrs, -⟩ := attrFromNode_of_located config h hm hchild hne
        obtain rfl := Option.some.inj (hnode.symm.trans hnode')
        obtain ⟨attr, hattr, hino⟩ := hattrs htimes
        have hlookup : lookupMem config m parent (.text s) = .ok (.ok attr) := by
          rw [hpresent node hnode, hattr]
          rfl
        refine lookupAgrees_of_entry hlookup fun ino => ?_
        rw [showsName_of_located h hbuilt hm hlocated, hino]
        constructor
        · rintro ⟨kind'', hother⟩
          exact (located_unique (databaseRows_of_listing h.toListing) hchild hother).1
        · rintro rfl
          exact ⟨kind', hchild⟩

/-- **When a lookup in the tree agrees with the listing.** -/
theorem lookupMem_agrees_iff (config : OwnerConfig) (h : Snapshot folders files)
    (hbuilt : Built folders files m) (hm : TreeOf folders files m) (parent : ℕ) (name : OsStr) :
    LookupAgrees (lookupMem config m parent name) (readdirMem unbounded m parent 0) name ↔
      FoundInTree folders files parent name := by
  cases name with
  | other bytes =>
      refine iff_of_false (fun hagrees => ?_) ?_
      · cases Except.ok.inj (hagrees.notFound (not_showsName_other h hbuilt hm parent bytes))
      · rintro ⟨s, hname, -⟩
        cases hname
  | text s =>
      by_cases hparent : ∃ path kind, Located folders files parent path kind
      · obtain ⟨path, kind, hlocated⟩ := hparent
        rw [lookupMem_agrees_of_located config h hbuilt hm hlocated]
        constructor
        · intro htimes
          refine ⟨s, rfl, fun path' kind' hlocated' => ?_⟩
          rwa [path_of_located_ino h hlocated' hlocated]
        · rintro ⟨s', hname, htimes⟩
          obtain rfl := OsStr.text.inj hname
          exact htimes path kind hlocated
      · -- nothing has this number
        have hnone : m.nodes.get parent = none := by
          rw [Option.eq_none_iff_forall_ne_some]
          intro weak hweak
          exact hparent (located_of_nodes h hbuilt hweak)
        have hlookup : lookupMem config m parent (.text s) = .ok (.error .enoent) := by
          simp only [lookupMem, OsStr.toStr, hnone, Rust.pure_eq_ok]
        refine iff_of_true
          (lookupAgrees_of_none hlookup (not_showsName_unknown h hbuilt hm hparent _)) ?_
        exact ⟨s, rfl, fun path kind hlocated => absurd ⟨path, kind, hlocated⟩ hparent⟩

/-! ## From the lists -/

/-- Whether a lookup agrees depends on what is listed. -/
theorem lookupAgrees_congr {lookup : Rust (Except Errno FileAttr)}
    {r r' : Rust (Except Errno (List DirEntry))} (hsame : SameListing r r') {name : OsStr} :
    LookupAgrees lookup r name ↔ LookupAgrees lookup r' name := by
  have hshows : ∀ ino, ShowsName r name ino ↔ ShowsName r' name ino := fun ino =>
    showsName_congr hsame
  constructor
  · intro h
    exact ⟨fun ino => (h.found ino).trans (hshows ino), fun hnot =>
      h.notFound fun ino => mt (hshows ino).mp (hnot ino)⟩
  · intro h
    exact ⟨fun ino => (h.found ino).trans (hshows ino).symm, fun hnot =>
      h.notFound fun ino => mt (hshows ino).mpr (hnot ino)⟩

/-- The parts of a directory are those of its name. -/
theorem parentParts_of_file (h : Snapshot folders files) {f : GrizolFileInfo} (hf : f ∈ files)
    {parent : ℕ} (hid : entryId f.id = .ok parent) :
    parentParts files parent = Path.split f.fileInfo.name := by
  rw [parentParts]
  cases hfind : files.find? fun f => decide (entryId f.id = .ok parent) with
  | none => exact absurd hid (by simpa using List.find?_eq_none.mp hfind f hf)
  | some g =>
      have hg : entryId g.id = .ok parent := by simpa using List.find?_some hfind
      rw [List.inj_on_of_nodup_map h.fileRows (List.mem_of_find?_eq_some hfind) hf
        (entryId_injective hg hid)]
      rfl

/-- A folder has none. -/
theorem parentParts_of_lt {parent : ℕ} (hlt : parent < entriesStart) :
    parentParts files parent = [] := by
  rw [parentParts, List.find?_eq_none.mpr]
  · rfl
  · intro f _
    rw [decide_eq_true_iff]
    exact fun hid => absurd (entriesStart_le hid) (not_le.mpr hlt)

/-- The path of a directory below the root is a folder and the parts of its name. -/
theorem path_of_parent (h : Snapshot folders files) {parent : ℕ} {path : List String}
    {kind : FileType} (hlocated : Located folders files parent path kind)
    (hroot : parent ≠ fuseRootId) : ∃ top, path = top :: parentParts files parent := by
  cases hlocated with
  | root => exact absurd rfl hroot
  | @folder f _ _ hid =>
      exact ⟨f.folder.id, by rw [parentParts_of_lt (topDirId_bounds hid).2]⟩
  | @file f _ _ hf hid _ => exact ⟨f.folder, by rw [parentParts_of_file h hf hid]; rfl⟩

/-- The base directory of a known directory. -/
theorem parentDir_of_known (h : Snapshot folders files) {parent : ℕ}
    (hknown : entriesStart ≤ parent → ∃ f ∈ files, entryId f.id = .ok parent) :
    ∃ base, parentDir files parent = .ok base ∧
      Path.components base = (parentParts files parent).map Path.Component.normal := by
  by_cases hlt : parent < entriesStart
  · exact ⟨"", if_pos hlt, by rw [parentParts_of_lt hlt]; exact Path.components_empty⟩
  · obtain ⟨f, hf, hid⟩ := hknown (not_lt.mp hlt)
    have hids : ∀ f ∈ files, ∃ id, entryId f.id = .ok id := fun f hf =>
      ⟨_, entryId_of_nonneg (h.rows.files f hf)⟩
    obtain ⟨g, hg, hfound, hgid⟩ := findId_of_mem hids hf hid
    refine ⟨g.fileInfo.name, ?_, ?_⟩
    · rw [parentDir, if_neg hlt, hfound]
      rfl
    · rw [parentParts_of_file h hg hgid]
      exact Path.components_of_canonical (h.canonical g hg)

/-- The name of an unknown directory is a panic. -/
theorem parentDir_of_unknown (h : Snapshot folders files) {parent : ℕ}
    (hge : entriesStart ≤ parent) (hunknown : ¬ ∃ f ∈ files, entryId f.id = .ok parent) :
    parentDir files parent = .error .unwrap := by
  have hids : ∀ f ∈ files, ∃ id, entryId f.id = .ok id := fun f hf =>
    ⟨_, entryId_of_nonneg (h.rows.files f hf)⟩
  rw [parentDir, if_neg (not_lt.mpr hge), findId_of_not_mem hids fun f hf hid =>
    hunknown ⟨f, hf, hid⟩]
  rfl

/-- The last part of a canonical name. -/
theorem hasFileName_iff {f : GrizolFileInfo} (hf : Path.Canonical f.fileInfo.name)
    {parts : List String} {last : String} (hsplit : Path.split f.fileInfo.name = parts ++ [last])
    (name : OsStr) : hasFileName name f = true ↔ name = .text last := by
  have hlast : Path.fileName (Path.components f.fileInfo.name) = some last := by
    rw [Path.components_of_canonical hf, hsplit, Path.fileName, List.map_append]
    simp
  rw [hasFileName, hlast]
  simp [eq_comm]

/-- The search takes the first file of the relative name. -/
theorem find_eq_firstNamed (h : Snapshot folders files) {base : String} {parts : List String}
    (hbase : Path.components base = parts.map Path.Component.normal) (s : String) :
    (files.filter (hasFileName (.text s))).find? (isFileInCurrentDir base) =
      firstNamed files (parts ++ [s]) := by
  rw [List.find?_filter, firstNamed]
  refine List.find?_congr fun f hf => ?_
  rw [decide_eq_decide, isFileInCurrentDir_iff hbase (h.canonical f hf)]
  constructor
  · rintro ⟨hname, last, hsplit⟩
    rw [hasFileName_iff (h.canonical f hf) hsplit] at hname
    rw [hsplit, OsStr.text.inj hname]
  · intro hsplit
    exact ⟨(hasFileName_iff (h.canonical f hf) hsplit _).mpr rfl, s, hsplit⟩

/-- No file has a name that is no text. -/
theorem find_other (h : Snapshot folders files) (base : String) (bytes : Bytes) :
    (files.filter (hasFileName (.other bytes))).find? (isFileInCurrentDir base) = none := by
  have hnone : files.filter (hasFileName (.other bytes)) = [] := by
    refine List.filter_eq_nil_iff.mpr fun f hf => ?_
    have hsplit := (List.dropLast_append_getLast (Path.split_ne_nil f.fileInfo.name)).symm
    rw [hasFileName_iff (h.canonical f hf) hsplit]
    intro hname
    cases hname
  rw [hnone]
  rfl

/-- A lookup below the root. -/
theorem lookupDb_below (config : OwnerConfig) {parent : ℕ} (hroot : parent ≠ fuseRootId)
    (name : OsStr) : lookupDb config folders files parent name =
      parentDir files parent >>= fun base => replyEntry (attrFromFile config)
        ((files.filter (hasFileName name)).find? (isFileInCurrentDir base)) := by
  rw [lookupDb, if_neg hroot]

/-- **A text below the root** is found as it is listed, when the first file of the relative name
is in the folder and has a time. -/
theorem lookupDb_text_agrees_iff (config : OwnerConfig) (h : Snapshot folders files)
    (hbuilt : Built folders files m) (hm : TreeOf folders files m) {parent : ℕ}
    (hroot : parent ≠ fuseRootId)
    (hknown : entriesStart ≤ parent → ∃ f ∈ files, entryId f.id = .ok parent) (s : String) :
    LookupAgrees (lookupDb config folders files parent (.text s))
        (readdirMem unbounded m parent 0) (.text s) ↔
      ∀ f, firstNamed files (parentParts files parent ++ [s]) = some f →
        HasModifiedTime f ∧
          ∃ path kind, Located folders files parent path kind ∧ [f.folder] <+: path := by
  obtain ⟨base, hdir, hbase⟩ := parentDir_of_known h hknown
  have hlookup : lookupDb config folders files parent (.text s) = replyEntry (attrFromFile config)
      (firstNamed files (parentParts files parent ++ [s])) := by
    rw [lookupDb_below config hroot, hdir, Rust.ok_bind, find_eq_firstNamed h hbase]
  cases hfirst : firstNamed files (parentParts files parent ++ [s]) with
  | none =>
      rw [hfirst] at hlookup
      refine iff_of_true (lookupAgrees_of_none hlookup fun ino hino => ?_) (by simp)
      obtain ⟨path, kind, s', kind', hlocated, hname, hchild⟩ :=
        (showsName_mem_iff h hbuilt hm).mp hino
      obtain rfl := OsStr.text.inj hname
      obtain ⟨top, rfl⟩ := path_of_parent h hlocated hroot
      obtain ⟨f, hf, hpath, -, -⟩ := file_of_located hchild
      have hnot := List.find?_eq_none.mp hfirst f hf
      exact hnot (decide_eq_true (List.cons.inj hpath).2)
  | some f =>
      have hf : f ∈ files := List.mem_of_find?_eq_some hfirst
      have hsplit : Path.split f.fileInfo.name = parentParts files parent ++ [s] := by
        simpa using List.find?_some hfirst
      obtain ⟨ino, kind, hid, hkind, hfile⟩ := located_of_file h hf
      rw [hfirst] at hlookup
      by_cases htime : HasModifiedTime f
      · obtain ⟨attr, hattr, rfl⟩ := attrFromFile_of_time config hid hkind htime
        have hentry : lookupDb config folders files parent (.text s) = .ok (.ok attr) := by
          rw [hlookup, replyEntry, hattr]
          rfl
        constructor
        · rintro hagrees _ ⟨⟩
          obtain ⟨path, kind', s', kind'', hlocated, hname, hchild⟩ :=
            (showsName_mem_iff h hbuilt hm).mp ((hagrees.found attr.ino).mp ⟨attr, hentry, rfl⟩)
          obtain ⟨top, rfl⟩ := path_of_parent h hlocated hroot
          have hpath := path_of_located_ino h hfile hchild
          refine ⟨htime, _, kind', hlocated, ?_⟩
          rw [(List.cons.inj hpath).1]
          exact ⟨_, rfl⟩
        · intro hfound
          obtain ⟨-, path, kind', hlocated, habove⟩ := hfound f rfl
          obtain ⟨top, rfl⟩ := path_of_parent h hlocated hroot
          obtain rfl : f.folder = top := (List.cons_prefix_cons.mp habove).1
          have hpath : f.folder :: parentParts files parent ++ [s] = splitPath f := by
            rw [splitPath, hsplit]
            rfl
          refine lookupAgrees_of_entry hentry fun ino' => ?_
          rw [showsName_of_located h hbuilt hm hlocated, hpath]
          constructor
          · rintro ⟨kind'', hother⟩
            exact (located_unique (databaseRows_of_listing h.toListing) hfile hother).1
          · rintro rfl
            exact ⟨kind, hfile⟩
      · refine iff_of_false (@not_lookupAgrees_of_error _ .unwrap _ _ ?_)
          fun hfound => htime (hfound f rfl).1
        rw [hlookup, replyEntry, attrFromFile_of_no_time config htime]
        rfl

/-- **At the root** every text is found as it is listed; other names panic where there are
folders. -/
theorem lookupDb_root_agrees_iff (config : OwnerConfig) (h : Snapshot folders files)
    (hbuilt : Built folders files m) (hm : TreeOf folders files m) (name : OsStr) :
    LookupAgrees (lookupDb config folders files fuseRootId name)
        (readdirMem unbounded m fuseRootId 0) name ↔
      folders = [] ∨ ∃ s, name = .text s := by
  have hlookup : lookupDb config folders files fuseRootId name =
      findFolder folders name >>= fun folder => replyEntry (attrFromFolder config) folder := by
    rw [lookupDb, if_pos rfl]
  cases name with
  | other bytes =>
      cases folders with
      | nil =>
          exact iff_of_true
            (lookupAgrees_of_none hlookup (not_showsName_other h hbuilt hm fuseRootId bytes))
            (Or.inl rfl)
      | cons f folders =>
          refine iff_of_false (not_lookupAgrees_of_error hlookup) ?_
          rintro (hnil | ⟨s, hname⟩)
          · cases hnil
          · cases hname
  | text s =>
      refine iff_of_true ?_ (Or.inr ⟨s, rfl⟩)
      have hfind : findFolder folders (.text s) =
          .ok (folders.find? fun f => decide (f.folder.id = s)) := by
        cases folders with
        | nil => rfl
        | cons f folders => rfl
      rw [hfind, Rust.ok_bind] at hlookup
      have hshows : ∀ ino, ShowsName (readdirMem unbounded m fuseRootId 0) (.text s) ino ↔
          ∃ kind, Located folders files ino [s] kind := fun ino =>
        showsName_of_located h hbuilt hm .root
      cases hfound : folders.find? fun f => decide (f.folder.id = s) with
      | none =>
          rw [hfound] at hlookup
          refine lookupAgrees_of_none hlookup fun ino hino => ?_
          obtain ⟨kind, hchild⟩ := (hshows ino).mp hino
          obtain ⟨f, hf, hname, -, -⟩ := folder_of_located hchild
          exact absurd hname (by simpa using List.find?_eq_none.mp hfound f hf)
      | some f =>
          have hf : f ∈ folders := List.mem_of_find?_eq_some hfound
          have hname : f.folder.id = s := by simpa using List.find?_some hfound
          have hid := topDirId_of_rows (h.rows.folders f hf)
          obtain ⟨attr, hattr, hino⟩ := attrFromFolder_eq config hid
          have hfolder := @Located.folder folders files f _ hf hid
          rw [hname, ← hino] at hfolder
          have hentry : lookupDb config folders files fuseRootId (.text s) = .ok (.ok attr) := by
            rw [hlookup, hfound, replyEntry, hattr]
            rfl
          refine lookupAgrees_of_entry hentry fun ino => ?_
          rw [hshows ino]
          constructor
          · rintro ⟨kind, hother⟩
            exact (located_unique (databaseRows_of_listing h.toListing) hfolder hother).1
          · rintro rfl
            exact ⟨_, hfolder⟩

/-- **When a lookup in the lists agrees with the listing.** -/
theorem lookupDb_agrees_iff (config : OwnerConfig) (h : Snapshot folders files)
    (hbuilt : Built folders files m) (hm : TreeOf folders files m) (parent : ℕ) (name : OsStr) :
    LookupAgrees (lookupDb config folders files parent name)
        (readdirDb unbounded folders files parent 0) name ↔
      FoundInLists folders files parent name := by
  rw [← lookupAgrees_congr (sameListing_of_built h hbuilt parent)]
  by_cases hroot : parent = fuseRootId
  · subst hroot
    rw [lookupDb_root_agrees_iff config h hbuilt hm]
    exact ⟨fun hname => ⟨fun _ => hname, fun hge => absurd hge (by decide),
      fun hne => absurd rfl hne⟩, fun hfound => hfound.root rfl⟩
  by_cases hknown : entriesStart ≤ parent → ∃ f ∈ files, entryId f.id = .ok parent
  · cases name with
    | other bytes =>
        obtain ⟨base, hdir, -⟩ := parentDir_of_known h hknown
        have hlookup : lookupDb config folders files parent (.other bytes) =
            .ok (.error .enoent) := by
          rw [lookupDb_below config hroot, hdir, Rust.ok_bind, find_other h]
          rfl
        refine iff_of_true
          (lookupAgrees_of_none hlookup (not_showsName_other h hbuilt hm parent bytes)) ?_
        exact ⟨fun heq => absurd heq hroot, hknown, fun _ s hname => by cases hname⟩
    | text s =>
        rw [lookupDb_text_agrees_iff config h hbuilt hm hroot hknown]
        constructor
        · intro hfirst
          refine ⟨fun heq => absurd heq hroot, hknown, fun _ s' hname => ?_⟩
          obtain rfl := OsStr.text.inj hname
          exact hfirst
        · exact fun hfound => hfound.first hroot s rfl
  · have hge : entriesStart ≤ parent := by
      by_contra hlt
      exact hknown fun hge => absurd hge hlt
    refine iff_of_false (@not_lookupAgrees_of_error _ .unwrap _ _ ?_) fun hfound =>
      hknown hfound.known
    rw [lookupDb_below config hroot,
      parentDir_of_unknown h hge fun hfile => hknown fun _ => hfile]
    rfl

/-- **When a lookup agrees with the listing**, in the tree of a snapshot and in its lists, for
every inode number of a directory and every name. -/
theorem lookup_agrees_iff (config : OwnerConfig) (h : Snapshot folders files) :
    ∃ fuel m, refreshFoldersFiles fuel folders files .new = .ok m ∧ ∀ parent name,
      (LookupAgrees (lookupMem config m parent name) (readdirMem unbounded m parent 0) name ↔
        FoundInTree folders files parent name) ∧
      (LookupAgrees (lookupDb config folders files parent name)
          (readdirDb unbounded folders files parent 0) name ↔
        FoundInLists folders files parent name) := by
  obtain ⟨fuel, m₁, m, hrun, hfolders, hfiles⟩ := refreshFoldersFiles_loads h.toListing .new
  have hrows := databaseRows_of_listing h.toListing
  have hrooted : Rooted m := @rooted_afterRefresh .new m ⟨folders, files, hrows, fuel⟩
    (afterRefresh_eq_some.mpr hrun) rooted_new
  have hbuilt := built_of_loaded hfolders hfiles
  have hm := treeOf_of_loaded hrows h.parents hrooted (inside_new folders) hfolders hfiles
  exact ⟨fuel, m, hrun, fun parent name => ⟨lookupMem_agrees_iff config h hbuilt hm parent name,
    lookupDb_agrees_iff config h hbuilt hm parent name⟩⟩

end Directories

/-- Witness: in the nested files the lookup of a directory agrees with the listing in both
modes. -/
theorem lookup_agrees_iff_nested :
    ∃ fuel m, refreshFoldersFiles fuel [⟨{ id := "default" }, 1⟩] nestedFiles .new = .ok m ∧
      LookupAgrees (lookupMem ⟨1000, 1000⟩ m 11 (.text "a")) (readdirMem unbounded m 11 0)
        (.text "a") ∧
      LookupAgrees (lookupDb ⟨1000, 1000⟩ [⟨{ id := "default" }, 1⟩] nestedFiles 11 (.text "a"))
        (readdirDb unbounded [⟨{ id := "default" }, 1⟩] nestedFiles 11 0) (.text "a") := by
  obtain ⟨fuel, m, hm, hagrees⟩ := lookup_agrees_iff ⟨1000, 1000⟩ snapshot_nested
  obtain ⟨htree, hlists⟩ := hagrees 11 (.text "a")
  have htimes : ∀ f ∈ nestedFiles, HasModifiedTime f := by
    unfold HasModifiedTime
    decide +kernel
  refine ⟨fuel, m, hm, htree.mpr ⟨"a", rfl, fun _ _ _ f hf _ => htimes f hf⟩, hlists.mpr ?_⟩
  constructor
  · intro hroot
    exact absurd hroot (by decide)
  · intro hentry
    exact absurd hentry (by decide)
  · intro _ s hs f hfirst
    cases hs
    have hfound : firstNamed nestedFiles (parentParts nestedFiles 11 ++ ["a"]) =
        some ⟨{ name := "a", type := 1 }, [], "default", 1⟩ := by decide +kernel
    obtain rfl := Option.some.inj (hfound.symm.trans hfirst)
    exact ⟨htimes _ (List.mem_of_find?_eq_some hfirst), ["default"], .directory,
      .folder (List.mem_singleton_self _) (by decide), List.prefix_refl _⟩

/-- Two folders. -/
def twoFolders : List GrizolFolder := [⟨{ id := "a" }, 1⟩, ⟨{ id := "b" }, 2⟩]

/-- A file of the same name in each. -/
def sameNames : List GrizolFileInfo := [⟨{ name := "x" }, [], "a", 1⟩, ⟨{ name := "x" }, [], "b", 2⟩]

/-- The two files of one name are a snapshot. -/
theorem snapshot_sameNames : Snapshot twoFolders sameNames := by
  refine ⟨⟨by decide, by decide, by decide, by decide, ⟨by decide, by decide⟩, ?_⟩, by decide, ?_⟩
  · have hinits : ∀ file ∈ sameNames, ∀ path ∈ (splitPath file).inits, path ≠ [] →
        path ∈ listedPaths twoFolders sameNames := by decide +kernel
    intro file hfile path hne habove
    exact hinits file hfile path ((List.mem_inits path _).mpr habove) hne
  · unfold Path.Canonical
    decide +kernel

/-- The lookup in the second folder replies with the file of the first. -/
theorem sameNames_disagree :
    Snapshot twoFolders sameNames ∧
      (∃ attr, lookupDb ⟨1000, 1000⟩ twoFolders sameNames 12 (.text "x") = .ok (.ok attr) ∧
        attr.ino = 1 + entriesStart) ∧
      readdirDb unbounded twoFolders sameNames 12 0 =
        .ok (.ok [⟨2 + entriesStart, 1, .regularFile, "x"⟩]) ∧
      ¬ LookupAgrees (lookupDb ⟨1000, 1000⟩ twoFolders sameNames 12 (.text "x"))
          (readdirDb unbounded twoFolders sameNames 12 0) (.text "x") := by
  have hlookup : ∃ attr, lookupDb ⟨1000, 1000⟩ twoFolders sameNames 12 (.text "x") =
      .ok (.ok attr) ∧ attr.ino = 1 + entriesStart := ⟨_, rfl, by decide +kernel⟩
  have hlisting : readdirDb unbounded twoFolders sameNames 12 0 =
      .ok (.ok [⟨2 + entriesStart, 1, .regularFile, "x"⟩]) := by decide +kernel
  refine ⟨snapshot_sameNames, hlookup, hlisting, fun hagrees => ?_⟩
  obtain ⟨entries, hentries, e, he, -, hino⟩ := (hagrees.found (1 + entriesStart)).mp hlookup
  rw [hlisting] at hentries
  obtain rfl := Except.ok.inj (Except.ok.inj hentries)
  obtain rfl := List.mem_singleton.mp he
  exact absurd hino (by decide)

end Grizol.Analysis
