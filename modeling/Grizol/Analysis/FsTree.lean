import Mathlib.Order.WellFounded
import Grizol.Interface.Listings

/-!
# What a refresh builds

A file goes into the tree when the nodes above it are there, and what is at its path and
below goes (`get_insertNode`). While the queue of the refresh is not empty one of its
files has no parent in the queue, so it is inserted within one round; that is the
induction on the number of files behind `insertFiles_loads`.
-/

set_option autoImplicit false

namespace Grizol.Analysis

open Grizol.Library
open Grizol.Model Grizol.Model.Syncthing Grizol.Interface

open GrizolFsMem (splitPath)

/-! ## One node -/

section Nodes

variable (m : GrizolFsMem) (path : List String) (id : ℕ) (fileType : GrizolFSFileType)

/-- A node that is inserted drops what was below its path. -/
theorem get_insertNode (p : List String) :
    (m.insertNode path id fileType).tree.get p =
      if p = path then some ⟨m.created, id, fileType⟩
      else if path <+: p then none else m.tree.get p := by
  show ((m.tree.retain _).insert path _).get p = _
  rw [AssocMap.get_insert, AssocMap.get_retain]
  refine if_congr Iff.rfl rfl ?_
  by_cases hbelow : path <+: p
  · simp [hbelow]
  · have hkept : path.isPrefixOf p = false :=
      Bool.eq_false_iff.mpr fun habove => hbelow (List.isPrefixOf_iff_prefix.mp habove)
    rw [if_neg hbelow, hkept]
    cases m.tree.get p <;> rfl

/-- And its inode number is that of its path. -/
theorem nodes_insertNode (ino : ℕ) : (m.insertNode path id fileType).nodes.get ino =
    if ino = id then some ⟨path, m.created⟩ else m.nodes.get ino :=
  AssocMap.get_insert _ _ _ _

end Nodes

/-- A proper prefix leaves at least the last part out. -/
theorem prefix_dropLast {α : Type} {l p : List α} (h : p <+: l) (hne : p ≠ l) :
    p <+: l.dropLast := by
  obtain ⟨t, rfl⟩ := h
  have ht : t ≠ [] := by
    rintro rfl
    exact hne (List.append_nil p).symm
  rw [List.dropLast_append_of_ne_nil ht]
  exact List.prefix_append _ _

/-- A path has a last part. -/
theorem splitPath_eq (file : GrizolFileInfo) : ∃ nodeName,
    (splitPath file).getLast? = some nodeName ∧
      (splitPath file).dropLast ++ [nodeName] = splitPath file := by
  have hne : splitPath file ≠ [] := List.cons_ne_nil _ _
  exact ⟨_, List.getLast?_eq_some_getLast hne, List.dropLast_append_getLast hne⟩

/-- The nodes above a file are in the tree. -/
def ParentsIn (m : GrizolFsMem) (file : GrizolFileInfo) : Prop :=
  ∀ p, p ≠ [] → p <+: (splitPath file).dropLast → m.tree.contains p = true

/-- The walk down to a parent passes every node above. -/
theorem findParent_eq_some (m : GrizolFsMem) (rest : List String) : ∀ path : List String,
    (∀ p, p ≠ [] → p <+: rest → m.tree.contains (path ++ p) = true) →
      m.findParent path rest = some (path ++ rest) := by
  induction rest with
  | nil =>
      intro path _
      simp [GrizolFsMem.findParent]
  | cons name rest ih =>
      intro path h
      have hname : m.tree.contains (path ++ [name]) = true := by
        refine h [name] (List.cons_ne_nil _ _) ?_
        simp
      have hrest := ih (path ++ [name]) fun p hp habove => by
        simpa using h (name :: p) (List.cons_ne_nil _ _) (List.prefix_cons_inj name |>.mpr habove)
      rw [GrizolFsMem.findParent, if_pos hname, hrest]
      simp

/-- On the way to a parent every node is there. -/
theorem findParent_isSome (m : GrizolFsMem) (rest : List String) : ∀ path parent : List String,
    m.findParent path rest = some parent →
      ∀ p, p ≠ [] → p <+: rest → m.tree.contains (path ++ p) = true := by
  induction rest with
  | nil =>
      intro path parent _ p hp habove
      exact absurd (List.prefix_nil.mp habove) hp
  | cons name rest ih =>
      intro path parent h p hp habove
      rw [GrizolFsMem.findParent] at h
      split_ifs at h with hname
      obtain ⟨q, rfl⟩ : ∃ q, p = name :: q := by
        cases p with
        | nil => exact absurd rfl hp
        | cons a q => exact ⟨q, by rw [(List.cons_prefix_cons.mp habove).1]⟩
      have hq : q <+: rest := (List.cons_prefix_cons.mp habove).2
      by_cases hnil : q = []
      · rw [hnil]
        exact hname
      · simpa using ih (path ++ [name]) parent h q hnil hq

/-- A file whose directories are there is inserted. -/
theorem insertFile_of_parents {m : GrizolFsMem} {file : GrizolFileInfo} (h : ParentsIn m file)
    {id : ℕ} (hid : entryId file.id = .ok id) :
    m.insertFile file = .ok (.ok (m.insertNode (splitPath file) id (.file file))) := by
  obtain ⟨nodeName, hlast, hpath⟩ := splitPath_eq file
  have hparent := findParent_eq_some m (splitPath file).dropLast [] h
  rw [List.nil_append] at hparent
  simp only [GrizolFsMem.insertFile, hparent, hid, hlast, Rust.unwrap_some, Rust.ok_bind, hpath,
    Rust.pure_eq_ok]

/-- One without an inode number is a panic. -/
theorem insertFile_of_no_number {m : GrizolFsMem} {file : GrizolFileInfo} (h : ParentsIn m file)
    {e : Fault} (hid : entryId file.id = .error e) : m.insertFile file = .error e := by
  have hparent := findParent_eq_some m (splitPath file).dropLast [] h
  simp only [GrizolFsMem.insertFile, hparent, hid, Rust.error_bind]

/-- One without a parent is refused. -/
theorem insertFile_of_no_parent {m : GrizolFsMem} {file : GrizolFileInfo}
    (h : ¬ ParentsIn m file) : m.insertFile file = .ok (.error (.noParent file)) := by
  have hparent : m.findParent [] (splitPath file).dropLast = none := by
    rw [Option.eq_none_iff_forall_ne_some]
    intro parent hsome
    exact h (findParent_isSome m _ [] parent hsome)
  simp only [GrizolFsMem.insertFile, hparent, Rust.pure_eq_ok]

/-! ## The queue -/

/-- Rows have different inode numbers. -/
theorem entryId_injective {a b : Int64} {id : ℕ} (ha : entryId a = .ok id)
    (hb : entryId b = .ok id) : a = b := by
  have hnat : ∀ {x : Int64}, entryId x = .ok id → x.toUInt64.toNat + entriesStart = id := by
    intro x hx
    rw [entryId, Rust.add] at hx
    split_ifs at hx
    exact Except.ok.inj hx
  have hsame : a.toUInt64 = b.toUInt64 := UInt64.toNat_inj.mp (by
    have h₁ := hnat ha
    have h₂ := hnat hb
    omega)
  cases a
  cases b
  exact congrArg Int64.ofUInt64 hsame

/-- The files that are still to be inserted: what is above each is in the tree or in the list,
and nothing is in the tree where one of them goes. -/
structure Waiting (m : GrizolFsMem) (files : List GrizolFileInfo) : Prop where
  parents : ∀ f ∈ files, ∀ p, p ≠ [] → p <+: (splitPath f).dropLast →
    m.tree.contains p = true ∨ ∃ g ∈ files, splitPath g = p
  free : ∀ f ∈ files, ∀ p, splitPath f <+: p → m.tree.get p = none
  paths : (files.map splitPath).Nodup

/-- Files that have inode numbers of their own. -/
structure Queue (m : GrizolFsMem) (files : List GrizolFileInfo) : Prop extends Waiting m files where
  ids : ∀ f ∈ files, ∃ id, entryId f.id = .ok id
  rows : (files.map GrizolFileInfo.id).Nodup

/-- The tree with the files of a list at their paths, and otherwise as it was. -/
structure Loaded (m : GrizolFsMem) (files : List GrizolFileInfo) (m' : GrizolFsMem) : Prop where
  file : ∀ f ∈ files, ∃ id serial, entryId f.id = .ok id ∧
    m'.tree.get (splitPath f) = some ⟨serial, id, .file f⟩ ∧
      m'.nodes.get id = some ⟨splitPath f, serial⟩
  other : ∀ p, (∀ f ∈ files, splitPath f ≠ p) → m'.tree.get p = m.tree.get p
  otherNode : ∀ ino, (∀ f ∈ files, entryId f.id ≠ .ok ino) → m'.nodes.get ino = m.nodes.get ino

namespace Waiting

variable {m : GrizolFsMem} {files : List GrizolFileInfo}

/-- A file of least depth has its parents in the tree. -/
theorem exists_ready (h : Waiting m files) (hne : files ≠ []) : ∃ f ∈ files, ParentsIn m f := by
  obtain ⟨f, hf, hleast⟩ := (measure fun f => (splitPath f).length).wf.has_min
    { f | f ∈ files } (List.exists_mem_of_ne_nil files hne)
  refine ⟨f, hf, fun p hp habove => ?_⟩
  rcases h.parents f hf p hp habove with hin | ⟨g, hg, rfl⟩
  · exact hin
  · have hlen := habove.length_le
    have hle : ¬ (splitPath g).length < (splitPath f).length := hleast g hg
    have hpos : 0 < (splitPath f).length := List.length_pos_of_ne_nil (List.cons_ne_nil _ _)
    rw [List.length_dropLast] at hlen
    omega

/-- The first file of the list that has its parents in the tree. -/
theorem exists_first (h : Waiting m files) (hne : files ≠ []) :
    ∃ waiting f rest, files = waiting ++ f :: rest ∧ ParentsIn m f ∧
      ∀ g ∈ waiting, ¬ ParentsIn m g := by
  classical
  obtain ⟨f, hf, hready⟩ := h.exists_ready hne
  have hfound : (files.find? fun f => decide (ParentsIn m f)).isSome = true :=
    List.find?_isSome.mpr ⟨f, hf, decide_eq_true hready⟩
  obtain ⟨g, hg⟩ := Option.isSome_iff_exists.mp hfound
  obtain ⟨hready, waiting, rest, hfiles, hwaiting⟩ := List.find?_eq_some_iff_append.mp hg
  exact ⟨waiting, g, rest, hfiles, of_decide_eq_true hready, fun k hk => by
    simpa using hwaiting k hk⟩

/-- The list in another order. -/
theorem perm {files' : List GrizolFileInfo} (h : Waiting m files) (hperm : files.Perm files') :
    Waiting m files' where
  parents f hf p hp habove :=
    (h.parents f (hperm.mem_iff.mpr hf) p hp habove).imp_right fun ⟨g, hg, hpath⟩ =>
      ⟨g, hperm.mem_iff.mp hg, hpath⟩
  free f hf := h.free f (hperm.mem_iff.mpr hf)
  paths := (hperm.map _).nodup_iff.mp h.paths

variable {f : GrizolFileInfo}

/-- The rest of the list when its first file is in the tree. -/
theorem tail (h : Waiting m (f :: files)) (hready : ParentsIn m f) (id : ℕ) :
    Waiting (m.insertNode (splitPath f) id (.file f)) files := by
  have hpaths := List.nodup_cons.mp h.paths
  have hfree := h.free f List.mem_cons_self
  refine ⟨?_, ?_, hpaths.2⟩
  · intro g hg p hp habove
    rcases h.parents g (List.mem_cons_of_mem _ hg) p hp habove with hin | ⟨k, hk, rfl⟩
    · refine Or.inl ?_
      obtain ⟨node, hnode⟩ := AssocMap.contains_iff.mp hin
      have hbelow : ¬ splitPath f <+: p := fun hbelow => by
        rw [hfree p hbelow] at hnode
        cases hnode
      have hne : p ≠ splitPath f := fun heq => hbelow (heq ▸ List.prefix_refl _)
      refine AssocMap.contains_iff.mpr ⟨node, ?_⟩
      rw [get_insertNode, if_neg hne, if_neg hbelow, hnode]
    · rcases List.mem_cons.mp hk with rfl | hk
      · refine Or.inl (AssocMap.contains_iff.mpr ⟨⟨m.created, id, .file k⟩, ?_⟩)
        rw [get_insertNode, if_pos rfl]
      · exact Or.inr ⟨k, hk, rfl⟩
  · intro g hg p habove
    rw [get_insertNode]
    split_ifs with hp hbelow
    · -- a file above the new node would be in the tree already
      rw [hp] at habove
      have hne : splitPath g ≠ splitPath f := fun heq =>
        hpaths.1 (heq ▸ List.mem_map_of_mem hg)
      have hin := hready (splitPath g) (List.cons_ne_nil _ _) (prefix_dropLast habove hne)
      rw [AssocMap.contains, h.free g (List.mem_cons_of_mem _ hg) _ (List.prefix_refl _)] at hin
      cases hin
    · rfl
    · exact h.free g (List.mem_cons_of_mem _ hg) p habove

end Waiting

namespace Queue

variable {m : GrizolFsMem} {files : List GrizolFileInfo}

/-- The order of a queue does not matter. -/
theorem perm {files' : List GrizolFileInfo} (h : Queue m files) (hperm : files.Perm files') :
    Queue m files' where
  toWaiting := h.toWaiting.perm hperm
  ids f hf := h.ids f (hperm.mem_iff.mpr hf)
  rows := (hperm.map _).nodup_iff.mp h.rows

/-- Behind a file that was ready the queue is a queue again. -/
theorem tail {f : GrizolFileInfo} (h : Queue m (f :: files)) (hready : ParentsIn m f) (id : ℕ) :
    Queue (m.insertNode (splitPath f) id (.file f)) files where
  toWaiting := h.toWaiting.tail hready id
  ids g hg := h.ids g (List.mem_cons_of_mem _ hg)
  rows := (List.nodup_cons.mp h.rows).2

end Queue

/-- Files without a parent go to the end, one after the other. -/
theorem insertFiles_rotate {m : GrizolFsMem} (fuel : ℕ) (waiting : List GrizolFileInfo) :
    ∀ rest : List GrizolFileInfo, (∀ f ∈ waiting, ¬ ParentsIn m f) →
      insertFiles (waiting.length + fuel) (waiting ++ rest) m =
        insertFiles fuel (rest ++ waiting) m := by
  induction waiting with
  | nil =>
      intro rest _
      simp
  | cons f waiting ih =>
      intro rest h
      obtain ⟨hf, hwaiting⟩ := List.forall_mem_cons.mp h
      have hlen : (f :: waiting).length + fuel = waiting.length + fuel + 1 := by
        rw [List.length_cons]
        omega
      rw [hlen, List.cons_append, insertFiles, insertFile_of_no_parent hf, Rust.ok_bind]
      dsimp only
      rw [List.append_assoc, ih (rest ++ [f]) hwaiting, List.append_assoc, List.singleton_append]

/-- What was loaded, with the file that went first. -/
theorem Loaded.cons {m m' : GrizolFsMem} {files : List GrizolFileInfo} {f : GrizolFileInfo}
    {id : ℕ} (hqueue : Queue m (f :: files)) (hid : entryId f.id = .ok id)
    (h : Loaded (m.insertNode (splitPath f) id (.file f)) files m') : Loaded m (f :: files) m' := by
  have hpaths := List.nodup_cons.mp hqueue.paths
  have hrows := List.nodup_cons.mp hqueue.rows
  constructor
  · intro g hg
    rcases List.mem_cons.mp hg with rfl | hg
    · refine ⟨id, m.created, hid, ?_, ?_⟩
      · have hother : ∀ k ∈ files, splitPath k ≠ splitPath g := fun k hk heq =>
          hpaths.1 (heq ▸ List.mem_map_of_mem hk)
        rw [h.other _ hother, get_insertNode, if_pos rfl]
      · have hother : ∀ k ∈ files, entryId k.id ≠ .ok id := fun k hk heq =>
          hrows.1 (entryId_injective heq hid ▸ List.mem_map_of_mem hk)
        rw [h.otherNode _ hother, nodes_insertNode, if_pos rfl]
    · exact h.file g hg
  · intro p hp
    obtain ⟨hpf, hp⟩ := List.forall_mem_cons.mp hp
    rw [h.other p hp, get_insertNode, if_neg (Ne.symm hpf)]
    split_ifs with hbelow
    · exact (hqueue.free f List.mem_cons_self p hbelow).symm
    · rfl
  · intro ino hino
    obtain ⟨hf, hino⟩ := List.forall_mem_cons.mp hino
    have hne : ino ≠ id := fun heq => hf (heq ▸ hid)
    rw [h.otherNode ino hino, nodes_insertNode, if_neg hne]

/-- What was loaded does not depend on the order. -/
theorem Loaded.perm {m m' : GrizolFsMem} {files files' : List GrizolFileInfo}
    (h : Loaded m files m') (hperm : files.Perm files') : Loaded m files' m' where
  file f hf := h.file f (hperm.mem_iff.mpr hf)
  other p hp := h.other p fun f hf => hp f (hperm.mem_iff.mp hf)
  otherNode ino hino := h.otherNode ino fun f hf => hino f (hperm.mem_iff.mp hf)

/-- **The loop of the refresh ends and loads every file**, when what is above each file is in
the tree or comes with it. -/
theorem insertFiles_loads (n : ℕ) : ∀ {files : List GrizolFileInfo} {m : GrizolFsMem},
    files.length = n → Queue m files →
      ∃ fuel m', insertFiles fuel files m = .ok m' ∧ Loaded m files m' := by
  induction n with
  | zero =>
      intro files m hlen _
      rw [List.length_eq_zero_iff] at hlen
      subst hlen
      exact ⟨0, m, rfl, by simp, fun _ _ => rfl, fun _ _ => rfl⟩
  | succ n ih =>
      intro files m hlen hqueue
      have hne : files ≠ [] := by
        rintro rfl
        cases hlen
      obtain ⟨waiting, f, rest, rfl, hready, hwaiting⟩ := hqueue.exists_first hne
      have hperm : (waiting ++ f :: rest).Perm (f :: (rest ++ waiting)) :=
        List.perm_middle.trans (List.Perm.cons f List.perm_append_comm)
      have hqueue := hqueue.perm hperm
      obtain ⟨id, hid⟩ := hqueue.ids f List.mem_cons_self
      have hlen : (rest ++ waiting).length = n := by
        have hsame := hperm.length_eq
        rw [hlen, List.length_cons] at hsame
        omega
      obtain ⟨fuel, m', hrun, hloaded⟩ := ih hlen (hqueue.tail hready id)
      refine ⟨waiting.length + (fuel + 1), m', ?_, (hloaded.cons hqueue hid).perm hperm.symm⟩
      rw [insertFiles_rotate (fuel + 1) waiting (f :: rest) hwaiting, List.cons_append, insertFiles,
        insertFile_of_parents hready hid, Rust.ok_bind]
      exact hrun

/-- A number that overflows is no divergence. -/
theorem entryId_ne_divergence {id : Int64} {e : Fault} (h : entryId id = .error e) :
    e ≠ .divergence := by
  rw [entryId, Rust.add] at h
  split_ifs at h
  obtain rfl := Except.error.inj h
  simp

/-- **The loop ends**, whatever the numbers of the rows. -/
theorem insertFiles_ends (n : ℕ) : ∀ {files : List GrizolFileInfo} {m : GrizolFsMem},
    files.length = n → Waiting m files →
      ∃ fuel, insertFiles fuel files m ≠ .error .divergence := by
  induction n with
  | zero =>
      intro files m hlen _
      rw [List.length_eq_zero_iff] at hlen
      subst hlen
      exact ⟨0, by simp [insertFiles]⟩
  | succ n ih =>
      intro files m hlen hwait
      have hne : files ≠ [] := by
        rintro rfl
        cases hlen
      obtain ⟨waiting, f, rest, rfl, hready, hwaiting⟩ := hwait.exists_first hne
      have hperm : (waiting ++ f :: rest).Perm (f :: (rest ++ waiting)) :=
        List.perm_middle.trans (List.Perm.cons f List.perm_append_comm)
      have hlen : (rest ++ waiting).length = n := by
        have hsame := hperm.length_eq
        rw [hlen, List.length_cons] at hsame
        omega
      cases hid : entryId f.id with
      | error e =>
          refine ⟨waiting.length + (0 + 1), ?_⟩
          rw [insertFiles_rotate (0 + 1) waiting (f :: rest) hwaiting, List.cons_append,
            insertFiles, insertFile_of_no_number hready hid, Rust.error_bind]
          exact fun heq => entryId_ne_divergence hid (Except.error.inj heq)
      | ok id =>
          obtain ⟨fuel, hends⟩ := ih hlen ((hwait.perm hperm).tail hready id)
          refine ⟨waiting.length + (fuel + 1), ?_⟩
          rw [insertFiles_rotate (fuel + 1) waiting (f :: rest) hwaiting, List.cons_append,
            insertFiles, insertFile_of_parents hready hid, Rust.ok_bind]
          exact hends

/-- With no file that can be inserted it goes on for ever. -/
theorem insertFiles_diverges {m : GrizolFsMem} (fuel : ℕ) : ∀ {files : List GrizolFileInfo},
    files ≠ [] → (∀ f ∈ files, ¬ ParentsIn m f) →
      insertFiles fuel files m = .error .divergence := by
  induction fuel with
  | zero =>
      intro files hne _
      cases files with
      | nil => exact absurd rfl hne
      | cons f files => rfl
  | succ fuel ih =>
      intro files hne hwaiting
      cases files with
      | nil => exact absurd rfl hne
      | cons f files =>
          obtain ⟨hf, hfiles⟩ := List.forall_mem_cons.mp hwaiting
          rw [insertFiles, insertFile_of_no_parent hf, Rust.ok_bind]
          refine ih (by simp) ?_
          intro g hg
          rcases List.mem_append.mp hg with hg | hg
          · exact hfiles g hg
          · obtain rfl := List.mem_singleton.mp hg
            exact hf

/-! ## The folders -/

/-- The inode numbers of folders are below those of files. -/
theorem topDirId_eq_ok {id : Int64} {ino : ℕ} :
    topDirId id = .ok ino ↔
      id.toUInt64.toNat + topDirsStart = ino ∧ ino < entriesStart := by
  have hlt : id.toUInt64.toNat < 2 ^ 64 := UInt64.toNat_lt id.toUInt64
  rw [topDirId, Rust.add]
  by_cases hfits : id.toUInt64.toNat + topDirsStart < 2 ^ 64
  · rw [if_pos hfits, Rust.ok_bind]
    by_cases hmany : entriesStart ≤ id.toUInt64.toNat + topDirsStart
    · rw [if_pos hmany]
      constructor
      · intro h
        cases h
      · rintro ⟨rfl, hino⟩
        omega
    · rw [if_neg hmany]
      dsimp only
      rw [Rust.pure_eq_ok, Except.ok.injEq]
      omega
  · rw [if_neg hfits, Rust.error_bind]
    constructor
    · intro h
      cases h
    · rintro ⟨rfl, hino⟩
      unfold entriesStart at hino
      omega

/-- Rows of folders have different inode numbers. -/
theorem topDirId_injective {a b : Int64} {ino : ℕ} (ha : topDirId a = .ok ino)
    (hb : topDirId b = .ok ino) : a = b := by
  have hsame : a.toUInt64 = b.toUInt64 := UInt64.toNat_inj.mp (by
    have h₁ := (topDirId_eq_ok.mp ha).1
    have h₂ := (topDirId_eq_ok.mp hb).1
    omega)
  cases a
  cases b
  exact congrArg Int64.ofUInt64 hsame

/-- The tree with empty folders in the place of those listed. -/
structure FoldersLoaded (m : GrizolFsMem) (folders : List GrizolFolder) (m' : GrizolFsMem) :
    Prop where
  folder : ∀ f ∈ folders, ∃ id serial, topDirId f.id = .ok id ∧
    m'.tree.get [f.folder.id] = some ⟨serial, id, .folder f⟩ ∧
      m'.nodes.get id = some ⟨[f.folder.id], serial⟩
  below : ∀ f ∈ folders, ∀ p, [f.folder.id] <+: p → p ≠ [f.folder.id] → m'.tree.get p = none
  other : ∀ p, (∀ f ∈ folders, ¬ [f.folder.id] <+: p) → m'.tree.get p = m.tree.get p
  otherNode : ∀ ino, (∀ f ∈ folders, topDirId f.id ≠ .ok ino) → m'.nodes.get ino = m.nodes.get ino

/-- What two folders have in common is no path. -/
theorem eq_of_singleton_prefix {a b : String} {p : List String} (ha : [a] <+: p)
    (hb : [b] <+: p) : a = b := by
  obtain ⟨t, rfl⟩ := ha
  simpa using (List.cons_prefix_cons.mp hb).1.symm

/-- Folders with different names are all loaded. -/
theorem insertFolders_loads (folders : List GrizolFolder) : ∀ m : GrizolFsMem,
    (folders.map fun f => f.folder.id).Nodup → (folders.map GrizolFolder.id).Nodup →
      (∀ f ∈ folders, ∃ id, topDirId f.id = .ok id) →
        ∃ m', insertFolders folders m = .ok m' ∧ FoldersLoaded m folders m' := by
  induction folders with
  | nil =>
      intro m _ _ _
      exact ⟨m, rfl, by simp, by simp, fun _ _ => rfl, fun _ _ => rfl⟩
  | cons f folders ih =>
      intro m hids hrows hnumbered
      obtain ⟨hid, hids⟩ := List.nodup_cons.mp hids
      obtain ⟨hrow, hrows⟩ := List.nodup_cons.mp hrows
      obtain ⟨⟨id, hf⟩, hnumbered⟩ := List.forall_mem_cons.mp hnumbered
      obtain ⟨m', hrun, h⟩ := ih (m.insertNode [f.folder.id] id (.folder f)) hids hrows hnumbered
      have happart : ∀ p, [f.folder.id] <+: p → ∀ k ∈ folders, ¬ [k.folder.id] <+: p := by
        intro p hp k hk habove
        exact hid (List.mem_map.mpr ⟨k, hk, eq_of_singleton_prefix habove hp⟩)
      refine ⟨m', ?_, ?_, ?_, ?_, ?_⟩
      · rw [insertFolders, GrizolFsMem.insertFolder, hf]
        exact hrun
      · intro k hk
        rcases List.mem_cons.mp hk with rfl | hk
        · refine ⟨id, m.created, hf, ?_, ?_⟩
          · rw [h.other _ (happart _ (List.prefix_refl _)), get_insertNode, if_pos rfl]
          · have hother : ∀ j ∈ folders, topDirId j.id ≠ .ok id := fun j hj heq =>
              hrow (topDirId_injective heq hf ▸ List.mem_map_of_mem hj)
            rw [h.otherNode _ hother, nodes_insertNode, if_pos rfl]
        · exact h.folder k hk
      · intro k hk p habove hne
        rcases List.mem_cons.mp hk with rfl | hk
        · rw [h.other p (happart p habove), get_insertNode, if_neg hne, if_pos habove]
        · exact h.below k hk p habove hne
      · intro p hp
        obtain ⟨hpf, hp⟩ := List.forall_mem_cons.mp hp
        have hne : p ≠ [f.folder.id] := fun heq => hpf (heq ▸ List.prefix_refl _)
        rw [h.other p hp, get_insertNode, if_neg hne, if_neg hpf]
      · intro ino hino
        obtain ⟨hne, hino⟩ := List.forall_mem_cons.mp hino
        have hne : ino ≠ id := fun heq => hne (heq ▸ hf)
        rw [h.otherNode ino hino, nodes_insertNode, if_neg hne]

/-- Where a folder has no number the refresh stops. -/
theorem insertFolders_cases (folders : List GrizolFolder) : ∀ m : GrizolFsMem,
    (∃ e, insertFolders folders m = .error e ∧ e ≠ .divergence) ∨
      ∀ f ∈ folders, ∃ id, topDirId f.id = .ok id := by
  induction folders with
  | nil =>
      intro m
      exact Or.inr (by simp)
  | cons f folders ih =>
      intro m
      rw [insertFolders, GrizolFsMem.insertFolder]
      cases hid : topDirId f.id with
      | error e =>
          refine Or.inl ⟨e, rfl, ?_⟩
          rintro rfl
          rw [topDirId, Rust.add] at hid
          split_ifs at hid with hfits
          · rw [Rust.ok_bind] at hid
            split_ifs at hid
            · cases hid
            · cases hid
          · cases hid
      | ok id =>
          rcases ih (m.insertNode [f.folder.id] id (.folder f)) with ⟨e, hstop, hne⟩ | hnumbered
          · exact Or.inl ⟨e, hstop, hne⟩
          · exact Or.inr (List.forall_mem_cons.mpr ⟨⟨id, hid⟩, hnumbered⟩)

/-! ## A whole refresh -/

/-- The cast of a number that is not negative keeps it. -/
theorem toUInt64_of_nonneg {x : Int64} (h : 0 ≤ x.toInt) :
    x.toUInt64.toNat = x.toInt.toNat := by
  have hcond := BitVec.toInt_eq_toNat_cond x.toBitVec
  have hlt := x.toBitVec.isLt
  change x.toInt = _ at hcond
  change x.toBitVec.toNat = _
  split_ifs at hcond
  · omega
  · omega

/-- Rows of folders that have an inode number. -/
theorem topDirId_of_rows {id : Int64} (h : 0 ≤ id.toInt ∧ id.toInt + topDirsStart < entriesStart) :
    topDirId id = .ok (id.toUInt64.toNat + topDirsStart) := by
  refine topDirId_eq_ok.mpr ⟨rfl, ?_⟩
  rw [toUInt64_of_nonneg h.1]
  omega

/-- A row of a file has an inode number. -/
theorem entryId_of_nonneg {id : Int64} (h : 0 ≤ id.toInt) :
    entryId id = .ok (id.toUInt64.toNat + entriesStart) := by
  have hlt := Int64.toInt_lt id
  refine Rust.add_of_lt ?_
  rw [toUInt64_of_nonneg h]
  unfold entriesStart
  omega

section Refresh

variable {folders : List GrizolFolder} {files : List GrizolFileInfo}

/-- The folder of a listed file is listed. -/
theorem folder_of_file (h : ParentsListed folders files) {f : GrizolFileInfo} (hf : f ∈ files) :
    ∃ folder ∈ folders, folder.folder.id = f.folder := by
  have hlisted := h f hf [f.folder] (List.cons_ne_nil _ _)
    ⟨Path.split f.fileInfo.name, rfl⟩
  rw [listedPaths, List.mem_append, List.mem_map, List.mem_map] at hlisted
  rcases hlisted with ⟨folder, hfolder, hpath⟩ | ⟨g, -, hpath⟩
  · exact ⟨folder, hfolder, by simpa using hpath⟩
  · have hnil : Path.split g.fileInfo.name = [] := (List.cons.inj hpath).2
    exact absurd hnil (Path.split_ne_nil _)

/-- A path stands for one folder and name. -/
theorem splitPath_injective {f g : GrizolFileInfo} (h : splitPath f = splitPath g) :
    (f.folder, f.fileInfo.name) = (g.folder, g.fileInfo.name) := by
  obtain ⟨hfolder, hname⟩ := List.cons.inj h
  rw [hfolder, Path.split_injective hname]

/-- Different rows have different paths. -/
theorem nodup_splitPath (hnodup : (files.map fun f => (f.folder, f.fileInfo.name)).Nodup) :
    (files.map splitPath).Nodup := by
  rw [List.Nodup, List.pairwise_map] at hnodup ⊢
  exact hnodup.imp fun hne heq => hne (splitPath_injective heq)

/-- After the folders, the files wait for nothing but each other. -/
theorem waiting_of_parentsListed (hparents : ParentsListed folders files)
    (hnames : (files.map fun f => (f.folder, f.fileInfo.name)).Nodup) {m m₁ : GrizolFsMem}
    (hfolders : FoldersLoaded m folders m₁) : Waiting m₁ files where
  parents f hf p hp habove := by
    have hlisted := hparents f hf p hp (habove.trans <| List.dropLast_prefix _)
    rw [listedPaths, List.mem_append, List.mem_map, List.mem_map] at hlisted
    rcases hlisted with ⟨folder, hfolder, rfl⟩ | hfile
    · obtain ⟨id, serial, -, hnode, -⟩ := hfolders.folder folder hfolder
      exact Or.inl (AssocMap.contains_iff.mpr ⟨_, hnode⟩)
    · exact Or.inr hfile
  free f hf p habove := by
    obtain ⟨folder, hfolder, hid⟩ := folder_of_file hparents hf
    refine hfolders.below folder hfolder p ?_ ?_
    · rw [hid]
      exact List.IsPrefix.trans ⟨Path.split f.fileInfo.name, rfl⟩ habove
    · rintro rfl
      have hlen := habove.length_le
      have hpos := List.length_pos_of_ne_nil (Path.split_ne_nil f.fileInfo.name)
      simp only [splitPath, List.length_cons, List.length_nil] at hlen
      omega
  paths := nodup_splitPath hnames

/-- After the folders, the files make a queue. -/
theorem queue_of_listing (h : Listing folders files) {m m₁ : GrizolFsMem}
    (hfolders : FoldersLoaded m folders m₁) : Queue m₁ files where
  toWaiting := waiting_of_parentsListed h.parents h.names hfolders
  ids f hf := ⟨_, entryId_of_nonneg (h.rows.files f hf)⟩
  rows := h.fileRows

/-- **A refresh ends** when parents are listed, whatever was in the tree: it stops at a row that
has no number, or its loop ends. -/
theorem refreshFoldersFiles_ends (hids : (folders.map fun f => f.folder.id).Nodup)
    (hrows : (folders.map GrizolFolder.id).Nodup)
    (hnames : (files.map fun f => (f.folder, f.fileInfo.name)).Nodup)
    (hparents : ParentsListed folders files) (m : GrizolFsMem) :
    ∃ fuel, refreshFoldersFiles fuel folders files m ≠ .error .divergence := by
  rcases insertFolders_cases folders m with ⟨e, hstop, hne⟩ | hnumbered
  · refine ⟨0, ?_⟩
    rw [refreshFoldersFiles, hstop, Rust.error_bind]
    exact fun heq => hne (Except.error.inj heq)
  · obtain ⟨m₁, hrun, hfolders⟩ := insertFolders_loads folders m hids hrows hnumbered
    obtain ⟨fuel, hends⟩ := insertFiles_ends files.length rfl
      (waiting_of_parentsListed hparents hnames hfolders)
    refine ⟨fuel, ?_⟩
    rw [refreshFoldersFiles, hrun, Rust.ok_bind]
    exact hends

/-- **A refresh ends**, whatever was in the tree, and loads what is listed. -/
theorem refreshFoldersFiles_loads (h : Listing folders files) (m : GrizolFsMem) :
    ∃ fuel m₁ m', refreshFoldersFiles fuel folders files m = .ok m' ∧
      FoldersLoaded m folders m₁ ∧ Loaded m₁ files m' := by
  have hnumbered : ∀ f ∈ folders, ∃ id, topDirId f.id = .ok id := fun f hf =>
    ⟨_, topDirId_of_rows (h.rows.folders f hf)⟩
  obtain ⟨m₁, hrun, hfolders⟩ := insertFolders_loads folders m h.folderIds h.folderRows hnumbered
  obtain ⟨fuel, m', hfiles, hloaded⟩ := insertFiles_loads files.length rfl (queue_of_listing h hfolders)
  refine ⟨fuel, m₁, m', ?_, hfolders, hloaded⟩
  rw [refreshFoldersFiles, hrun, Rust.ok_bind, hfiles]

end Refresh

end Grizol.Analysis
