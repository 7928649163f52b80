import Grizol.Library.Paging
import Grizol.Analysis.RefreshedTrees
import Grizol.Interface.DirectoryPaging

/-!
# When a listing in several calls is complete

A call replies with the entries from its offset on that its buffer takes (`RepliesWith`), so the
calls of a listing read the pages of a list that is ordered anew for each. The rest is
`pages_perm_iff`; the two ways to list a directory differ in where the order comes from.
-/

set_option autoImplicit false

namespace Grizol.Analysis

open Grizol.Library
open Grizol.Model Grizol.Model.Syncthing Grizol.Interface

open GrizolFsMem (splitPath)

/-! ## One reply -/

/-- The entries for what is in a list, the first one after position `i`. -/
def numbered : ℕ → List (ℕ × FileType × String) → List DirEntry
  | _, [] => []
  | i, x :: xs => ⟨x.1, i + 1, x.2.1, x.2.2⟩ :: numbered (i + 1) xs

/-- Numbering leaves what is shown. -/
theorem shown_numbered (l : List (ℕ × FileType × String)) : ∀ i,
    (numbered i l).map shown = l := by
  induction l with
  | nil => exact fun _ => rfl
  | cons x l ih =>
      intro i
      rw [numbered, List.map_cons, ih]
      rfl

/-- The offset of the last entry is the position after it. -/
theorem numbered_last (l : List (ℕ × FileType × String)) : ∀ i, l ≠ [] →
    ∃ last, (numbered i l).getLast? = some last ∧ last.offset = i + l.length := by
  induction l with
  | nil => exact fun _ h => absurd rfl h
  | cons x l ih =>
      intro i _
      by_cases hl : l = []
      · rw [hl]
        exact ⟨_, rfl, rfl⟩
      · obtain ⟨last, hlast, hoffset⟩ := ih (i + 1) hl
        refine ⟨last, ?_, by rw [hoffset, List.length_cons]; omega⟩
        rw [numbered, List.getLast?_cons, hlast]
        rfl

section Replies

variable {α : Type} {entry : α → Rust (ℕ × FileType × String)}

/-- The first entry and its value. -/
theorem exists_cons_of_map {x : α} {l : List α} {values : List (ℕ × FileType × String)}
    (h : (x :: l).map entry = values.map Except.ok) :
    ∃ v vs, values = v :: vs ∧ entry x = .ok v ∧ l.map entry = vs.map Except.ok := by
  cases values with
  | nil => cases h
  | cons v vs =>
      obtain ⟨hx, hl⟩ := List.cons.inj h
      exact ⟨v, vs, rfl, hx, hl⟩

/-- The entries that a buffer takes, at least one when there is room for it. -/
theorem replyEntries_takes {isFull : List DirEntry → DirEntry → Bool} (l : List α) :
    ∀ {values : List (ℕ × FileType × String)} (i : ℕ) (added : List DirEntry),
      l.map entry = values.map Except.ok →
        ∃ n, n ≤ values.length ∧
          replyEntries isFull entry i l added = .ok (added ++ numbered i (values.take n)) ∧
          (added = [] → (∀ e, isFull [] e = false) → values ≠ [] → 0 < n) := by
  induction l with
  | nil =>
      intro values i added hvalues
      obtain rfl : values = [] := by simpa using hvalues.symm
      exact ⟨0, le_rfl, by simp [replyEntries, numbered], fun _ _ h => absurd rfl h⟩
  | cons x l ih =>
      intro values i added hvalues
      obtain ⟨v, values, rfl, hx, hl⟩ := exists_cons_of_map hvalues
      obtain ⟨n, hn, hrun, -⟩ := ih (i + 1) (added ++ [⟨v.1, i + 1, v.2.1, v.2.2⟩]) hl
      by_cases hfull : isFull added ⟨v.1, i + 1, v.2.1, v.2.2⟩ = true
      · refine ⟨0, Nat.zero_le _, ?_, ?_⟩
        · rw [replyEntries, hx]
          show (if isFull added _ = true then _ else _) = _
          rw [if_pos hfull, List.take_zero, numbered, List.append_nil]
          rfl
        · rintro rfl hroom _
          rw [hroom] at hfull
          cases hfull
      · refine ⟨n + 1, Nat.succ_le_succ hn, ?_, fun _ _ _ => Nat.succ_pos n⟩
        rw [replyEntries, hx]
        show (if isFull added _ = true then _ else _) = _
        rw [if_neg hfull, hrun, List.take_succ_cons, numbered, List.append_assoc]
        rfl

/-- A buffer for a number of entries takes as many. -/
theorem replyEntries_capacity {capacity : ℕ} (l : List α) :
    ∀ {values : List (ℕ × FileType × String)} (i : ℕ) (added : List DirEntry),
      l.map entry = values.map Except.ok →
        replyEntries (fun added _ => decide (capacity ≤ added.length)) entry i l added =
          .ok (added ++ numbered i (values.take (capacity - added.length))) := by
  induction l with
  | nil =>
      intro values i added hvalues
      obtain rfl : values = [] := by simpa using hvalues.symm
      simp [replyEntries, numbered]
  | cons x l ih =>
      intro values i added hvalues
      obtain ⟨v, values, rfl, hx, hl⟩ := exists_cons_of_map hvalues
      rw [replyEntries, hx]
      show (if decide (capacity ≤ added.length) = true then _ else _) = _
      by_cases hfull : capacity ≤ added.length
      · rw [if_pos (decide_eq_true hfull), Nat.sub_eq_zero_of_le hfull, List.take_zero, numbered,
          List.append_nil]
        rfl
      · rw [if_neg (by simpa using hfull), ih (i + 1) _ hl]
        obtain ⟨n, hn⟩ : ∃ n, capacity - added.length = n + 1 :=
          ⟨capacity - added.length - 1, by omega⟩
        have hrest : capacity - (added ++ [(⟨v.1, i + 1, v.2.1, v.2.2⟩ : DirEntry)]).length = n := by
          rw [List.length_append, List.length_singleton]
          omega
        rw [hrest, hn, List.take_succ_cons, numbered, List.append_assoc]
        rfl

end Replies

/-- A buffer for a number of entries. -/
def takesUpTo (capacity : ℕ) : List DirEntry → DirEntry → Bool :=
  fun added _ => decide (capacity ≤ added.length)

/-- A call replies with entries of this list. -/
structure RepliesWith
    (call : (List DirEntry → DirEntry → Bool) → ℕ → Rust (Except Errno (List DirEntry)))
    (values : List (ℕ × FileType × String)) : Prop where
  takes : ∀ isFull offset, (∀ e, isFull [] e = false) → offset ≤ values.length →
    ∃ n, offset + n ≤ values.length ∧
      call isFull offset = .ok (.ok (numbered offset ((values.drop offset).take n))) ∧
      (offset < values.length → 0 < n)
  capacity : ∀ n offset, offset ≤ values.length →
    call (takesUpTo n) offset = .ok (.ok (numbered offset ((values.drop offset).take n)))

/-- A call that replies with these values answers each page of them. -/
theorem answers_of_replies {α : Type} {entry : α → Rust (ℕ × FileType × String)} {l : List α}
    {values : List (ℕ × FileType × String)} (hvalues : l.map entry = values.map Except.ok)
    {call : (List DirEntry → DirEntry → Bool) → ℕ → Rust (Except Errno (List DirEntry))}
    (hcall : ∀ isFull offset entries,
      replyEntries isFull entry offset (l.drop offset) [] = .ok entries →
        call isFull offset = .ok (.ok entries)) : RepliesWith call values := by
  have hdrop : ∀ offset,
      (l.drop offset).map entry = (values.drop offset).map Except.ok := by
    intro offset
    rw [List.map_drop, hvalues, List.map_drop]
  constructor
  · intro isFull offset hroom hoffset
    obtain ⟨n, hn, hrun, hpos⟩ := @replyEntries_takes _ _ isFull _ _ offset [] (hdrop offset)
    rw [List.length_drop] at hn
    refine ⟨n, by omega, hcall isFull offset _ hrun, fun hless => hpos rfl hroom ?_⟩
    intro hnil
    have hlength := congrArg List.length hnil
    rw [List.length_drop, List.length_nil] at hlength
    omega
  · intro n offset _
    exact hcall _ offset _ (replyEntries_capacity _ offset [] (hdrop offset))

/-! ## A listing -/

section Sessions

variable {call : (List DirEntry → DirEntry → Bool) → ℕ → ℕ → Rust (Except Errno (List DirEntry))}
  {values : ℕ → List (ℕ × FileType × String)}

/-- The calls decide what is listed. -/
theorem session_unique {call : ℕ → ℕ → Rust (Except Errno (List DirEntry))} {k offset : ℕ}
    {entries : List DirEntry} (h : Session call k offset entries) :
    ∀ {entries' : List DirEntry}, Session call k offset entries' → entries = entries' := by
  induction h with
  | done hcall =>
      intro entries' h'
      cases h' with
      | done _ => rfl
      | page hcall' hlast _ =>
          obtain rfl := Except.ok.inj (Except.ok.inj (hcall.symm.trans hcall'))
          cases hlast
  | page hcall hlast _ ih =>
      intro entries' h'
      cases h' with
      | done hcall' =>
          obtain rfl := Except.ok.inj (Except.ok.inj (hcall'.symm.trans hcall))
          cases hlast
      | page hcall' hlast' hrest' =>
          obtain rfl := Except.ok.inj (Except.ok.inj (hcall.symm.trans hcall'))
          obtain rfl := Option.some.inj (hlast.symm.trans hlast')
          rw [ih hrest']

/-- A listing does not depend on the calls before. -/
theorem session_congr {call call' : ℕ → ℕ → Rust (Except Errno (List DirEntry))} {k offset : ℕ}
    {entries : List DirEntry} (h : Session call k offset entries) :
    (∀ j, k ≤ j → call j = call' j) → Session call' k offset entries := by
  induction h with
  | @done k offset hcall =>
      intro hsame
      exact .done (hsame k le_rfl ▸ hcall)
  | @page k offset entries rest last hcall hlast _ ih =>
      intro hsame
      exact .page (hsame k le_rfl ▸ hcall) hlast (ih fun j hj => hsame j (by omega))

/-- A listing goes on from the entry at which a page ends. -/
theorem session_page {call : ℕ → ℕ → Rust (Except Errno (List DirEntry))} {k offset n : ℕ}
    {l : List (ℕ × FileType × String)} {rest : List DirEntry} (hn : 0 < n)
    (hroom : offset + n ≤ l.length)
    (hcall : call k offset = .ok (.ok (numbered offset ((l.drop offset).take n))))
    (hrest : Session call (k + 1) (offset + n) rest) :
    Session call k offset (numbered offset ((l.drop offset).take n) ++ rest) := by
  have hlength : ((l.drop offset).take n).length = n := by
    rw [List.length_take, List.length_drop]
    omega
  obtain ⟨last, hlast, hoffset⟩ := numbered_last ((l.drop offset).take n) offset fun hnil => by
    rw [hnil, List.length_nil] at hlength
    omega
  rw [hlength] at hoffset
  exact .page hcall hlast (hoffset ▸ hrest)

/-- **A listing ends**, whatever the buffers take, and has read the list in pages. -/
theorem exists_session (hanswers : ∀ k, RepliesWith (fun isFull => call isFull k) (values k))
    (hlength : ∀ k, (values k).length = (values 0).length)
    {buffers : ℕ → List DirEntry → DirEntry → Bool} (hroom : ∀ k e, buffers k [] e = false)
    (left : ℕ) : ∀ k offset, offset ≤ (values 0).length → (values 0).length ≤ offset + left →
      ∃ entries, Session (fun k => call (buffers k) k) k offset entries ∧
        Pages values k offset (entries.map shown) := by
  induction left with
  | zero =>
      intro k offset hoffset hleft
      have hk := hlength k
      obtain ⟨n, hn, hcall, -⟩ := (hanswers k).takes (buffers k) offset (hroom k) (by omega)
      obtain rfl : n = 0 := by omega
      exact ⟨[], .done hcall, .done (by omega)⟩
  | succ left ih =>
      intro k offset hoffset hleft
      have hk := hlength k
      obtain ⟨n, hn, hcall, hpos⟩ := (hanswers k).takes (buffers k) offset (hroom k) (by omega)
      by_cases hend : offset < (values 0).length
      · obtain ⟨rest, hrest, hpages⟩ := ih (k + 1) (offset + n) (by omega)
          (by have := hpos (by omega); omega)
        refine ⟨_, session_page (hpos (by omega)) hn hcall hrest, ?_⟩
        rw [List.map_append, shown_numbered]
        exact .page (hpos (by omega)) hn hpages
      · obtain rfl : n = 0 := by omega
        exact ⟨[], .done hcall, .done (by omega)⟩

/-- Any pages are those of some listing. -/
theorem session_of_pages (hanswers : ∀ k, RepliesWith (fun isFull => call isFull k) (values k))
    (hlength : ∀ k, (values k).length = (values 0).length) {k offset : ℕ}
    {collected : List (ℕ × FileType × String)} (h : Pages values k offset collected) :
    offset ≤ (values 0).length →
      ∃ sizes : ℕ → ℕ, (∀ j, 0 < sizes j) ∧
        ∃ entries, Session (fun j => call (takesUpTo (sizes j)) j) k offset entries ∧
          entries.map shown = collected := by
  induction h with
  | @done k offset hend =>
      intro hoffset
      refine ⟨fun _ => 1, fun _ => Nat.one_pos, [], .done ?_, rfl⟩
      rw [(hanswers k).capacity 1 offset (by rw [hlength]; exact hoffset),
        List.drop_eq_nil_of_le hend]
      rfl
  | @page k offset n rest hn hroom _ ih =>
      intro _
      have hk := hlength k
      obtain ⟨sizes, hsizes, entries, hsession, rfl⟩ := ih (by omega)
      refine ⟨Function.update sizes k n, ?_, numbered offset (((values k).drop offset).take n) ++
        entries, ?_, ?_⟩
      · intro j
        by_cases hj : j = k
        · rw [hj, Function.update_self]
          exact hn
        · rw [Function.update_of_ne hj]
          exact hsizes j
      · refine session_page hn hroom ?_ (session_congr hsession fun j hj => ?_)
        · rw [Function.update_self]
          exact (hanswers k).capacity n offset (by omega)
        · rw [Function.update_of_ne (by omega)]
      · rw [List.map_append, shown_numbered]

variable {folders : List GrizolFolder} {files : List GrizolFileInfo} {path : List String}

/-- **A listing is complete**, whatever the buffers take, if and only if every call finds the
order of the first from its number on. -/
theorem completePaging_iff (hanswers : ∀ k, RepliesWith (fun isFull => call isFull k) (values k))
    (hnodup : ∀ k, (values k).Nodup)
    (hvalues : ∀ k x, x ∈ values k ↔ IsChild folders files path x) :
    CompletePaging folders files path call ↔
      ∀ k, (values k).drop k = (values 0).drop k := by
  have hperm : ∀ k, (values k).Perm (values 0) := fun k =>
    (List.perm_ext_iff_of_nodup (hnodup k) (hnodup 0)).mpr fun x =>
      (hvalues k x).trans (hvalues 0 x).symm
  have hlength : ∀ k, (values k).length = (values 0).length := fun k => (hperm k).length_eq
  have hall : ∀ collected : List (ℕ × FileType × String),
      (collected.Nodup ∧ ∀ x, x ∈ collected ↔ IsChild folders files path x) ↔
        collected.Perm (values 0) := by
    intro collected
    constructor
    · rintro ⟨hnodup', hmem⟩
      exact (List.perm_ext_iff_of_nodup hnodup' (hnodup 0)).mpr fun x =>
        (hmem x).trans (hvalues 0 x).symm
    · intro hcollected
      exact ⟨hcollected.nodup_iff.mpr (hnodup 0), fun x =>
        hcollected.mem_iff.trans (hvalues 0 x)⟩
  rw [← pages_perm_iff hlength]
  constructor
  · intro h collected hpages
    obtain ⟨sizes, hsizes, entries, hsession, rfl⟩ :=
      session_of_pages hanswers hlength hpages (Nat.zero_le _)
    obtain ⟨entries', hsession', hcomplete⟩ := h (fun j => takesUpTo (sizes j)) fun j e =>
      decide_eq_false (Nat.not_le_of_lt (hsizes j))
    rw [session_unique hsession hsession']
    exact (hall _).mp hcomplete
  · intro h buffers hroom
    obtain ⟨entries, hsession, hpages⟩ := exists_session hanswers hlength hroom
      (values 0).length 0 0 (Nat.zero_le _) (by omega)
    exact ⟨entries, hsession, (hall _).mpr (h _ hpages)⟩

end Sessions

/-! ## The names in a directory -/

/-- The children of a directory have different names. -/
theorem nodup_childNames {path : List String} {paths : List (List String)} (h : paths.Nodup) :
    (childNames path paths).Nodup := by
  refine List.Nodup.filterMap ?_ h
  intro p p' name hp hp'
  split_ifs at hp with hpath
  · split_ifs at hp' with hpath'
    · rw [← List.dropLast_append_getLast? name hp, ← List.dropLast_append_getLast? name hp', hpath,
        hpath']
    · cases hp'
  · cases hp

/-- Lists are equal when a function tells their elements apart and makes them equal. -/
theorem eq_of_map_eq {α β : Type} {f : α → β} (a : List α) : ∀ {b : List α},
    (∀ x ∈ a, ∀ y ∈ b, f x = f y → x = y) → a.map f = b.map f → a = b := by
  induction a with
  | nil =>
      intro b _ h
      exact (List.map_eq_nil_iff.mp h.symm).symm
  | cons x a ih =>
      intro b hf h
      cases b with
      | nil => cases h
      | cons y b =>
          obtain ⟨hxy, htail⟩ := List.cons.inj h
          rw [hf x List.mem_cons_self y List.mem_cons_self hxy,
            ih (fun x hx y hy => hf x (List.mem_cons_of_mem _ hx) y (List.mem_cons_of_mem _ hy)) htail]

/-- A list whose entries can all be told. -/
theorem exists_values {α β : Type} {f : α → Rust β} (l : List α) :
    (∀ x ∈ l, ∃ v, f x = .ok v) → ∃ values : List β, l.map f = values.map Except.ok := by
  induction l with
  | nil => exact fun _ => ⟨[], rfl⟩
  | cons x l ih =>
      intro h
      obtain ⟨⟨v, hv⟩, hl⟩ := List.forall_mem_cons.mp h
      obtain ⟨values, hvalues⟩ := ih hl
      exact ⟨v :: values, by rw [List.map_cons, hv, hvalues, List.map_cons]⟩

/-- A value is that of an item. -/
theorem mem_values {α β : Type} {f : α → Rust β} {l : List α} {values : List β}
    (h : l.map f = values.map Except.ok) (v : β) : v ∈ values ↔ ∃ x ∈ l, f x = .ok v := by
  have hmem : (Except.ok v : Rust β) ∈ l.map f ↔ (Except.ok v : Rust β) ∈ values.map Except.ok := by
    rw [h]
  rw [List.mem_map, List.mem_map] at hmem
  simpa using hmem.symm

/-- What depends on the values can be read off the items. -/
theorem map_values {α β γ : Type} {f : α → Rust β} {g : β → γ} {g' : α → γ} (l : List α) :
    ∀ {values : List β}, (∀ x ∈ l, ∀ v, f x = .ok v → g v = g' x) →
      l.map f = values.map Except.ok → values.map g = l.map g' := by
  induction l with
  | nil =>
      intro values _ h
      obtain rfl : values = [] := by simpa using h.symm
      rfl
  | cons x l ih =>
      intro values hg h
      cases values with
      | nil => cases h
      | cons v values =>
          obtain ⟨hx, hl⟩ := List.cons.inj h
          obtain ⟨hgx, hgl⟩ := List.forall_mem_cons.mp hg
          rw [List.map_cons, List.map_cons, hgx v hx, ih hgl hl]

/-- Keeping some elements and mapping them is done in one pass. -/
theorem filterMap_eq_map_filter {α β : Type} {p : α → Bool} {g : α → β} {h : α → Option β}
    (l : List α) : (∀ x ∈ l, h x = if p x = true then some (g x) else none) →
      l.filterMap h = (l.filter p).map g := by
  induction l with
  | nil => exact fun _ => rfl
  | cons x l ih =>
      intro hh
      obtain ⟨hx, hl⟩ := List.forall_mem_cons.mp hh
      by_cases hp : p x = true
      · rw [List.filterMap_cons_some (hx.trans (if_pos hp)), List.filter_cons_of_pos hp,
          List.map_cons, ih hl]
      · rw [List.filterMap_cons_none (hx.trans (if_neg hp)), List.filter_cons_of_neg hp, ih hl]

section Directories

variable {folders : List GrizolFolder} {files : List GrizolFileInfo}

/-- A path stands for one thing. -/
theorem located_unique (hrows : DatabaseRows folders files) {path : List String} {ino ino' : ℕ}
    {kind kind' : FileType} (h : Located folders files ino path kind)
    (h' : Located folders files ino' path kind') : ino = ino' ∧ kind = kind' := by
  generalize hpath : path = path' at h'
  cases h with
  | root =>
      cases h' with
      | root => exact ⟨rfl, rfl⟩
      | folder _ _ => cases hpath
      | file _ _ _ => cases hpath
  | @folder f _ hf hid =>
      cases h' with
      | root => cases hpath
      | @folder g _ hg hid' =>
          rw [List.inj_on_of_nodup_map hrows.folderIds hf hg (List.cons.inj hpath).1] at hid
          exact ⟨Except.ok.inj (hid.symm.trans hid'), rfl⟩
      | @file g _ _ _ _ _ => exact absurd hpath.symm (splitPath_ne_of_short le_rfl g)
  | @file f _ _ hf hid hkind =>
      cases h' with
      | root => cases hpath
      | @folder g _ _ _ => exact absurd hpath (splitPath_ne_of_short le_rfl f)
      | @file g _ _ hg hid' hkind' =>
          obtain rfl := List.inj_on_of_nodup_map hrows.names hf hg (splitPath_injective hpath)
          exact ⟨Except.ok.inj (hid.symm.trans hid'), Except.ok.inj (hkind.symm.trans hkind')⟩

/-- An inode number stands for one path. -/
theorem path_of_located_ino (h : Snapshot folders files) {ino : ℕ} {path path' : List String}
    {kind kind' : FileType} (hpath : Located folders files ino path kind)
    (hpath' : Located folders files ino path' kind') : path = path' := by
  have hcases : ∀ {path : List String} {kind : FileType},
      Located folders files ino path kind → path = [] ∧ ino = fuseRootId ∨
        (∃ f ∈ folders, [f.folder.id] = path ∧ topDirId f.id = .ok ino) ∨
          ∃ f ∈ files, splitPath f = path ∧ entryId f.id = .ok ino := by
    intro path kind hlocated
    cases hlocated with
    | root => exact Or.inl ⟨rfl, rfl⟩
    | @folder f _ hf hid => exact Or.inr (Or.inl ⟨f, hf, rfl, hid⟩)
    | @file f _ _ hf hid _ => exact Or.inr (Or.inr ⟨f, hf, rfl, hid⟩)
  exact path_of_inode (databaseRows_of_listing h.toListing) (hcases hpath) (hcases hpath')

/-- **When a listing is complete**, in the names of the children. -/
theorem completePaging_iff_names (hrows : DatabaseRows folders files) {path : List String}
    {call : (List DirEntry → DirEntry → Bool) → ℕ → ℕ → Rust (Except Errno (List DirEntry))}
    {values : ℕ → List (ℕ × FileType × String)} {paths : ℕ → List (List String)}
    (hanswers : ∀ k, RepliesWith (fun isFull => call isFull k) (values k))
    (hpaths : ∀ k, (paths k).Nodup)
    (hnames : ∀ k, (values k).map (fun x => x.2.2) = childNames path (paths k))
    (hvalues : ∀ k x, x ∈ values k ↔ IsChild folders files path x) :
    CompletePaging folders files path call ↔ SameOrderOn path paths := by
  have hnodup : ∀ k, (values k).Nodup := fun k => List.Nodup.of_map (fun x => x.2.2) (by
    rw [hnames k]
    exact nodup_childNames (hpaths k))
  rw [completePaging_iff hanswers hnodup hvalues]
  refine forall_congr' fun k => ?_
  rw [← hnames k, ← hnames 0, ← List.map_drop, ← List.map_drop]
  refine ⟨congrArg _, eq_of_map_eq _ ?_⟩
  intro x hx y hy hname
  have hx' := (hvalues k x).mp (List.mem_of_mem_drop hx)
  have hy' := (hvalues 0 y).mp (List.mem_of_mem_drop hy)
  rw [IsChild, hname] at hx'
  obtain ⟨hino, hkind⟩ := located_unique hrows hx' hy'
  exact Prod.ext hino (Prod.ext hkind hname)

/-! ## In memory -/

/-- The children in the tree are those of the paths. -/
theorem children_names (m : GrizolFsMem) (path : List String) :
    (m.children path).map Prod.fst = childNames path m.tree.keys := by
  rw [GrizolFsMem.children, AssocMap.keys, childNames, List.map_filterMap, List.filterMap_map]
  refine List.filterMap_congr fun e _ => ?_
  rw [Function.comp_apply]
  cases hlast : e.1.getLast? with
  | none => simp [hlast]
  | some name => by_cases hpath : e.1.dropLast = path <;> simp [hlast, hpath]

/-- An entry shows the name. -/
theorem childEntry_name {x : String × FsNode} {v : ℕ × FileType × String}
    (h : childEntry x = .ok v) : v.2.2 = x.1 := by
  obtain ⟨name, serial, id, fileType⟩ := x
  cases fileType with
  | folder f =>
      obtain rfl := Except.ok.inj h
      rfl
  | file f =>
      rw [childEntry] at h
      dsimp only at h
      cases hkind : Model.fileType f.fileInfo.type with
      | error e =>
          rw [hkind] at h
          cases h
      | ok kind =>
          rw [hkind] at h
          obtain rfl := Except.ok.inj h
          rfl

/-- The node of what is located. -/
theorem node_of_located {m : GrizolFsMem} (hm : TreeOf folders files m) {ino : ℕ}
    {path : List String} {kind : FileType} (h : Located folders files ino path kind) :
    ∃ node, Reachable m path node ∧ node.id = ino ∧
      (path ≠ [] → ∀ name, childEntry (name, node) = .ok (ino, kind, name)) := by
  cases h with
  | root =>
      obtain ⟨serial, fileType, hroot⟩ := hm.root
      exact ⟨_, hroot, rfl, fun hne => absurd rfl hne⟩
  | @folder f _ hf hid =>
      obtain ⟨serial, id, hid', hnode⟩ := hm.folder f hf
      obtain rfl : ino = id := Except.ok.inj (hid.symm.trans hid')
      exact ⟨_, hnode, rfl, fun _ name => rfl⟩
  | @file f _ _ hf hid hkind =>
      obtain ⟨serial, id, hid', hnode⟩ := hm.file f hf
      obtain rfl : ino = id := Except.ok.inj (hid.symm.trans hid')
      exact ⟨_, hnode, rfl, fun _ name => by simp only [childEntry, hkind, Rust.ok_bind,
        Rust.pure_eq_ok]⟩

/-- What a node below the root stands for. -/
theorem located_of_node (h : Snapshot folders files) {m : GrizolFsMem}
    (hm : TreeOf folders files m) {path : List String} {node : FsNode}
    (hnode : Reachable m path node) (hne : path ≠ []) :
    ∃ kind, Located folders files node.id path kind := by
  have hlisted := (hm.only path node hnode).resolve_left hne
  rw [listedPaths, List.mem_append, List.mem_map, List.mem_map] at hlisted
  rcases hlisted with ⟨f, hf, rfl⟩ | ⟨f, hf, rfl⟩
  · obtain ⟨serial, id, hid, hget⟩ := hm.folder f hf
    obtain rfl := (hm.unique _ _ _ _ hnode hget).1 rfl
    exact ⟨_, .folder hf hid⟩
  · obtain ⟨serial, id, hid, hget⟩ := hm.file f hf
    obtain rfl := (hm.unique _ _ _ _ hnode hget).1 rfl
    obtain ⟨kind, hkind⟩ := fileType_returns (h.types f hf)
    exact ⟨kind, .file hf hid hkind⟩

/-- The children of a directory are entries, and they are those the lists say. -/
theorem child_iff_isChild (h : Snapshot folders files) {m : GrizolFsMem}
    (hm : TreeOf folders files m) {ino : ℕ} {path : List String} {kind : FileType}
    (hino : Located folders files ino path kind) :
    (∀ x ∈ m.children path, ∃ v, childEntry x = .ok v) ∧
      ∀ v, (∃ x ∈ m.children path, childEntry x = .ok v) ↔ IsChild folders files path v := by
  obtain ⟨parent, hparent, -, -⟩ := node_of_located hm hino
  have hentry : ∀ x ∈ m.children path, ∃ kind,
      Located folders files x.2.id (path ++ [x.1]) kind ∧
        childEntry x = .ok (x.2.id, kind, x.1) := by
    intro x hx
    have hne : path ++ [x.1] ≠ [] := List.append_ne_nil_of_right_ne_nil _ (List.cons_ne_nil _ _)
    have hnode : Reachable m (path ++ [x.1]) x.2 := .child hparent hx
    obtain ⟨kind', hlocated⟩ := located_of_node h hm hnode hne
    obtain ⟨node, hnode', hid, hshown⟩ := node_of_located hm hlocated
    obtain rfl := (hm.unique _ _ _ _ hnode' hnode).1 rfl
    exact ⟨kind', hlocated, hshown hne x.1⟩
  refine ⟨fun x hx => ?_, fun v => ⟨?_, fun hv => ?_⟩⟩
  · obtain ⟨kind', -, hshown⟩ := hentry x hx
    exact ⟨_, hshown⟩
  · rintro ⟨x, hx, hv⟩
    obtain ⟨kind', hlocated, hshown⟩ := hentry x hx
    obtain rfl := Except.ok.inj (hshown.symm.trans hv)
    exact hlocated
  · obtain ⟨node, hnode, hid, hshown⟩ := node_of_located hm hv
    have hne : path ++ [v.2.2] ≠ [] := List.append_ne_nil_of_right_ne_nil _ (List.cons_ne_nil _ _)
    exact ⟨(v.2.2, node), mem_children.mpr (get_of_reachable hnode), hshown hne v.2.2⟩

/-- The call on the tree. -/
theorem readdirMem_eq {m : GrizolFsMem} (hm : TreeOf folders files m) {ino : ℕ}
    {path : List String} {kind : FileType} (hino : Located folders files ino path kind)
    {isFull : List DirEntry → DirEntry → Bool} {offset : ℕ} {entries : List DirEntry}
    (hrun : replyEntries isFull childEntry offset ((m.children path).drop offset) [] =
      .ok entries) : readdirMem isFull m ino offset = .ok (.ok entries) := by
  obtain ⟨node, hnode, rfl, -⟩ := node_of_located hm hino
  obtain ⟨weak, hweak, rfl, hupgrade⟩ := hm.resolved path node hnode
  rw [readdirMem, hweak]
  dsimp only
  rw [hupgrade, Rust.unwrap_some, Rust.ok_bind, hrun]
  rfl

/-- The tree lists completely if its order stays. -/
theorem completePaging_mem_iff (h : Snapshot folders files) {trees : ℕ → GrizolFsMem}
    (htrees : ∀ k, TreeOf folders files (trees k)) {ino : ℕ} {path : List String}
    {kind : FileType} (hino : Located folders files ino path kind) :
    CompletePaging folders files path (fun isFull k => readdirMem isFull (trees k) ino) ↔
      SameOrderOn path fun k => (trees k).tree.keys := by
  have hvalues : ∀ k, ∃ values : List (ℕ × FileType × String),
      ((trees k).children path).map childEntry = values.map Except.ok := fun k =>
    exists_values _ (child_iff_isChild h (htrees k) hino).1
  choose values hvalues using hvalues
  refine completePaging_iff_names (databaseRows_of_listing h.toListing)
    (fun k => answers_of_replies (hvalues k) fun isFull offset entries hrun =>
      readdirMem_eq (htrees k) hino hrun)
    (fun k => (trees k).tree.nodup)
    (fun k => ?_) fun k v =>
      (mem_values (hvalues k) v).trans ((child_iff_isChild h (htrees k) hino).2 v)
  rw [← children_names]
  exact map_values _ (fun x _ v hv => childEntry_name hv) (hvalues k)

/-! ## From the lists -/

/-- Something in a folder is a file. -/
theorem file_of_located {ino : ℕ} {top name : String} {parts : List String} {kind : FileType}
    (h : Located folders files ino (top :: parts ++ [name]) kind) :
    ∃ f ∈ files, splitPath f = top :: parts ++ [name] ∧ entryId f.id = .ok ino ∧
      fileType f.fileInfo.type = .ok kind := by
  generalize hpath : top :: parts ++ [name] = path at h
  cases h with
  | root => cases hpath
  | folder _ _ => simp at hpath
  | @file f _ _ hf hid hkind => exact ⟨f, hf, rfl, hid, hkind⟩

/-- What is at the root is a folder. -/
theorem folder_of_located {ino : ℕ} {name : String} {kind : FileType}
    (h : Located folders files ino [name] kind) :
    ∃ f ∈ folders, f.folder.id = name ∧ topDirId f.id = .ok ino ∧ kind = .directory := by
  generalize hpath : [name] = path at h
  cases h with
  | root => cases hpath
  | @folder f _ hf hid => exact ⟨f, hf, (List.cons.inj hpath).1.symm, hid, rfl⟩
  | @file f _ _ _ _ _ => exact absurd hpath.symm (splitPath_ne_of_short le_rfl f)

/-- The listing of a folder or a directory, from the lists. -/
theorem repliesWith_directory (h : Snapshot folders files) {ino : ℕ} {top base : String}
    {parts : List String} (hbase : Path.components base = parts.map Path.Component.normal)
    (hroot : ino ≠ fuseRootId) (htop : topFolder ino folders files = .ok (some top))
    (hdir : baseDir ino files = .ok (some base)) :
    ∃ values, RepliesWith (fun isFull => readdirDb isFull folders files ino) values ∧
      values.map (fun x => x.2.2) = childNames (top :: parts) (listedPaths folders files) ∧
      ∀ v, v ∈ values ↔ IsChild folders files (top :: parts) v := by
  have hkept : ∀ f ∈ files, (f.folder = top && isFileInCurrentDir base f) = true ↔
      ∃ name, splitPath f = top :: parts ++ [name] := by
    intro f hf
    rw [Bool.and_eq_true, decide_eq_true_iff, isFileInCurrentDir_iff hbase (h.canonical f hf)]
    simp [splitPath]
  have hentry : ∀ f ∈ files, ∀ name, splitPath f = top :: parts ++ [name] →
      ∃ id kind, entryId f.id = .ok id ∧ fileType f.fileInfo.type = .ok kind ∧
        fileEntry base f = .ok (id, kind, name) := by
    intro f hf name hname
    obtain ⟨kind, hkind⟩ := fileType_returns (h.types f hf)
    have hid := entryId_of_nonneg (h.rows.files f hf)
    refine ⟨_, kind, hid, hkind, ?_⟩
    rw [@fileEntry_eq _ _ _ _ hbase (h.canonical f hf) (List.cons.inj hname).2 _ 0 hid]
    simp only [childEntry, hkind, Rust.ok_bind, Rust.pure_eq_ok]
  have hmem : ∀ f ∈ files.filter (fun f => f.folder = top && isFileInCurrentDir base f),
      f ∈ files ∧ ∃ name, splitPath f = top :: parts ++ [name] := by
    intro f hf
    obtain ⟨hlisted, hkeep⟩ := List.mem_filter.mp hf
    exact ⟨hlisted, (hkept f hlisted).mp hkeep⟩
  have hshown : ∀ f ∈ files.filter (fun f => f.folder = top && isFileInCurrentDir base f),
      ∃ v, fileEntry base f = .ok v := by
    intro f hf
    obtain ⟨hlisted, name, hname⟩ := hmem f hf
    obtain ⟨id, kind, -, -, hshown⟩ := hentry f hlisted name hname
    exact ⟨_, hshown⟩
  obtain ⟨values, hvalues⟩ := exists_values _ hshown
  refine ⟨values, answers_of_replies hvalues ?_, ?_, ?_⟩
  · intro isFull offset entries hrun
    rw [readdirDb, if_neg hroot, htop, hdir]
    simp only [Rust.ok_bind]
    split_ifs with hend
    · rw [hend, List.drop_length] at hrun
      obtain rfl := Except.ok.inj hrun
      rfl
    · rw [hrun]
      rfl
  · have hfolders : childNames (top :: parts) (folders.map fun f => [f.folder.id]) = [] := by
      simp [childNames]
    have happend : childNames (top :: parts) (listedPaths folders files) =
        childNames (top :: parts) (files.map splitPath) := by
      rw [listedPaths, childNames, List.filterMap_append]
      exact congrArg (· ++ _) hfolders
    have hnames := @filterMap_eq_map_filter _ _
      (fun f => f.folder = top && isFileInCurrentDir base f)
      (fun f => (splitPath f).getLast?.getD "")
      (fun f => if (splitPath f).dropLast = top :: parts then (splitPath f).getLast? else none)
      files ?_
    · rw [happend, childNames, List.filterMap_map]
      refine (map_values _ (fun f hf v hv => ?_) hvalues).trans hnames.symm
      obtain ⟨hlisted, name, hname⟩ := hmem f hf
      obtain ⟨id, kind, -, -, hentry⟩ := hentry f hlisted name hname
      obtain rfl := Except.ok.inj (hentry.symm.trans hv)
      rw [hname, List.getLast?_concat]
      rfl
    · intro f hf
      by_cases hkeep : (f.folder = top && isFileInCurrentDir base f) = true
      · obtain ⟨name, hname⟩ := (hkept f hf).mp hkeep
        rw [if_pos hkeep, hname, List.dropLast_concat, if_pos rfl, List.getLast?_concat]
        rfl
      · rw [if_neg hkeep, if_neg]
        intro hpath
        obtain ⟨name, -, hname⟩ := splitPath_eq f
        exact hkeep ((hkept f hf).mpr ⟨name, by rw [← hname, hpath]⟩)
  · intro v
    rw [mem_values hvalues]
    constructor
    · rintro ⟨f, hf, hv⟩
      obtain ⟨hlisted, name, hname⟩ := hmem f hf
      obtain ⟨id, kind, hid, hkind, hshown⟩ := hentry f hlisted name hname
      obtain rfl := Except.ok.inj (hshown.symm.trans hv)
      rw [IsChild, ← hname]
      exact .file hlisted hid hkind
    · intro hv
      obtain ⟨f, hf, hname, hid, hkind⟩ := file_of_located hv
      obtain ⟨id, kind, hid', hkind', hshown⟩ := hentry f hf _ hname
      obtain rfl := Except.ok.inj (hid'.symm.trans hid)
      obtain rfl := Except.ok.inj (hkind'.symm.trans hkind)
      exact ⟨f, List.mem_filter.mpr ⟨hf, (hkept f hf).mpr ⟨_, hname⟩⟩, hshown⟩

/-- The root replies with the folders. -/
theorem repliesWith_root (h : Snapshot folders files) :
    ∃ values, RepliesWith (fun isFull => readdirDb isFull folders files fuseRootId) values ∧
      values.map (fun x => x.2.2) = childNames [] (listedPaths folders files) ∧
      ∀ v, v ∈ values ↔ IsChild folders files [] v := by
  have hentry : ∀ f ∈ folders, ∃ id, topDirId f.id = .ok id ∧
      folderEntry f = .ok (id, .directory, f.folder.id) := by
    intro f hf
    have hid := topDirId_of_rows (h.rows.folders f hf)
    exact ⟨_, hid, by rw [folderEntry, hid]; rfl⟩
  obtain ⟨values, hvalues⟩ := exists_values folders fun f hf => by
    obtain ⟨id, -, hshown⟩ := hentry f hf
    exact ⟨_, hshown⟩
  refine ⟨values, answers_of_replies hvalues ?_, ?_, ?_⟩
  · intro isFull offset entries hrun
    rw [readdirDb, if_pos rfl]
    split_ifs with hend
    · rw [hend, List.drop_length] at hrun
      obtain rfl := Except.ok.inj hrun
      rfl
    · rw [hrun]
      rfl
  · have hnames : values.map (fun x => x.2.2) = folders.map fun f => f.folder.id := by
      refine map_values _ (fun f hf v hv => ?_) hvalues
      obtain ⟨id, -, hshown⟩ := hentry f hf
      obtain rfl := Except.ok.inj (hshown.symm.trans hv)
      rfl
    have hfiles : childNames [] (files.map splitPath) = [] := by
      rw [childNames, List.filterMap_eq_nil_iff]
      intro p hp
      obtain ⟨f, -, rfl⟩ := List.mem_map.mp hp
      rw [if_neg]
      intro hnil
      obtain ⟨name, -, hname⟩ := splitPath_eq f
      rw [hnil] at hname
      exact splitPath_ne_of_short le_rfl f hname.symm
    have happend : childNames [] (listedPaths folders files) =
        childNames [] (folders.map fun f => [f.folder.id]) ++
          childNames [] (files.map splitPath) := by
      rw [listedPaths, childNames, List.filterMap_append]
      rfl
    rw [hnames, happend, hfiles, List.append_nil, childNames, List.filterMap_map]
    refine (congrFun List.filterMap_eq_map'.symm folders).trans (List.filterMap_congr fun f _ => ?_)
    simp
  · intro v
    rw [mem_values hvalues]
    constructor
    · rintro ⟨f, hf, hv⟩
      obtain ⟨id, hid, hshown⟩ := hentry f hf
      obtain rfl := Except.ok.inj (hshown.symm.trans hv)
      exact .folder hf hid
    · intro hv
      obtain ⟨f, hf, hname, hid, hkind⟩ := folder_of_located hv
      obtain ⟨id, hid', hshown⟩ := hentry f hf
      obtain rfl := Except.ok.inj (hid'.symm.trans hid)
      refine ⟨f, hf, hshown.trans ?_⟩
      rw [hname, ← hkind]

/-- The listing of what is located, from the lists. -/
theorem repliesWith_lists (h : Snapshot folders files) {ino : ℕ} {path : List String}
    {kind : FileType} (hino : Located folders files ino path kind) :
    ∃ values, RepliesWith (fun isFull => readdirDb isFull folders files ino) values ∧
      values.map (fun x => x.2.2) = childNames path (listedPaths folders files) ∧
      ∀ v, v ∈ values ↔ IsChild folders files path v := by
  have hfolderIds : ∀ f ∈ folders, ∃ id, topDirId f.id = .ok id := fun f hf =>
    ⟨_, topDirId_of_rows (h.rows.folders f hf)⟩
  have hfileIds : ∀ f ∈ files, ∃ id, entryId f.id = .ok id := fun f hf =>
    ⟨_, entryId_of_nonneg (h.rows.files f hf)⟩
  cases hino with
  | root => exact repliesWith_root h
  | @folder f _ hf hid =>
      have hlt : ino < entriesStart := (topDirId_bounds hid).2
      have hroot : ino ≠ fuseRootId := Nat.ne_of_gt (topDirId_bounds hid).1
      obtain ⟨g, hg, hfound, hgid⟩ := findId_of_mem hfolderIds hf hid
      obtain rfl := List.inj_on_of_nodup_map h.folderRows hg hf (topDirId_injective hgid hid)
      refine repliesWith_directory h Path.components_empty hroot ?_ ?_
      · rw [topFolder, if_pos hlt, hfound]
        rfl
      · rw [baseDir, if_pos hlt]
        rfl
  | @file f _ _ hf hid _ =>
      have hge : ¬ ino < entriesStart := not_lt.mpr (entriesStart_le hid)
      have hroot : ino ≠ fuseRootId := fun heq => hge (by rw [heq]; decide)
      obtain ⟨g, hg, hfound, hgid⟩ := findId_of_mem hfileIds hf hid
      obtain rfl := List.inj_on_of_nodup_map h.fileRows hg hf (entryId_injective hgid hid)
      refine repliesWith_directory h (Path.components_of_canonical (h.canonical g hg)) hroot ?_ ?_
      · rw [topFolder, if_neg hge, hfound]
        rfl
      · rw [baseDir, if_neg hge, hfound]
        rfl

/-- The lists in another order. -/
theorem snapshot_perm (h : Snapshot folders files) {folders' : List GrizolFolder}
    {files' : List GrizolFileInfo} (hfolders : folders.Perm folders') (hfiles : files.Perm files') :
    Snapshot folders' files' where
  folderIds := (hfolders.map _).nodup_iff.mp h.folderIds
  folderRows := (hfolders.map _).nodup_iff.mp h.folderRows
  names := (hfiles.map _).nodup_iff.mp h.names
  fileRows := (hfiles.map _).nodup_iff.mp h.fileRows
  rows := ⟨fun f hf => h.rows.folders f (hfolders.mem_iff.mpr hf),
    fun f hf => h.rows.files f (hfiles.mem_iff.mpr hf)⟩
  parents f hf p hp habove :=
    ((hfolders.map _).append (hfiles.map _)).mem_iff.mp
      (h.parents f (hfiles.mem_iff.mpr hf) p hp habove)
  types f hf := h.types f (hfiles.mem_iff.mpr hf)
  canonical f hf := h.canonical f (hfiles.mem_iff.mpr hf)

/-- Where an inode number is does not depend on the order. -/
theorem located_perm {folders' : List GrizolFolder} {files' : List GrizolFileInfo}
    (hfolders : folders.Perm folders') (hfiles : files.Perm files') {ino : ℕ}
    {path : List String} {kind : FileType} :
    Located folders files ino path kind ↔ Located folders' files' ino path kind := by
  constructor
  · intro h
    cases h with
    | root => exact .root
    | folder hf hid => exact .folder (hfolders.mem_iff.mp hf) hid
    | file hf hid hkind => exact .file (hfiles.mem_iff.mp hf) hid hkind
  · intro h
    cases h with
    | root => exact .root
    | folder hf hid => exact .folder (hfolders.mem_iff.mpr hf) hid
    | file hf hid hkind => exact .file (hfiles.mem_iff.mpr hf) hid hkind

/-- The listed paths differ. -/
theorem nodup_listedPaths (h : Listing folders files) : (listedPaths folders files).Nodup := by
  rw [listedPaths, List.nodup_append]
  refine ⟨?_, nodup_splitPath h.names, ?_⟩
  · have hids := h.folderIds
    rw [List.Nodup, List.pairwise_map] at hids ⊢
    exact hids.imp fun hne heq => hne (List.cons.inj heq).1
  · rintro p hp p' hp' rfl
    obtain ⟨folder, -, rfl⟩ := List.mem_map.mp hp
    obtain ⟨file, -, hpath⟩ := List.mem_map.mp hp'
    exact splitPath_ne_of_short le_rfl file hpath

/-- The lists list completely if their order stays. -/
theorem completePaging_db_iff (h : Snapshot folders files)
    {listed : ℕ → List GrizolFolder × List GrizolFileInfo}
    (hlisted : ∀ k, folders.Perm (listed k).1 ∧ files.Perm (listed k).2) {ino : ℕ}
    {path : List String} {kind : FileType} (hino : Located folders files ino path kind) :
    CompletePaging folders files path
        (fun isFull k => readdirDb isFull (listed k).1 (listed k).2 ino) ↔
      SameOrderOn path fun k => listedPaths (listed k).1 (listed k).2 := by
  have hsnapshot : ∀ k, Snapshot (listed k).1 (listed k).2 := fun k =>
    snapshot_perm h (hlisted k).1 (hlisted k).2
  have hvalues := fun k => repliesWith_lists (hsnapshot k)
    ((located_perm (hlisted k).1 (hlisted k).2).mp hino)
  choose values hreplies hnames hvalues using hvalues
  exact completePaging_iff_names (databaseRows_of_listing h.toListing) hreplies
    (fun k => nodup_listedPaths (hsnapshot k).toListing) hnames fun k v =>
      (hvalues k v).trans (located_perm (hlisted k).1 (hlisted k).2).symm

/-- **When a directory is listed completely**, by the tree and by the lists: the entries are
those of the directory, once each, whatever the buffers of the calls take, if and only if every
call finds the order of the first from its number on. -/
theorem completePaging_iff_sameOrderOn (h : Snapshot folders files) {ino : ℕ}
    {path : List String} {kind : FileType} (hino : Located folders files ino path kind) :
    (∀ trees : ℕ → GrizolFsMem, (∀ k, TreeOf folders files (trees k)) →
      (CompletePaging folders files path (fun isFull k => readdirMem isFull (trees k) ino) ↔
        SameOrderOn path fun k => (trees k).tree.keys)) ∧
    ∀ listed : ℕ → List GrizolFolder × List GrizolFileInfo,
      (∀ k, folders.Perm (listed k).1 ∧ files.Perm (listed k).2) →
        (CompletePaging folders files path
            (fun isFull k => readdirDb isFull (listed k).1 (listed k).2 ino) ↔
          SameOrderOn path fun k => listedPaths (listed k).1 (listed k).2) :=
  ⟨fun _ htrees => completePaging_mem_iff h htrees hino,
    fun _ hlisted => completePaging_db_iff h hlisted hino⟩

end Directories

/-- Witness: the folder of the nested files, listed completely where no order changes. -/
theorem completePaging_iff_sameOrderOn_nested :
    ∃ m, TreeOf [⟨{ id := "default" }, 1⟩] nestedFiles m ∧
      CompletePaging [⟨{ id := "default" }, 1⟩] nestedFiles ["default"]
        (fun isFull _ => readdirMem isFull m 11) ∧
      CompletePaging [⟨{ id := "default" }, 1⟩] nestedFiles ["default"]
        (fun isFull _ => readdirDb isFull [⟨{ id := "default" }, 1⟩] nestedFiles 11) := by
  obtain ⟨-, m, -, hm⟩ := exists_treeOf listing_nested rooted_new (inside_new _)
  have hfolder : Located [⟨{ id := "default" }, 1⟩] nestedFiles 11 ["default"] .directory :=
    .folder (List.mem_singleton_self _) (by decide)
  have hboth := completePaging_iff_sameOrderOn snapshot_nested hfolder
  exact ⟨m, hm, (hboth.1 (fun _ => m) (fun _ => hm)).mpr fun _ => rfl,
    (hboth.2 (fun _ => ([⟨{ id := "default" }, 1⟩], nestedFiles))
      fun _ => ⟨.refl _, .refl _⟩).mpr fun _ => rfl⟩

/-- The nested files as the first call finds them, and as the others do. -/
def reordered : ℕ → List GrizolFolder × List GrizolFileInfo
  | 0 => ([⟨{ id := "default" }, 1⟩], nestedFiles)
  | _ + 1 => ([⟨{ id := "default" }, 1⟩], nestedFiles.reverse)

/-- With room for one entry in each reply the file is listed twice, and the directory not. -/
theorem reordered_incomplete :
    readdirDb (takesUpTo 1) (reordered 0).1 (reordered 0).2 11 0 =
        .ok (.ok [⟨3 + entriesStart, 1, .regularFile, "ab"⟩]) ∧
      readdirDb (takesUpTo 1) (reordered 1).1 (reordered 1).2 11 1 =
        .ok (.ok [⟨3 + entriesStart, 2, .regularFile, "ab"⟩]) ∧
      readdirDb (takesUpTo 1) (reordered 2).1 (reordered 2).2 11 2 = .ok (.ok []) ∧
      ¬ CompletePaging [⟨{ id := "default" }, 1⟩] nestedFiles ["default"]
          fun isFull k => readdirDb isFull (reordered k).1 (reordered k).2 11 := by
  have hfolder : Located [⟨{ id := "default" }, 1⟩] nestedFiles 11 ["default"] .directory :=
    .folder (List.mem_singleton_self _) (by decide)
  have hlisted : ∀ k, [⟨{ id := "default" }, 1⟩].Perm (reordered k).1 ∧
      nestedFiles.Perm (reordered k).2 := by
    intro k
    cases k with
    | zero => exact ⟨.refl _, .refl _⟩
    | succ k => exact ⟨.refl _, nestedFiles.reverse_perm.symm⟩
  refine ⟨by decide +kernel, by decide +kernel, by decide +kernel, ?_⟩
  rw [completePaging_db_iff snapshot_nested hlisted hfolder]
  intro hsame
  exact absurd (hsame 1) (by decide +kernel)

end Grizol.Analysis
