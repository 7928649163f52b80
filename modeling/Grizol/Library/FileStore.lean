import Grizol.Library.AssocMap

/-!
# Files and their chunks

`FileStore` is the file system seen through paths: a finite map from paths to
contents, with the effect of truncating, resizing, writing at a position and
removing. An operation of the operating system may fail (`Outcome`), a write after
part of its bytes; a sync that fails leaves the write complete. A path is its text: `.` and
`..`, double slashes, links and the case of letters are not resolved, so two texts are two
files.

`chunkAt n content i` is the `i`-th piece of `n` bytes of a content, the last one
possibly shorter. Writing the pieces one after the other at their positions builds
the content (`writeAt_chunkAt`).
-/

set_option autoImplicit false

namespace Grizol.Library

/-- What the operating system answers to a file operation; a write that fails may
have written some bytes. -/
inductive Outcome where
  | ok
  | fails (written : ℕ)
  deriving DecidableEq, Repr

/-- Paths and the contents of their files. -/
abbrev FileStore := AssocMap String (List UInt8)

namespace FileStore

/-- A content cut or padded with zeros to `n` bytes. -/
def resize (content : List UInt8) (n : ℕ) : List UInt8 :=
  content.take n ++ List.replicate (n - content.length) 0

/-- A content with `data` written from `pos` on; writing nothing does not extend it. -/
def writeAt (content : List UInt8) (pos : ℕ) (data : List UInt8) : List UInt8 :=
  if data = [] then content
  else resize content pos ++ data ++ content.drop (pos + data.length)

/-- The effect of an operation on the file behind an open handle. -/
def update (files : FileStore) (path : String) (f : List UInt8 → List UInt8) : FileStore :=
  AssocMap.modify files path f

/-- `update` changes one file, if it is there. -/
theorem get_update (files : FileStore) (path path' : String)
    (f : List UInt8 → List UInt8) :
    (update files path f).get path' =
      if path' = path then (files.get path').map f else files.get path' :=
  AssocMap.get_modify files path path' f

/-- An empty file grows by zeros. -/
@[simp] theorem resize_nil (n : ℕ) : resize [] n = List.replicate n 0 := by
  simp [resize]

/-- Writing over all of a content leaves what was written. -/
theorem writeAt_zero_of_length_le {content data : List UInt8} (h : content.length ≤ data.length) :
    writeAt content 0 data = data := by
  rw [writeAt]
  split_ifs with hdata
  · subst hdata
    exact List.eq_nil_of_length_eq_zero (Nat.le_zero.mp h)
  · simp [resize, h]

/-- Writing at the end of a content appends. -/
theorem writeAt_length (content data : List UInt8) :
    writeAt content content.length data = content ++ data := by
  rw [writeAt]
  split_ifs with hdata
  · rw [hdata, List.append_nil]
  · simp [resize]

/-- A file has the length that is set. -/
theorem length_resize (content : List UInt8) (n : ℕ) : (resize content n).length = n := by
  rw [resize, List.length_append, List.length_take, List.length_replicate]
  omega

/-- A byte of a resized content was there, or is zero. -/
theorem getElem?_resize {content : List UInt8} {n k : ℕ} {b : UInt8}
    (h : (resize content n)[k]? = some b) : content[k]? = some b ∨ b = 0 := by
  rw [resize, List.getElem?_append] at h
  split_ifs at h with hk
  · rw [List.getElem?_take] at h
    split_ifs at h
    exact .inl h
  · rw [List.getElem?_replicate] at h
    split_ifs at h
    exact .inr (Option.some.inj h).symm

/-- A byte of a content that was written to was there, is zero, or was written. -/
theorem getElem?_writeAt {content data : List UInt8} {pos k : ℕ} {b : UInt8}
    (h : (writeAt content pos data)[k]? = some b) :
    content[k]? = some b ∨ b = 0 ∨ ∃ j, k = pos + j ∧ data[j]? = some b := by
  rw [writeAt] at h
  split_ifs at h
  · exact .inl h
  · rw [List.append_assoc, List.getElem?_append, length_resize] at h
    split_ifs at h with hbefore
    · exact (getElem?_resize h).imp_right .inl
    · rw [List.getElem?_append] at h
      split_ifs at h with hin
      · exact .inr (.inr ⟨k - pos, by omega, h⟩)
      · rw [List.getElem?_drop] at h
        have hk : pos + data.length + (k - pos - data.length) = k := by omega
        exact .inl (hk ▸ h)

/-- The byte at a position of a file. -/
def HasByte (files : FileStore) (path : String) (k : ℕ) (b : UInt8) : Prop :=
  ∃ content, files.get path = some content ∧ content[k]? = some b

variable {files : FileStore} {p path : String} {k : ℕ} {b : UInt8}

/-- A file that is truncated gets no byte. -/
theorem HasByte.of_insert_nil (h : HasByte (files.insert p []) path k b) :
    HasByte files path k b := by
  obtain ⟨content, hfile, hbyte⟩ := h
  rw [AssocMap.get_insert] at hfile
  split_ifs at hfile
  · obtain rfl := Option.some.inj hfile
    cases hbyte
  · exact ⟨content, hfile, hbyte⟩

/-- What is there after a removal was there before. -/
theorem HasByte.of_erase (h : HasByte (files.erase p) path k b) : HasByte files path k b := by
  obtain ⟨content, hfile, hbyte⟩ := h
  rw [AssocMap.get_erase] at hfile
  split_ifs at hfile
  exact ⟨content, hfile, hbyte⟩

/-- What is there after a change of length was there before, or is a zero. -/
theorem HasByte.of_resize {n : ℕ} (h : HasByte (update files p (resize · n)) path k b) :
    HasByte files path k b ∨ b = 0 := by
  obtain ⟨content, hfile, hbyte⟩ := h
  rw [get_update] at hfile
  split_ifs at hfile
  · obtain ⟨before, hbefore, rfl⟩ := Option.map_eq_some_iff.mp hfile
    exact (getElem?_resize hbyte).imp_left fun hbyte => ⟨before, hbefore, hbyte⟩
  · exact .inl ⟨content, hfile, hbyte⟩

/-- What is there after a write was there before, fills a gap, or was written. -/
theorem HasByte.of_writeAt {pos : ℕ} {data : List UInt8}
    (h : HasByte (update files p (writeAt · pos data)) path k b) :
    HasByte files path k b ∨ b = 0 ∨ path = p ∧ ∃ j, k = pos + j ∧ data[j]? = some b := by
  obtain ⟨content, hfile, hbyte⟩ := h
  rw [get_update] at hfile
  split_ifs at hfile with hpath
  · obtain ⟨before, hbefore, rfl⟩ := Option.map_eq_some_iff.mp hfile
    exact (getElem?_writeAt hbyte).imp (fun hbyte => ⟨before, hbefore, hbyte⟩)
      (.imp_right fun hdata => ⟨hpath, hdata⟩)
  · exact .inl ⟨content, hfile, hbyte⟩

end FileStore

/-- The number of pieces of `n` bytes that `size` bytes make. -/
def chunkCount (size n : ℕ) : ℕ := (size + n - 1) / n

/-- The `i`-th piece of `n` bytes. -/
def chunkAt (n : ℕ) (content : List UInt8) (i : ℕ) : List UInt8 := (content.drop (i * n)).take n

/-- A position is that of a piece exactly when its first byte is in the content. -/
theorem lt_chunkCount_iff {size n i : ℕ} (hn : 0 < n) : i < chunkCount size n ↔ i * n < size := by
  unfold chunkCount
  rw [Nat.lt_iff_add_one_le, Nat.le_div_iff_mul_le hn, Nat.add_mul]
  omega

/-- The pieces cover the content. -/
theorem le_chunkCount_mul (size : ℕ) {n : ℕ} (hn : 0 < n) : size ≤ chunkCount size n * n := by
  by_contra hlt
  have hself : chunkCount size n < chunkCount size n :=
    (lt_chunkCount_iff hn).mpr (Nat.not_le.mp hlt)
  exact absurd hself (Nat.lt_irrefl _)

/-- Writing a piece at its position, after the pieces before it, extends the content
by it. -/
theorem writeAt_chunkAt {n : ℕ} {content : List UInt8} {i : ℕ} (h : i * n ≤ content.length) :
    FileStore.writeAt (content.take (i * n)) (i * n) (chunkAt n content i) =
      content.take ((i + 1) * n) := by
  have hlen : (content.take (i * n)).length = i * n := by
    rw [List.length_take]
    omega
  have happend := FileStore.writeAt_length (content.take (i * n)) (chunkAt n content i)
  rw [hlen] at happend
  rw [happend, chunkAt, Nat.add_mul, Nat.one_mul, List.take_add]

/-- The pieces of `n` bytes that a size makes, in their order: all are full but the last. -/
def ArePieces (size n : ℕ) (pieces : List (List UInt8)) : Prop :=
  ∀ i (h : i < pieces.length), pieces[i].length = min n (size - i * n)

/-- Behind the first piece the rest is in pieces too. -/
theorem ArePieces.tail {size n : ℕ} {piece : List UInt8} {pieces : List (List UInt8)}
    (h : ArePieces size n (piece :: pieces)) :
    piece.length = min n size ∧ ArePieces (size - n) n pieces := by
  refine ⟨by simpa using h 0 (Nat.zero_lt_succ _), ?_⟩
  intro i hi
  have hpiece := h (i + 1) (Nat.succ_lt_succ hi)
  rw [List.getElem_cons_succ] at hpiece
  rw [hpiece, Nat.succ_mul]
  omega

/-- Together the pieces have the size they cover. -/
theorem length_flatten_pieces {n : ℕ} {pieces : List (List UInt8)} :
    ∀ {size : ℕ}, ArePieces size n pieces →
      pieces.flatten.length = min size (pieces.length * n) := by
  induction pieces with
  | nil =>
      intro size _
      simp
  | cons piece pieces ih =>
      intro size h
      obtain ⟨hpiece, htail⟩ := h.tail
      rw [List.flatten_cons, List.length_append, hpiece, ih htail, List.length_cons, Nat.succ_mul]
      omega

/-- The `i`-th piece of the whole. -/
theorem chunkAt_flatten_pieces {n : ℕ} {pieces : List (List UInt8)} :
    ∀ {size : ℕ}, ArePieces size n pieces → ∀ i (h : i < pieces.length),
      chunkAt n pieces.flatten i = pieces[i] := by
  induction pieces with
  | nil =>
      intro size _ i hi
      exact absurd hi (Nat.not_lt_zero i)
  | cons piece pieces ih =>
      intro size h i hi
      obtain ⟨hpiece, htail⟩ := h.tail
      have hrest := length_flatten_pieces htail
      rw [chunkAt, List.flatten_cons]
      cases i with
      | zero =>
          rw [Nat.zero_mul, List.drop_zero, List.getElem_cons_zero]
          by_cases hfull : n ≤ size
          · exact List.take_left' (by omega)
          · have hnil : pieces.flatten = [] := List.eq_nil_of_length_eq_zero (by omega)
            rw [hnil, List.append_nil]
            exact List.take_of_length_le (by omega)
      | succ i =>
          have hi' : i < pieces.length := Nat.lt_of_succ_lt_succ hi
          rw [List.getElem_cons_succ]
          by_cases hfull : n ≤ size
          · have hdrop : (i + 1) * n = piece.length + i * n := by
              rw [Nat.succ_mul]
              omega
            rw [hdrop, List.drop_length_add_append, ← ih htail i hi', chunkAt]
          · have hnone := htail i hi'
            have hlast : pieces[i] = [] := List.eq_nil_of_length_eq_zero (by omega)
            rw [hlast, List.drop_eq_nil_of_le, List.take_nil]
            rw [List.length_append, hrest, hpiece, Nat.succ_mul]
            omega

end Grizol.Library
