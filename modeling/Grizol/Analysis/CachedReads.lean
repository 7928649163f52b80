import Grizol.Interface.CachedReads

/-!
# When `read_cached` reads what it is asked for

The loop is right when it is left after one read: a second read overwrites what the first
has delivered, and skips as many bytes as that were; a range that ends behind the file is
padded with zeros. A file with a single byte that is not zero, at the end of the range, tells
them apart.
-/

set_option autoImplicit false

namespace Grizol.Analysis

open Grizol.Library Grizol.Model Grizol.Interface

open StorageManager (readLoop readCached)

section Loop

variable {content : Bytes} {reads : ℕ → ℕ} {size : ℕ}

/-- The bytes a read of the loop gets. -/
def delivered (content : Bytes) (reads : ℕ → ℕ) (n pos size : ℕ) : Bytes :=
  (content.drop pos).take (min (reads n + 1) size)

/-- A read delivers at most what it is asked for. -/
theorem delivered_length_le (content : Bytes) (n pos : ℕ) :
    (delivered content reads n pos size).length ≤ size := by
  rw [delivered, List.length_take]
  omega

/-- A full buffer ends the loop. -/
theorem readLoop_done (fuel n pos : ℕ) (buffer : Bytes) {total : ℕ} (h : ¬ total < size) :
    readLoop (allReturn reads) content size fuel n pos buffer total = .ok (.ok buffer) := by
  cases fuel with
  | zero => rw [readLoop, if_neg h]; rfl
  | succ fuel => rw [readLoop, if_neg h]; rfl

/-- One turn of the loop. -/
theorem readLoop_turn (fuel n pos : ℕ) {buffer : Bytes} {total : ℕ} (h : total < size)
    (hlength : buffer.length = size) :
    readLoop (allReturn reads) content size (fuel + 1) n pos buffer total =
      if (delivered content reads n pos size).length = 0 then .ok (.ok buffer)
      else
        readLoop (allReturn reads) content size fuel (n + 1)
          (pos + (delivered content reads n pos size).length +
            (delivered content reads n pos size).length)
          (delivered content reads n pos size ++
            buffer.drop (delivered content reads n pos size).length)
          (total + (delivered content reads n pos size).length) := by
  have hread : (content.drop pos).take (min (reads n + 1) buffer.length) =
      delivered content reads n pos size := by rw [hlength]; rfl
  by_cases hnone : (delivered content reads n pos size).length = 0
  · have hnil := List.eq_nil_of_length_eq_zero hnone
    simp [readLoop, allReturn, hread, hnil, pure, Except.pure]
  · simp [readLoop, allReturn, if_pos h, hread, hnone]

/-- What a read leaves of the buffer has the length of it. -/
theorem delivered_append_length (n pos : ℕ) {buffer : Bytes} (hlength : buffer.length = size) :
    (delivered content reads n pos size ++
      buffer.drop (delivered content reads n pos size).length).length = size := by
  have hle := @delivered_length_le reads size content n pos
  rw [List.length_append, List.length_drop]
  omega

/-- **The loop ends with a whole buffer**, and a byte of it that no read reaches is as before:
the byte at `i` is not reached when the file has nothing but zeros from the cursor to `i` places
behind it, and nothing but zeros farther. -/
theorem readLoop_returns (fuel : ℕ) : ∀ {n pos total : ℕ} {buffer : Bytes}, buffer.length = size →
    size ≤ total + fuel →
      ∃ buffer', readLoop (allReturn reads) content size fuel n pos buffer total =
        .ok (.ok buffer') ∧ buffer'.length = size ∧
          ∀ i, buffer[i]? = some 0 →
            (∀ m, pos ≤ m → content[m + i]? = none ∨ content[m + i]? = some 0) →
              buffer'[i]? = some 0 := by
  induction fuel with
  | zero =>
      intro n pos total buffer hlength hfuel
      exact ⟨buffer, readLoop_done 0 n pos buffer (by omega), hlength, fun i hzero _ => hzero⟩
  | succ fuel ih =>
      intro n pos total buffer hlength hfuel
      by_cases htotal : total < size
      · rw [readLoop_turn fuel n pos htotal hlength]
        by_cases hnone : (delivered content reads n pos size).length = 0
        · exact ⟨buffer, if_pos hnone, hlength, fun i hzero _ => hzero⟩
        · obtain ⟨buffer', hrun, hlength', hkept⟩ := @ih (n + 1)
            (pos + (delivered content reads n pos size).length +
              (delivered content reads n pos size).length)
            (total + (delivered content reads n pos size).length) _
            (delivered_append_length n pos hlength) (by omega)
          refine ⟨buffer', (if_neg hnone).trans hrun, hlength', ?_⟩
          intro i hzero hzeros
          apply hkept i
          · by_cases hi : i < (delivered content reads n pos size).length
            · rw [List.getElem?_append_left hi]
              have hbyte : (delivered content reads n pos size)[i]? = content[pos + i]? := by
                rw [delivered, List.length_take] at hi
                rw [delivered, List.getElem?_take_of_lt (by omega), List.getElem?_drop]
              have hsome : (delivered content reads n pos size)[i]? ≠ none := by
                rw [ne_eq, List.getElem?_eq_none_iff]
                omega
              rw [hbyte] at hsome ⊢
              exact (hzeros pos (Nat.le_refl pos)).resolve_left hsome
            · rw [List.getElem?_append_right (by omega), List.getElem?_drop]
              rw [Nat.add_sub_cancel' (by omega)]
              exact hzero
          · intro m hm
            exact hzeros m (by omega)
      · exact ⟨buffer, readLoop_done _ n pos buffer htotal, hlength, fun i hzero _ => hzero⟩

/-- A read that fills the buffer ends the loop. -/
theorem readLoop_full {fuel n pos : ℕ} {buffer : Bytes} (hsize : 0 < size)
    (hlength : buffer.length = size) (hinside : pos + size ≤ content.length)
    (hfull : size ≤ reads n + 1) :
    readLoop (allReturn reads) content size (fuel + 1) n pos buffer 0 =
      .ok (.ok ((content.drop pos).take size)) := by
  have hbytes : delivered content reads n pos size = (content.drop pos).take size := by
    rw [delivered, Nat.min_eq_right hfull]
  have hsized : ((content.drop pos).take size).length = size := by
    rw [List.length_take, List.length_drop]
    omega
  rw [readLoop_turn fuel n pos hsize hlength, hbytes, hsized,
    if_neg (Nat.pos_iff_ne_zero.mp hsize), readLoop_done fuel _ _ _ (by omega),
    List.drop_eq_nil_of_le (Nat.le_of_eq hlength), List.append_nil]

end Loop

/-- The call is its loop. -/
theorem readCached_eq {readCache : ReadCacheConfig} {files : FileStore} {file : GrizolFileInfo}
    {content : Bytes} {baseOffset : Int64} {size : UInt32} {reads : ℕ → ℕ}
    (hfile : files.get (GrizolFS.cachePath readCache file.folder file.fileInfo.name) =
      some content)
    (hoffset : 0 ≤ baseOffset.toInt) :
    readCached readCache files file baseOffset size (allReturn reads) =
      readLoop (allReturn reads) content size.toNat size.toNat 0 baseOffset.toInt.toNat
        (List.replicate size.toNat 0) 0 := by
  simp [readCached, allReturn, hfile, StorageManager.toUsize, if_pos hoffset]

/-- A file whose only byte that is not zero is the last one of the range. -/
def markedAt (length last : ℕ) : Bytes := (List.replicate length 0).set last 1

/-- The marked content has its length. -/
theorem markedAt_length (length last : ℕ) : (markedAt length last).length = length := by
  rw [markedAt, List.length_set, List.length_replicate]

/-- It is zero but for one place. -/
theorem markedAt_get {length last i : ℕ} (h : i ≠ last) :
    (markedAt length last)[i]? = none ∨ (markedAt length last)[i]? = some 0 := by
  rw [markedAt, List.getElem?_set_ne (Ne.symm h), List.getElem?_replicate]
  by_cases hi : i < length
  · exact .inr (if_pos hi)
  · exact .inl (if_neg hi)

/-- And one there. -/
theorem markedAt_last {length last : ℕ} (h : last < length) :
    (markedAt length last)[last]? = some 1 := by
  rw [markedAt, List.getElem?_set_self (by rw [List.length_replicate]; exact h)]

/-- When the first read is short, a last byte that is not zero gets lost: no later read puts it
in its place. -/
theorem readLoop_loses {length pos size : ℕ} {reads : ℕ → ℕ} (hinside : pos + size ≤ length)
    (hshort : reads 0 + 1 < size) :
    readLoop (allReturn reads) (markedAt length (pos + (size - 1))) size size 0 pos
      (List.replicate size 0) 0 ≠
        .ok (.ok (((markedAt length (pos + (size - 1))).drop pos).take size)) := by
  obtain ⟨fuel, rfl⟩ : ∃ fuel, size = fuel + 1 := ⟨size - 1, by omega⟩
  rw [Nat.add_sub_cancel]
  have hbytes : (delivered (markedAt length (pos + fuel)) reads 0 pos (fuel + 1)).length =
      reads 0 + 1 := by
    rw [delivered, List.length_take, List.length_drop, markedAt_length]
    omega
  obtain ⟨buffer', hrun, -, hkept⟩ := @readLoop_returns (markedAt length (pos + fuel)) reads
    (fuel + 1) fuel (0 + 1) (pos + (reads 0 + 1) + (reads 0 + 1)) (0 + (reads 0 + 1)) _
    (delivered_append_length 0 pos List.length_replicate) (by omega)
  have hzero := hkept fuel
    (by
      rw [hbytes, List.getElem?_append_right (by omega), List.getElem?_drop,
        List.getElem?_replicate, if_pos (by omega)])
    (fun m hm => markedAt_get (by omega))
  rw [readLoop_turn fuel 0 pos (by omega) List.length_replicate, hbytes,
    if_neg (Nat.succ_ne_zero _), ← hbytes]
  rw [← hbytes] at hrun
  rw [hrun]
  intro heq
  injection heq with heq
  injection heq with heq
  rw [heq, List.getElem?_take_of_lt (Nat.lt_succ_self fuel), List.getElem?_drop,
    markedAt_last (by omega)] at hzero
  exact absurd (Option.some.inj hzero) (by decide)

/-- A file of the cache. -/
def cachedFile : GrizolFileInfo where
  fileInfo := { name := "big" }
  fileLocations := []
  folder := "photos"
  id := 1

/-- The read cache with this content of `cachedFile`. -/
def cacheWith (content : Bytes) : FileStore := AssocMap.empty.insert "cache/photos/big" content

/-- The file is in the cache. -/
theorem cacheWith_get (content : Bytes) :
    (cacheWith content).get (GrizolFS.cachePath ⟨"cache", 0⟩ cachedFile.folder
      cachedFile.fileInfo.name) = some content :=
  AssocMap.get_insert_self _ _ _

/-- What the loop has to do when the bytes of the range are read. -/
theorem readLoop_of_readsExactly {length : ℕ} {baseOffset : Int64} {size : UInt32}
    {reads : ℕ → ℕ} (hreads : ReadsExactly length baseOffset size reads)
    (hoffset : 0 ≤ baseOffset.toInt) {content : Bytes} (hlength : content.length = length) :
    readLoop (allReturn reads) content size.toNat size.toNat 0 baseOffset.toInt.toNat
        (List.replicate size.toNat 0) 0 =
      .ok (.ok ((content.drop baseOffset.toInt.toNat).take size.toNat)) :=
  (readCached_eq (cacheWith_get content) hoffset).symm.trans
    (hreads ⟨"cache", 0⟩ (cacheWith content) cachedFile content (cacheWith_get content) hlength)

/-- The buffer is as long as the range, so the range is in the file. -/
theorem inside_of_readsExactly {length : ℕ} {baseOffset : Int64} {size : UInt32}
    {reads : ℕ → ℕ} (hreads : ReadsExactly length baseOffset size reads)
    (hoffset : 0 ≤ baseOffset.toInt) (hsize : 0 < size.toNat) :
    baseOffset.toInt.toNat + size.toNat ≤ length := by
  have hrun := readLoop_of_readsExactly hreads hoffset (markedAt_length length 0)
  obtain ⟨buffer, hbuffer, hlength, -⟩ := @readLoop_returns (markedAt length 0) reads size.toNat
    size.toNat 0 baseOffset.toInt.toNat 0 (List.replicate size.toNat 0) List.length_replicate
    (by omega)
  rw [hbuffer] at hrun
  have hsame := congrArg List.length (Except.ok.inj (Except.ok.inj hrun))
  rw [hlength, List.length_take, List.length_drop, markedAt_length] at hsame
  omega

/-- **When `read_cached` reads the bytes of the range, however they are delivered**: when there
are none to read, or the range is in the file and the first read delivers it. -/
theorem readsExactly_iff (length : ℕ) (baseOffset : Int64) (hoffset : 0 ≤ baseOffset.toInt)
    (size : UInt32) (reads : ℕ → ℕ) :
    ReadsExactly length baseOffset size reads ↔ FirstReadFills length baseOffset size reads := by
  constructor
  · intro hreads
    by_cases hsize : size = 0
    · exact .inl hsize
    · have hpos : 0 < size.toNat := Nat.pos_of_ne_zero fun h => hsize (UInt32.toNat_inj.mp h)
      have hinside := inside_of_readsExactly hreads hoffset hpos
      refine .inr ⟨hinside, ?_⟩
      by_contra hshort
      exact readLoop_loses hinside (Nat.lt_of_not_le hshort)
        (readLoop_of_readsExactly hreads hoffset (markedAt_length _ _))
  · intro hfills readCache files file content hfile hlength
    rw [readCached_eq hfile hoffset]
    by_cases hsize : size.toNat = 0
    · rw [hsize]
      exact readLoop_done _ _ _ _ (Nat.lt_irrefl 0)
    · obtain ⟨hinside, hfull⟩ := hfills.resolve_left fun h => hsize (by rw [h]; rfl)
      obtain ⟨fuel, hfuel⟩ := Nat.exists_eq_succ_of_ne_zero hsize
      have hloop := @readLoop_full content reads size.toNat fuel 0 baseOffset.toInt.toNat
        (List.replicate size.toNat 0) (Nat.pos_of_ne_zero hsize) List.length_replicate
        (hlength ▸ hinside) hfull
      rwa [← Nat.succ_eq_add_one, ← hfuel] at hloop

/-- Witness: the last two bytes of four, delivered at once. -/
theorem readsExactly_iff_atOnce :
    FirstReadFills 4 2 2 (fun _ => 3) ∧ ReadsExactly 4 2 2 fun _ => 3 := by
  have hfills : FirstReadFills 4 2 2 (fun _ => 3) := Or.inr ⟨by decide, by decide⟩
  exact ⟨hfills, (readsExactly_iff 4 2 (by decide) 2 fun _ => 3).mpr hfills⟩

/-- A file of four bytes that is delivered two bytes at a time is read as its first two bytes
and two zeros. -/
theorem shortReads_lose :
    readCached ⟨"cache", 0⟩ (cacheWith [1, 2, 3, 4]) cachedFile 0 4 (allReturn fun _ => 1) =
        .ok (.ok [1, 2, 0, 0]) ∧
      ¬ ReadsExactly 4 0 4 fun _ => 1 := by
  have hread : readCached ⟨"cache", 0⟩ (cacheWith [1, 2, 3, 4]) cachedFile 0 4
      (allReturn fun _ => 1) = .ok (.ok [1, 2, 0, 0]) := by decide
  refine ⟨hread, ?_⟩
  intro hreads
  have hexact := hreads ⟨"cache", 0⟩ (cacheWith [1, 2, 3, 4]) cachedFile [1, 2, 3, 4]
    (cacheWith_get _) rfl
  rw [hread] at hexact
  exact absurd (Except.ok.inj (Except.ok.inj hexact)) (by decide)

end Grizol.Analysis
