import Mathlib.Algebra.Ring.Nat
import Mathlib.Algebra.Order.BigOperators.Group.Finset
import Grizol.Interface.RequestQueue

/-!
# The request queue keeps its structures in step

One lemma for each operation says what it does to a queue that satisfies the
invariant; the invariant then holds after every run, and no operation panics.
-/

set_option autoImplicit false

namespace Grizol.Analysis

open Grizol.Library Grizol.Interface
open Grizol.Model Grizol.Model.Syncthing

/-! ## Keys and sizes -/

/-- The cast of a size that is not negative is small. -/
theorem asUsize_lt {x : Int32} (h : 0 ≤ x.toInt) : asUsize x < 2 ^ 31 := by
  have hlt := x.toInt_lt
  unfold asUsize
  omega

/-- A key carries the size of its request. -/
theorem size_of_ofRequest {r : Request} {k : OutgoingRequest}
    (h : OutgoingRequest.ofRequest r = .ok k) : k.size = r.size := by
  unfold OutgoingRequest.ofRequest at h
  split at h
  · obtain rfl := Except.ok.inj h
    rfl
  · cases h

/-- A hash of 32 bytes makes a key. -/
theorem exists_ofRequest {r : Request} (h : r.hash.length = 32) :
    ∃ k, OutgoingRequest.ofRequest r = .ok k := by
  unfold OutgoingRequest.ofRequest
  rw [dif_pos (by simpa using h)]
  exact ⟨_, rfl⟩

variable {s : OutgoingRequests}

/-- A key that is queued belongs to exactly one id. -/
theorem queued_id_unique (hinv : Consistent s) {id id' : Int32} {r r' : Request}
    {k : OutgoingRequest} (hr : s.requestsById.get id = some r)
    (hr' : s.requestsById.get id' = some r') (hk : OutgoingRequest.ofRequest r = .ok k)
    (hk' : OutgoingRequest.ofRequest r' = .ok k) : id = id' := by
  obtain ⟨t, ht⟩ := (hinv.same id k).mp ⟨r, hr, hk⟩
  obtain ⟨t', ht'⟩ := (hinv.same id' k).mp ⟨r', hr', hk'⟩
  have heq := ht.symm.trans ht'
  simp only [Option.some.injEq, Prod.mk.injEq] at heq
  exact heq.1

/-- The queued requests have sizes below `2^31` and different ids, so their sum stays
far below the width of `usize`. -/
theorem queued_sum_le (hinv : QueueInvariant s) {keys : Finset OutgoingRequest}
    (hkeys : ∀ k ∈ keys, ∃ v, s.requestsByRequest.get k = some v) :
    ∑ k ∈ keys, asUsize k.size ≤ 2 ^ 63 := by
  -- the id of a queued key, as a number
  let idOf : OutgoingRequest → ℕ := fun k =>
    ((s.requestsByRequest.get k).map fun v => v.1.toBitVec.toNat).getD 0
  have hcard : keys.card ≤ 2 ^ 32 := by
    have hmaps : ∀ k ∈ keys, idOf k ∈ Finset.range (2 ^ 32) := by
      intro k hk
      obtain ⟨v, hv⟩ := hkeys k hk
      have hlt := v.1.toBitVec.isLt
      simpa [idOf, hv] using hlt
    have hinj : Set.InjOn idOf keys := by
      intro k hk k' hk' heq
      obtain ⟨v, hv⟩ := hkeys k hk
      obtain ⟨v', hv'⟩ := hkeys k' hk'
      simp only [idOf, hv, hv', Option.map_some, Option.getD_some] at heq
      have hid : v.1 = v'.1 := Int32.toBitVec_inj.mp (BitVec.eq_of_toNat_eq heq)
      obtain ⟨r, hr, hkr⟩ := (hinv.same v.1 k).mpr ⟨v.2, hv⟩
      obtain ⟨r', hr', hkr'⟩ := (hinv.same v'.1 k').mpr ⟨v'.2, hv'⟩
      rw [← hid, hr] at hr'
      obtain rfl := Option.some.inj hr'
      exact Except.ok.inj (hkr.symm.trans hkr')
    simpa using Finset.card_le_card_of_injOn idOf hmaps hinj
  have hsize : ∀ k ∈ keys, asUsize k.size ≤ 2 ^ 31 := by
    intro k hk
    obtain ⟨v, hv⟩ := hkeys k hk
    obtain ⟨r, hr, hkr⟩ := (hinv.same v.1 k).mpr ⟨v.2, hv⟩
    rw [size_of_ofRequest hkr]
    exact (asUsize_lt (hinv.size_nonneg v.1 r hr)).le
  calc ∑ k ∈ keys, asUsize k.size
      ≤ keys.card • 2 ^ 31 := Finset.sum_le_card_nsmul _ _ _ hsize
    _ ≤ 2 ^ 32 * 2 ^ 31 := Nat.mul_le_mul_right _ hcard
    _ = 2 ^ 63 := rfl

/-- The sum of the sizes fits. -/
theorem consistent_of_queueInvariant (hinv : QueueInvariant s) : Consistent s where
  keyed := hinv.keyed
  same := hinv.same
  pending_queued := hinv.pending_queued
  requestedSize_eq := hinv.requestedSize_eq
  requestedSize_lt := by
    have hsum := queued_sum_le hinv hinv.pending_queued
    rw [hinv.requestedSize_eq]
    omega

/-- A queue in step whose requests have no negative sizes. -/
theorem queueInvariant_of_consistent (hinv : Consistent s)
    (hsize : ∀ id r, s.requestsById.get id = some r → 0 ≤ r.size.toInt) : QueueInvariant s where
  keyed := hinv.keyed
  same := hinv.same
  pending_queued := hinv.pending_queued
  requestedSize_eq := hinv.requestedSize_eq
  size_nonneg := hsize

/-- An empty queue is consistent. -/
theorem consistent_default : Consistent .default where
  keyed id r h := by simp [OutgoingRequests.default] at h
  same id k := by simp [OutgoingRequests.default]
  pending_queued k hk := by simp [OutgoingRequests.default] at hk
  requestedSize_eq := by simp [OutgoingRequests.default]
  requestedSize_lt := by simp [OutgoingRequests.default]

/-! ## Removing a request -/

/-- An unknown request is not removed. -/
theorem remove_of_unknown {id : Int32} (h : s.requestsById.get id = none) :
    (OutgoingRequests.remove id).run s = .ok none s := by
  simp [OutgoingRequests.remove, EStateM.run_bind, h, AssocMap.erase_of_get_eq_none h]

/-- A pending request is one of those whose sizes are added up. -/
theorem size_le_requestedSize (hinv : Consistent s) {k : OutgoingRequest}
    (hpending : k ∈ s.pendingRequests) : asUsize k.size ≤ s.requestedSize := by
  rw [hinv.requestedSize_eq]
  exact Finset.single_le_sum (f := fun k => asUsize k.size) (fun _ _ => Nat.zero_le _) hpending

/-- A pending request frees its slot and its size. -/
theorem remove_of_pending (hinv : Consistent s) {id : Int32} {r : Request}
    {k : OutgoingRequest} (hr : s.requestsById.get id = some r)
    (hk : OutgoingRequest.ofRequest r = .ok k) (hpending : k ∈ s.pendingRequests) :
    (OutgoingRequests.remove id).run s =
      .ok (some r) {
        requestsById := s.requestsById.erase id
        requestsByRequest := s.requestsByRequest.erase k
        pendingRequests := s.pendingRequests.erase k
        requestedSize := s.requestedSize - asUsize k.size } := by
  obtain ⟨t, ht⟩ := (hinv.same id k).mp ⟨r, hr, hk⟩
  have hle := size_le_requestedSize hinv hpending
  simp [OutgoingRequests.remove, EStateM.run_bind, hr, hk, ht, hpending, hle]

/-- A request that has not been sent is removed from the maps before the assertion fails. -/
theorem remove_of_waiting (hinv : Consistent s) {id : Int32} {r : Request}
    {k : OutgoingRequest} (hr : s.requestsById.get id = some r)
    (hk : OutgoingRequest.ofRequest r = .ok k) (hwaiting : k ∉ s.pendingRequests) :
    (OutgoingRequests.remove id).run s =
      .error .assertion { s with
        requestsById := s.requestsById.erase id
        requestsByRequest := s.requestsByRequest.erase k } := by
  obtain ⟨t, ht⟩ := (hinv.same id k).mp ⟨r, hr, hk⟩
  simp [OutgoingRequests.remove, EStateM.run_bind, hr, hk, ht, hwaiting, Rust.assert]

/-- Taking a request out of everything keeps the structures in step. -/
theorem consistent_erase (hinv : Consistent s) {id : Int32} {r : Request} {k : OutgoingRequest}
    (hr : s.requestsById.get id = some r) (hk : OutgoingRequest.ofRequest r = .ok k) :
    Consistent {
      requestsById := s.requestsById.erase id
      requestsByRequest := s.requestsByRequest.erase k
      pendingRequests := s.pendingRequests.erase k
      requestedSize := ∑ k' ∈ s.pendingRequests.erase k, asUsize k'.size } := by
  have hother : ∀ id' r', (s.requestsById.erase id).get id' = some r' →
      id' ≠ id ∧ s.requestsById.get id' = some r' := by
    intro id' r' h
    rw [AssocMap.get_erase] at h
    split at h
    · cases h
    · rename_i hne
      exact ⟨hne, h⟩
  constructor
  · intro id' r' h
    exact hinv.keyed id' r' (hother id' r' h).2
  · intro id' k'
    constructor
    · rintro ⟨r', hr', hk'⟩
      obtain ⟨hne, hget⟩ := hother id' r' hr'
      obtain ⟨t, ht⟩ := (hinv.same id' k').mp ⟨r', hget, hk'⟩
      refine ⟨t, ?_⟩
      rw [AssocMap.get_erase_of_ne]
      · exact ht
      · rintro rfl
        exact hne (queued_id_unique hinv hget hr hk' hk)
    · rintro ⟨t, ht⟩
      rw [AssocMap.get_erase] at ht
      split at ht
      · cases ht
      · rename_i hne
        obtain ⟨r', hr', hk'⟩ := (hinv.same id' k').mpr ⟨t, ht⟩
        refine ⟨r', ?_, hk'⟩
        rw [AssocMap.get_erase_of_ne]
        · exact hr'
        · rintro rfl
          rw [hr] at hr'
          obtain rfl := Option.some.inj hr'
          exact hne (Except.ok.inj (hk'.symm.trans hk))
  · intro k' hk'
    obtain ⟨hne, hmem⟩ := Finset.mem_erase.mp hk'
    obtain ⟨v, hv⟩ := hinv.pending_queued k' hmem
    exact ⟨v, by rw [AssocMap.get_erase_of_ne _ hne]; exact hv⟩
  · rfl
  · have hsub : ∑ k' ∈ s.pendingRequests.erase k, asUsize k'.size ≤ s.requestedSize := by
      rw [hinv.requestedSize_eq]
      exact Finset.sum_le_sum_of_subset (Finset.erase_subset k s.pendingRequests)
    exact hsub.trans_lt hinv.requestedSize_lt

/-- The sum without a pending request. -/
theorem requestedSize_erase (hinv : Consistent s) {k : OutgoingRequest}
    (hpending : k ∈ s.pendingRequests) :
    ∑ k' ∈ s.pendingRequests.erase k, asUsize k'.size = s.requestedSize - asUsize k.size := by
  have hsum := Finset.add_sum_erase s.pendingRequests (fun k => asUsize k.size) hpending
  have hsize := hinv.requestedSize_eq
  omega

/-- Removing any id keeps the structures in step, also where it panics. -/
theorem consistent_remove (hinv : Consistent s) (id : Int32) :
    Consistent (RustM.endState ((OutgoingRequests.remove id).run s)) := by
  cases hr : s.requestsById.get id with
  | none =>
      rw [remove_of_unknown hr]
      exact hinv
  | some r =>
      obtain ⟨k, hk⟩ := hinv.keyed id r hr
      have herase := consistent_erase hinv hr hk
      by_cases hpending : k ∈ s.pendingRequests
      · rw [remove_of_pending hinv hr hk hpending]
        rw [requestedSize_erase hinv hpending] at herase
        exact herase
      · rw [remove_of_waiting hinv hr hk hpending]
        rw [Finset.erase_eq_of_notMem hpending, ← hinv.requestedSize_eq] at herase
        exact herase

/-- Removing a pending request keeps the invariant. -/
theorem queueInvariant_erase (hinv : QueueInvariant s) {id : Int32} {r : Request}
    {k : OutgoingRequest} (hr : s.requestsById.get id = some r)
    (hk : OutgoingRequest.ofRequest r = .ok k) (hpending : k ∈ s.pendingRequests) :
    QueueInvariant {
      requestsById := s.requestsById.erase id
      requestsByRequest := s.requestsByRequest.erase k
      pendingRequests := s.pendingRequests.erase k
      requestedSize := s.requestedSize - asUsize k.size } := by
  have hconsistent := consistent_of_queueInvariant hinv
  apply queueInvariant_of_consistent
  · rw [← requestedSize_erase hconsistent hpending]
    exact consistent_erase hconsistent hr hk
  · intro id' r' h
    dsimp only at h
    rw [AssocMap.get_erase] at h
    split_ifs at h
    exact hinv.size_nonneg id' r' h

/-! ## Inserting a request -/

/-- A request whose hash is no hash is a panic. -/
theorem insert_of_no_key {id : Int32} {r : Request} {now : ℕ} {e : Fault}
    (hk : OutgoingRequest.ofRequest r = .error e) :
    (OutgoingRequests.insert id r now).run s = .error e s := by
  simp [OutgoingRequests.insert, EStateM.run_bind, hk]

/-- A block that is queued is not queued again. -/
theorem insert_of_queued {id : Int32} {r : Request} {now : ℕ} {k : OutgoingRequest}
    (hk : OutgoingRequest.ofRequest r = .ok k) {v : Int32 × ℕ}
    (hv : s.requestsByRequest.get k = some v) :
    (OutgoingRequests.insert id r now).run s = .ok none s := by
  have hcontains : s.requestsByRequest.contains k = true := AssocMap.contains_iff.mpr ⟨v, hv⟩
  simp [OutgoingRequests.insert, EStateM.run_bind, hk, hcontains]

/-- Another one is. -/
theorem insert_of_new {id : Int32} {r : Request} {now : ℕ} {k : OutgoingRequest}
    (hk : OutgoingRequest.ofRequest r = .ok k) (hnew : s.requestsByRequest.get k = none) :
    (OutgoingRequests.insert id r now).run s =
      .ok (some r) { s with
        requestsById := s.requestsById.insert id r
        requestsByRequest := s.requestsByRequest.insert k (id, now) } := by
  have hcontains : s.requestsByRequest.contains k = false :=
    AssocMap.contains_eq_false_iff.mpr hnew
  simp [OutgoingRequests.insert, EStateM.run_bind, hk, hcontains]

/-- Inserting a new request under an id that is not in use keeps the structures in step. -/
theorem consistent_insert (hinv : Consistent s) {id : Int32} {r : Request} {now : ℕ}
    {k : OutgoingRequest} (hfree : s.requestsById.get id = none)
    (hk : OutgoingRequest.ofRequest r = .ok k) (hnew : s.requestsByRequest.get k = none) :
    Consistent { s with
      requestsById := s.requestsById.insert id r
      requestsByRequest := s.requestsByRequest.insert k (id, now) } := by
  have hget : ∀ id' r', (s.requestsById.insert id r).get id' = some r' →
      id' = id ∧ r' = r ∨ s.requestsById.get id' = some r' := by
    intro id' r' h
    rw [AssocMap.get_insert] at h
    split at h
    · rename_i heq
      exact .inl ⟨heq, (Option.some.inj h).symm⟩
    · exact .inr h
  constructor
  · intro id' r' h
    rcases hget id' r' h with ⟨-, rfl⟩ | h
    · exact ⟨k, hk⟩
    · exact hinv.keyed id' r' h
  · intro id' k'
    constructor
    · rintro ⟨r', hr', hk'⟩
      rcases hget id' r' hr' with ⟨rfl, rfl⟩ | hr'
      · obtain rfl := Except.ok.inj (hk'.symm.trans hk)
        exact ⟨now, AssocMap.get_insert_self _ _ _⟩
      · obtain ⟨t, ht⟩ := (hinv.same id' k').mp ⟨r', hr', hk'⟩
        refine ⟨t, ?_⟩
        rw [AssocMap.get_insert_of_ne]
        · exact ht
        · rintro rfl
          rw [hnew] at ht
          cases ht
    · rintro ⟨t, ht⟩
      rw [AssocMap.get_insert] at ht
      split at ht
      · rename_i heq
        subst heq
        obtain ⟨rfl, -⟩ := Prod.mk.inj (Option.some.inj ht)
        exact ⟨r, AssocMap.get_insert_self _ _ _, hk⟩
      · obtain ⟨r', hr', hk'⟩ := (hinv.same id' k').mpr ⟨t, ht⟩
        refine ⟨r', ?_, hk'⟩
        rw [AssocMap.get_insert_of_ne]
        · exact hr'
        · rintro rfl
          rw [hfree] at hr'
          cases hr'
  · intro k' hk'
    obtain ⟨v, hv⟩ := hinv.pending_queued k' hk'
    refine ⟨v, ?_⟩
    rw [AssocMap.get_insert_of_ne]
    · exact hv
    · rintro rfl
      rw [hnew] at hv
      cases hv
  · exact hinv.requestedSize_eq
  · exact hinv.requestedSize_lt

/-- With a size that is not negative the invariant is kept. -/
theorem queueInvariant_insert (hinv : QueueInvariant s) {id : Int32} {r : Request} {now : ℕ}
    {k : OutgoingRequest} (hfree : s.requestsById.get id = none) (hsize : 0 ≤ r.size.toInt)
    (hk : OutgoingRequest.ofRequest r = .ok k) (hnew : s.requestsByRequest.get k = none) :
    QueueInvariant { s with
      requestsById := s.requestsById.insert id r
      requestsByRequest := s.requestsByRequest.insert k (id, now) } := by
  apply queueInvariant_of_consistent
    (consistent_insert (consistent_of_queueInvariant hinv) hfree hk hnew)
  intro id' r' h
  dsimp only at h
  rw [AssocMap.get_insert] at h
  split_ifs at h
  · obtain rfl := Option.some.inj h
    exact hsize
  · exact hinv.size_nonneg id' r' h

/-! ## Removing old requests -/

/-- The ids of the requests that are not too old. -/
def waitingIds (s : OutgoingRequests) (now : ℕ) : List Int32 :=
  (s.requestsByRequest.values.filter fun v =>
    OutgoingRequests.inQueueLessThanMax now v.2).map Prod.fst

/-- The queue reduced to the ids of a list. -/
def keepIds (s : OutgoingRequests) (ids : List Int32) : OutgoingRequests where
  requestsById := s.requestsById.retain fun id _ => id ∈ ids
  requestsByRequest := s.requestsByRequest.retain fun _ v => v.1 ∈ ids
  pendingRequests := s.pendingRequests.filter fun k =>
    (s.requestsByRequest.retain fun _ v => v.1 ∈ ids).contains k = true
  requestedSize := ∑ k ∈ s.pendingRequests with
    (s.requestsByRequest.retain fun _ v => v.1 ∈ ids).contains k = true, asUsize k.size

/-- Dropping old requests keeps those that have not waited too long. -/
theorem removeOldRequests_run (hinv : Consistent s) (now : ℕ) :
    (OutgoingRequests.removeOldRequests now).run s = .ok () (keepIds s (waitingIds s now)) := by
  have hbound : ∑ k ∈ s.pendingRequests with
      (s.requestsByRequest.retain fun _ v => v.1 ∈ waitingIds s now).contains k = false,
      asUsize k.size < 2 ^ 64 := by
    apply lt_of_le_of_lt _ hinv.requestedSize_lt
    rw [hinv.requestedSize_eq]
    exact Finset.sum_le_sum_of_subset (Finset.filter_subset _ _)
  have hsplit := Finset.sum_filter_add_sum_filter_not s.pendingRequests
    (fun k => (s.requestsByRequest.retain fun _ v => v.1 ∈ waitingIds s now).contains k = true)
    (fun k => asUsize k.size)
  simp only [Bool.not_eq_true] at hsplit
  rw [← hinv.requestedSize_eq] at hsplit
  have hsum : OutgoingRequests.sumSizes (s.pendingRequests.filter fun k =>
      (s.requestsByRequest.retain fun _ v => v.1 ∈ waitingIds s now).contains k = false) =
      .ok (∑ k ∈ s.pendingRequests with
        (s.requestsByRequest.retain fun _ v => v.1 ∈ waitingIds s now).contains k = false,
        asUsize k.size) := if_pos hbound
  have hle : ∑ k ∈ s.pendingRequests with
      (s.requestsByRequest.retain fun _ v => v.1 ∈ waitingIds s now).contains k = false,
      asUsize k.size ≤ s.requestedSize := by
    omega
  have hsub := Nat.sub_eq_of_eq_add hsplit.symm
  unfold waitingIds at *
  simp [OutgoingRequests.removeOldRequests, EStateM.run_bind, hsum, hle, hsub, keepIds]

/-- Keeping the requests of any set of ids keeps the structures in step. -/
theorem consistent_keepIds (hinv : Consistent s) (ids : List Int32) :
    Consistent (keepIds s ids) := by
  have hbyId : ∀ id r, (keepIds s ids).requestsById.get id = some r ↔
      s.requestsById.get id = some r ∧ id ∈ ids := by
    intro id r
    simp [keepIds, AssocMap.get_retain, Option.filter_eq_some_iff]
  have hbyRequest : ∀ k v, (keepIds s ids).requestsByRequest.get k = some v ↔
      s.requestsByRequest.get k = some v ∧ v.1 ∈ ids := by
    intro k v
    simp [keepIds, AssocMap.get_retain, Option.filter_eq_some_iff]
  constructor
  · intro id r h
    exact hinv.keyed id r ((hbyId id r).mp h).1
  · intro id k
    constructor
    · rintro ⟨r, hr, hk⟩
      obtain ⟨hr, hid⟩ := (hbyId id r).mp hr
      obtain ⟨t, ht⟩ := (hinv.same id k).mp ⟨r, hr, hk⟩
      exact ⟨t, (hbyRequest k (id, t)).mpr ⟨ht, hid⟩⟩
    · rintro ⟨t, ht⟩
      obtain ⟨ht, hid⟩ := (hbyRequest k (id, t)).mp ht
      obtain ⟨r, hr, hk⟩ := (hinv.same id k).mpr ⟨t, ht⟩
      exact ⟨r, (hbyId id r).mpr ⟨hr, hid⟩, hk⟩
  · intro k hk
    exact AssocMap.contains_iff.mp (Finset.mem_filter.mp hk).2
  · rfl
  · apply lt_of_le_of_lt _ hinv.requestedSize_lt
    rw [hinv.requestedSize_eq]
    exact Finset.sum_le_sum_of_subset (Finset.filter_subset _ _)

/-- And keeps the invariant. -/
theorem queueInvariant_keepIds (hinv : QueueInvariant s) (ids : List Int32) :
    QueueInvariant (keepIds s ids) := by
  apply queueInvariant_of_consistent (consistent_keepIds (consistent_of_queueInvariant hinv) ids)
  intro id r h
  simp only [keepIds, AssocMap.get_retain, Option.filter_eq_some_iff] at h
  exact hinv.size_nonneg id r h.1

/-! ## Sending queued requests -/

/-- The queue with the requests of some keys marked as sent. -/
def markSent (s : OutgoingRequests) (keys : List OutgoingRequest) : OutgoingRequests :=
  { s with
    pendingRequests := s.pendingRequests ∪ keys.toFinset
    requestedSize := s.requestedSize + (keys.map fun k => asUsize k.size).sum }

/-- No requests sent. -/
@[simp] theorem markSent_nil (s : OutgoingRequests) : markSent s [] = s := by
  simp [markSent]

/-- One more request sent. -/
theorem markSent_cons (s : OutgoingRequests) (k : OutgoingRequest) (keys : List OutgoingRequest) :
    markSent (markSent s [k]) keys = markSent s (k :: keys) := by
  simp only [markSent, List.toFinset_cons, List.toFinset_nil, insert_empty_eq, List.map_cons,
    List.map_nil, List.sum_cons, List.sum_nil, add_zero, OutgoingRequests.mk.injEq, true_and]
  refine ⟨?_, Nat.add_assoc _ _ _⟩
  rw [Finset.union_assoc]
  rfl

/-- The running sum grows by the sizes of the marked requests. -/
theorem requestedSize_markSent {keys : List OutgoingRequest}
    (hsum : s.requestedSize = ∑ k ∈ s.pendingRequests, asUsize k.size) (hnodup : keys.Nodup)
    (hfresh : ∀ k ∈ keys, k ∉ s.pendingRequests) :
    (markSent s keys).requestedSize =
      ∑ k ∈ (markSent s keys).pendingRequests, asUsize k.size := by
  have hdisjoint : Disjoint s.pendingRequests keys.toFinset := by
    rw [Finset.disjoint_right]
    intro k hk
    exact hfresh k (List.mem_toFinset.mp hk)
  show s.requestedSize + _ = ∑ k ∈ s.pendingRequests ∪ keys.toFinset, asUsize k.size
  rw [Finset.sum_union hdisjoint, hsum, List.sum_toFinset _ hnodup]

/-- Marked requests are queued. -/
theorem pending_queued_markSent {keys : List OutgoingRequest}
    (hpending : ∀ k ∈ s.pendingRequests, ∃ v, s.requestsByRequest.get k = some v)
    (hqueued : ∀ k ∈ keys, ∃ v, s.requestsByRequest.get k = some v) :
    ∀ k ∈ (markSent s keys).pendingRequests, ∃ v, s.requestsByRequest.get k = some v := by
  intro k hk
  rcases Finset.mem_union.mp hk with hk | hk
  · exact hpending k hk
  · exact hqueued k (List.mem_toFinset.mp hk)

/-- Marking queued requests that were not pending keeps the structures in step, if the sum
still fits. -/
theorem consistent_markSent (hinv : Consistent s) {keys : List OutgoingRequest}
    (hqueued : ∀ k ∈ keys, ∃ v, s.requestsByRequest.get k = some v)
    (hnodup : keys.Nodup) (hfresh : ∀ k ∈ keys, k ∉ s.pendingRequests)
    (hlt : (markSent s keys).requestedSize < 2 ^ 64) : Consistent (markSent s keys) where
  keyed := hinv.keyed
  same := hinv.same
  pending_queued := pending_queued_markSent hinv.pending_queued hqueued
  requestedSize_eq := requestedSize_markSent hinv.requestedSize_eq hnodup hfresh
  requestedSize_lt := hlt

/-- Marking queued requests that were not pending keeps the invariant. -/
theorem queueInvariant_markSent (hinv : QueueInvariant s) {keys : List OutgoingRequest}
    (hqueued : ∀ k ∈ keys, ∃ v, s.requestsByRequest.get k = some v)
    (hnodup : keys.Nodup) (hfresh : ∀ k ∈ keys, k ∉ s.pendingRequests) :
    QueueInvariant (markSent s keys) where
  keyed := hinv.keyed
  same := hinv.same
  pending_queued := pending_queued_markSent hinv.pending_queued hqueued
  requestedSize_eq := requestedSize_markSent hinv.requestedSize_eq hnodup hfresh
  size_nonneg := hinv.size_nonneg

/-- What the loop has sent: requests of the queue that were not pending, each once, with
the bounds it was given still met. -/
structure SentFrom (s : OutgoingRequests) (freeSlots maxStorageArea processed : ℕ)
    (fileNames : Finset String) (sent : List (OutgoingRequest × Request)) : Prop where
  queued : ∀ p ∈ sent, ∃ id t, s.requestsByRequest.get p.1 = some (id, t) ∧
    s.requestsById.get id = some p.2
  nodup : (sent.map Prod.fst).Nodup
  fresh : ∀ p ∈ sent, p.1 ∉ s.pendingRequests
  slots : processed ≤ freeSlots → processed + sent.length ≤ freeSlots
  storage : s.requestedSize ≤ maxStorageArea →
    s.requestedSize + ((sent.map Prod.fst).map fun k => asUsize k.size).sum ≤ maxStorageArea
  names : fileNames.card ≤ 10 →
    (fileNames ∪ (sent.map Prod.fst).toFinset.image OutgoingRequest.name).card ≤ 10

/-- A loop that sends nothing. -/
theorem sentFrom_nil (s : OutgoingRequests) (freeSlots maxStorageArea processed : ℕ)
    (fileNames : Finset String) :
    SentFrom s freeSlots maxStorageArea processed fileNames [] := by
  constructor <;> simp

/-- One iteration of the loop. -/
theorem updateLoop_cons_run (freeSlots maxStorageArea : ℕ) (k : OutgoingRequest) (id : Int32)
    (t : ℕ) (entries : List (OutgoingRequest × Int32 × ℕ)) (processed : List Request)
    (fileNames : Finset String) (s : OutgoingRequests) {r : Request}
    (hsize : s.requestedSize + asUsize k.size < 2 ^ 64) (hr : s.requestsById.get id = some r) :
    (OutgoingRequests.updateLoop freeSlots maxStorageArea ((k, id, t) :: entries) processed
      fileNames).run s =
      if 10 ≤ fileNames.card ∧ k.name ∉ fileNames then .ok processed s
      else if freeSlots ≤ processed.length then .ok processed s
      else if maxStorageArea < s.requestedSize + asUsize k.size then .ok processed s
      else if k ∈ s.pendingRequests then
        (OutgoingRequests.updateLoop freeSlots maxStorageArea entries processed fileNames).run s
      else
        (OutgoingRequests.updateLoop freeSlots maxStorageArea entries (processed ++ [r])
          (insert k.name fileNames)).run (markSent s [k]) := by
  have hmark : markSent s [k] = { s with
      pendingRequests := insert k s.pendingRequests
      requestedSize := s.requestedSize + asUsize k.size } := by
    simp [markSent, Finset.union_singleton]
  have hadd := Rust.add_of_lt hsize
  rw [hmark, OutgoingRequests.updateLoop]
  split_ifs with hnames hslots hstorage hpending
  · simp
  · simp
  · simp [EStateM.run_bind, hadd, hstorage]
  · simp [EStateM.run_bind, hadd, hstorage, hpending]
  · simp [EStateM.run_bind, hadd, hstorage, hpending, hr]

/-- Sending one more request before the others. -/
theorem sentFrom_cons {freeSlots maxStorageArea processed : ℕ} {fileNames : Finset String}
    {sent : List (OutgoingRequest × Request)} {k : OutgoingRequest} {id : Int32} {t : ℕ}
    {r : Request} (hk : s.requestsByRequest.get k = some (id, t))
    (hr : s.requestsById.get id = some r) (hpending : k ∉ s.pendingRequests)
    (hslots : processed < freeSlots)
    (hstorage : s.requestedSize + asUsize k.size ≤ maxStorageArea)
    (hnames : ¬ (10 ≤ fileNames.card ∧ k.name ∉ fileNames))
    (hsent : SentFrom (markSent s [k]) freeSlots maxStorageArea (processed + 1)
      (insert k.name fileNames) sent) :
    SentFrom s freeSlots maxStorageArea processed fileNames ((k, r) :: sent) := by
  have hfresh : ∀ p ∈ sent, p.1 ≠ k ∧ p.1 ∉ s.pendingRequests := by
    intro p hp
    have hnot := hsent.fresh p hp
    simp only [markSent, List.toFinset_cons, List.toFinset_nil, insert_empty_eq,
      Finset.mem_union, Finset.mem_singleton, not_or] at hnot
    exact ⟨hnot.2, hnot.1⟩
  constructor
  · intro p hp
    rcases List.mem_cons.mp hp with rfl | hp
    · exact ⟨id, t, hk, hr⟩
    · exact hsent.queued p hp
  · rw [List.map_cons, List.nodup_cons]
    refine ⟨?_, hsent.nodup⟩
    intro hmem
    obtain ⟨p, hp, heq⟩ := List.mem_map.mp hmem
    exact (hfresh p hp).1 heq
  · intro p hp
    rcases List.mem_cons.mp hp with rfl | hp
    · exact hpending
    · exact (hfresh p hp).2
  · intro _
    have hrest := hsent.slots (by omega)
    rw [List.length_cons]
    omega
  · intro _
    have hmark : (markSent s [k]).requestedSize = s.requestedSize + asUsize k.size := by
      simp [markSent]
    have hrest := hsent.storage (by omega)
    rw [hmark] at hrest
    rw [List.map_cons, List.map_cons, List.sum_cons, ← Nat.add_assoc]
    exact hrest
  · intro hcard
    have hcard' : (insert k.name fileNames).card ≤ 10 := by
      by_cases hmem : k.name ∈ fileNames
      · rw [Finset.insert_eq_of_mem hmem]
        exact hcard
      · rw [Finset.card_insert_of_notMem hmem]
        have : ¬ 10 ≤ fileNames.card := fun h => hnames ⟨h, hmem⟩
        omega
    have hrest := hsent.names hcard'
    rw [List.map_cons, List.toFinset_cons, Finset.image_insert, Finset.union_insert,
      ← Finset.insert_union]
    exact hrest

/-- The loop of `update_pending_requests` sends requests of the entries it is given and
marks them as sent, until it is done or the sum of the sizes does not fit any more. The
induction is on the entries still to come. -/
theorem updateLoop_run (freeSlots maxStorageArea : ℕ)
    (entries : List (OutgoingRequest × Int32 × ℕ)) :
    ∀ (s : OutgoingRequests) (processed : List Request) (fileNames : Finset String),
      Consistent s →
      (∀ e ∈ entries, s.requestsByRequest.get e.1 = some e.2) →
      ∃ sent : List (OutgoingRequest × Request),
        SentFrom s freeSlots maxStorageArea processed.length fileNames sent ∧
        Consistent (markSent s (sent.map Prod.fst)) ∧
        ((OutgoingRequests.updateLoop freeSlots maxStorageArea entries processed fileNames).run s =
            .ok (processed ++ sent.map Prod.snd) (markSent s (sent.map Prod.fst)) ∨
          (OutgoingRequests.updateLoop freeSlots maxStorageArea entries processed fileNames).run s =
            .error .overflow (markSent s (sent.map Prod.fst)) ∧
          ∃ e ∈ entries,
            2 ^ 64 ≤ (markSent s (sent.map Prod.fst)).requestedSize + asUsize e.1.size) := by
  induction entries with
  | nil =>
      intro s processed fileNames hinv _
      exact ⟨[], sentFrom_nil _ _ _ _ _, by simpa using hinv,
        Or.inl (by simp [OutgoingRequests.updateLoop])⟩
  | cons entry entries ih =>
      intro s processed fileNames hinv hentries
      obtain ⟨k, id, t⟩ := entry
      have hk : s.requestsByRequest.get k = some (id, t) := hentries _ List.mem_cons_self
      obtain ⟨r, hr, hkr⟩ := (hinv.same id k).mpr ⟨t, hk⟩
      have hnil : Consistent (markSent s (([] : List (OutgoingRequest × Request)).map
          Prod.fst)) := by
        simpa using hinv
      by_cases hsize : s.requestedSize + asUsize k.size < 2 ^ 64
      · rw [updateLoop_cons_run freeSlots maxStorageArea k id t entries processed fileNames s hsize
          hr]
        split_ifs with hnames hslots hstorage hpending
        · exact ⟨[], sentFrom_nil _ _ _ _ _, hnil, Or.inl (by simp)⟩
        · exact ⟨[], sentFrom_nil _ _ _ _ _, hnil, Or.inl (by simp)⟩
        · exact ⟨[], sentFrom_nil _ _ _ _ _, hnil, Or.inl (by simp)⟩
        · -- a request that is pending already is passed over
          obtain ⟨sent, hsent, hconsistent, hrun⟩ := ih s processed fileNames hinv fun e he =>
            hentries e (List.mem_cons_of_mem _ he)
          refine ⟨sent, hsent, hconsistent, hrun.imp_right ?_⟩
          rintro ⟨herror, e, he, hover⟩
          exact ⟨herror, e, List.mem_cons_of_mem _ he, hover⟩
        · -- the request is sent
          have hmark : (markSent s [k]).requestedSize = s.requestedSize + asUsize k.size := by
            simp [markSent]
          have hinv₁ : Consistent (markSent s [k]) :=
            consistent_markSent hinv (by simpa using ⟨id, t, hk⟩) (List.nodup_singleton k)
              (by simpa using hpending) (by omega)
          obtain ⟨sent, hsent, hconsistent, hrun⟩ := ih (markSent s [k]) (processed ++ [r])
            (insert k.name fileNames) hinv₁ fun e he => hentries e (List.mem_cons_of_mem _ he)
          rw [List.length_append, List.length_singleton] at hsent
          rw [markSent_cons] at hconsistent hrun
          refine ⟨(k, r) :: sent, sentFrom_cons hk hr hpending (by omega) (by omega) hnames hsent,
            hconsistent, ?_⟩
          rcases hrun with hrun | ⟨herror, e, he, hover⟩
          · refine Or.inl ?_
            rw [hrun, List.map_cons, List.map_cons, List.append_assoc]
            rfl
          · exact Or.inr ⟨herror, e, List.mem_cons_of_mem _ he, hover⟩
      · -- the sum does not fit, unless the loop stops before it is taken
        have hadd : Rust.add 64 s.requestedSize (asUsize k.size) = .error .overflow := if_neg hsize
        refine ⟨[], sentFrom_nil _ _ _ _ _, hnil, ?_⟩
        rw [OutgoingRequests.updateLoop]
        split_ifs with hnames hslots
        · exact Or.inl (by simp)
        · exact Or.inl (by simp)
        · refine Or.inr ⟨by simp [EStateM.run_bind, hadd], (k, id, t), List.mem_cons_self, ?_⟩
          simpa using hsize

/-- The entries in key order are those of the map. -/
theorem mem_inKeyOrder {m : AssocMap OutgoingRequest (Int32 × ℕ)}
    {e : OutgoingRequest × Int32 × ℕ} :
    e ∈ OutgoingRequests.inKeyOrder m ↔ m.get e.1 = some e.2 := by
  unfold OutgoingRequests.inKeyOrder
  rw [(List.perm_insertionSort _ _).mem_iff]
  exact AssocMap.mem_entries_iff

/-- Sending requests marks queued requests that were not pending, within the limits, also where
it panics; where it returns, those are the requests it hands out. -/
theorem updatePendingRequests_sentFrom (hinv : Consistent s) (maxPending maxStorageArea : ℕ) :
    ∃ sent : List (OutgoingRequest × Request),
      SentFrom s (maxPending - s.pendingRequests.card) maxStorageArea 0
        (s.pendingRequests.image OutgoingRequest.name) sent ∧
      RustM.endState ((OutgoingRequests.updatePendingRequests maxPending maxStorageArea).run s) =
        markSent s (sent.map Prod.fst) ∧
      Consistent (markSent s (sent.map Prod.fst)) ∧
      ∀ requests s',
        (OutgoingRequests.updatePendingRequests maxPending maxStorageArea).run s =
          .ok requests s' → requests = sent.map Prod.snd := by
  have hnil : markSent s (([] : List (OutgoingRequest × Request)).map Prod.fst) = s := by
    simp
  rw [OutgoingRequests.updatePendingRequests, EStateM.run_bind, RustM.run_getThe]
  dsimp only
  by_cases hle : s.pendingRequests.card ≤ maxPending
  · rw [EStateM.run_bind, Rust.sub_of_le hle, RustM.run_lift_ok]
    dsimp only
    obtain ⟨sent, hsent, hconsistent, hrun⟩ := updateLoop_run (maxPending - s.pendingRequests.card)
      maxStorageArea (OutgoingRequests.inKeyOrder s.requestsByRequest) s []
      (s.pendingRequests.image OutgoingRequest.name) hinv fun e he => mem_inKeyOrder.mp he
    rcases hrun with hrun | ⟨hrun, -⟩
    · rw [hrun]
      refine ⟨sent, hsent, rfl, hconsistent, ?_⟩
      intro requests s' h
      exact (EStateM.Result.ok.inj h).1.symm
    · rw [hrun]
      refine ⟨sent, hsent, rfl, hconsistent, ?_⟩
      intro requests s' h
      cases h
  · have hsub : Rust.sub maxPending s.pendingRequests.card = .error .overflow := if_neg hle
    rw [EStateM.run_bind, hsub, RustM.run_lift_error]
    refine ⟨[], sentFrom_nil _ _ _ _ _, hnil.symm, ?_, ?_⟩
    · rw [hnil]
      exact hinv
    · intro requests s' h
      cases h

/-- What a call sends, and that it returns. -/
theorem updatePendingRequests_sent (hinv : Consistent s) (maxPending maxStorageArea : ℕ) :
    ∃ sent : List (OutgoingRequest × Request),
      RustM.endState ((OutgoingRequests.updatePendingRequests maxPending maxStorageArea).run s) =
        markSent s (sent.map Prod.fst) ∧
      Consistent (markSent s (sent.map Prod.fst)) ∧
      ∀ requests s',
        (OutgoingRequests.updatePendingRequests maxPending maxStorageArea).run s =
          .ok requests s' → requests = sent.map Prod.snd := by
  obtain ⟨sent, -, hsent⟩ := updatePendingRequests_sentFrom hinv maxPending maxStorageArea
  exact ⟨sent, hsent⟩

/-- The queue stays consistent also if it panics. -/
theorem updatePendingRequests_consistent (hinv : Consistent s) (maxPending maxStorageArea : ℕ) :
    Consistent (RustM.endState
      ((OutgoingRequests.updatePendingRequests maxPending maxStorageArea).run s)) := by
  obtain ⟨sent, hend, hconsistent, -⟩ := updatePendingRequests_sent hinv maxPending maxStorageArea
  rw [hend]
  exact hconsistent

/-- Sending requests out of a queue within its limits returns, and sends requests that
were not pending. -/
theorem updatePendingRequests_run (hinv : QueueInvariant s) {maxPending : ℕ}
    (maxStorageArea : ℕ) (hle : s.pendingRequests.card ≤ maxPending) :
    ∃ sent : List (OutgoingRequest × Request),
      (OutgoingRequests.updatePendingRequests maxPending maxStorageArea).run s =
        .ok (sent.map Prod.snd) (markSent s (sent.map Prod.fst)) ∧
      SentFrom s (maxPending - s.pendingRequests.card) maxStorageArea 0
        (s.pendingRequests.image OutgoingRequest.name) sent := by
  have hentries : ∀ e ∈ OutgoingRequests.inKeyOrder s.requestsByRequest,
      s.requestsByRequest.get e.1 = some e.2 := fun e he => mem_inKeyOrder.mp he
  obtain ⟨sent, hsent, hconsistent, hrun⟩ := updateLoop_run
    (maxPending - s.pendingRequests.card) maxStorageArea
    (OutgoingRequests.inKeyOrder s.requestsByRequest) s []
    (s.pendingRequests.image OutgoingRequest.name) (consistent_of_queueInvariant hinv) hentries
  refine ⟨sent, ?_, hsent⟩
  rcases hrun with hrun | ⟨-, e, he, hover⟩
  · simpa [OutgoingRequests.updatePendingRequests, EStateM.run_bind, hle] using hrun
  · -- sizes that are not negative do not overflow
    have hinv₁ := queueInvariant_of_consistent hconsistent hinv.size_nonneg
    have hsum := queued_sum_le hinv₁ hinv₁.pending_queued
    rw [← hinv₁.requestedSize_eq] at hsum
    obtain ⟨r, hr, hk⟩ := (hinv.same e.2.1 e.1).mpr ⟨e.2.2, hentries e he⟩
    have hsize := asUsize_lt (hinv.size_nonneg e.2.1 r hr)
    rw [size_of_ofRequest hk] at hover
    omega

/-- What has been sent from a queue satisfies the invariant. -/
theorem queueInvariant_of_sentFrom (hinv : QueueInvariant s) {freeSlots maxStorageArea n : ℕ}
    {fileNames : Finset String} {sent : List (OutgoingRequest × Request)}
    (hsent : SentFrom s freeSlots maxStorageArea n fileNames sent) :
    QueueInvariant (markSent s (sent.map Prod.fst)) := by
  apply queueInvariant_markSent hinv
  · intro k hk
    obtain ⟨p, hp, rfl⟩ := List.mem_map.mp hk
    obtain ⟨id, t, hk, -⟩ := hsent.queued p hp
    exact ⟨(id, t), hk⟩
  · exact hsent.nodup
  · intro k hk
    obtain ⟨p, hp, rfl⟩ := List.mem_map.mp hk
    exact hsent.fresh p hp

/-- Sending keeps the queue within its limits. -/
theorem withinLimits_of_sentFrom {maxPending maxStorageArea : ℕ}
    (hlimits : WithinLimits maxPending maxStorageArea s)
    {sent : List (OutgoingRequest × Request)}
    (hbefore : s.requestedSize = ∑ k ∈ s.pendingRequests, asUsize k.size)
    (hafter : (markSent s (sent.map Prod.fst)).requestedSize =
      ∑ k ∈ (markSent s (sent.map Prod.fst)).pendingRequests, asUsize k.size)
    (hsent : SentFrom s (maxPending - s.pendingRequests.card) maxStorageArea 0
      (s.pendingRequests.image OutgoingRequest.name) sent) :
    WithinLimits maxPending maxStorageArea (markSent s (sent.map Prod.fst)) := by
  constructor
  · have hslots := hsent.slots (Nat.zero_le _)
    have hcard : (s.pendingRequests ∪ (sent.map Prod.fst).toFinset).card ≤
        s.pendingRequests.card + sent.length := by
      calc (s.pendingRequests ∪ (sent.map Prod.fst).toFinset).card
          ≤ s.pendingRequests.card + (sent.map Prod.fst).toFinset.card := Finset.card_union_le _ _
        _ ≤ s.pendingRequests.card + (sent.map Prod.fst).length :=
            Nat.add_le_add_left (List.toFinset_card_le _) _
        _ = s.pendingRequests.card + sent.length := by rw [List.length_map]
    have hpending := hlimits.pending_le
    simp only [markSent]
    omega
  · rw [← hafter]
    apply hsent.storage
    rw [hbefore]
    exact hlimits.size_le
  · show ((s.pendingRequests ∪ _).image OutgoingRequest.name).card ≤ 10
    rw [Finset.image_union]
    exact hsent.names hlimits.names_le

/-- Fewer pending requests stay within the limits. -/
theorem withinLimits_of_subset {maxPending maxStorageArea : ℕ} {s' : OutgoingRequests}
    (hlimits : WithinLimits maxPending maxStorageArea s)
    (hsub : s'.pendingRequests ⊆ s.pendingRequests) :
    WithinLimits maxPending maxStorageArea s' := by
  constructor
  · exact (Finset.card_le_card hsub).trans hlimits.pending_le
  · apply le_trans _ hlimits.size_le
    exact Finset.sum_le_sum_of_subset hsub
  · apply le_trans _ hlimits.names_le
    exact Finset.card_le_card (Finset.image_subset_image hsub)

/-! ## Runs -/

/-- What an operation does to the queue. -/
inductive Performed (maxPending maxStorageArea : ℕ) (s : OutgoingRequests) :
    RequestEvent → EStateM.Result Fault OutgoingRequests (List Request) → Prop
  /-- Nothing: the request is queued already, or the id is not in use. -/
  | unchanged {e : RequestEvent} : Performed maxPending maxStorageArea s e (.ok [] s)
  /-- A request without a key is refused. -/
  | refused {id : Int32} {r : Request} {now : ℕ} {f : Fault}
      (hk : OutgoingRequest.ofRequest r = .error f) :
      Performed maxPending maxStorageArea s (.insert id r now) (.error f s)
  /-- A new request is queued. -/
  | inserted {id : Int32} {r : Request} {now : ℕ} {k : OutgoingRequest}
      (hfree : s.requestsById.get id = none) (hsize : 0 ≤ r.size.toInt)
      (hk : OutgoingRequest.ofRequest r = .ok k) (hnew : s.requestsByRequest.get k = none) :
      Performed maxPending maxStorageArea s (.insert id r now) (.ok [] { s with
        requestsById := s.requestsById.insert id r
        requestsByRequest := s.requestsByRequest.insert k (id, now) })
  /-- A pending request is removed. -/
  | removed {id : Int32} {r : Request} {k : OutgoingRequest}
      (hr : s.requestsById.get id = some r) (hk : OutgoingRequest.ofRequest r = .ok k)
      (hpending : k ∈ s.pendingRequests) :
      Performed maxPending maxStorageArea s (.remove id) (.ok [] {
        requestsById := s.requestsById.erase id
        requestsByRequest := s.requestsByRequest.erase k
        pendingRequests := s.pendingRequests.erase k
        requestedSize := s.requestedSize - asUsize k.size })
  /-- The old requests are removed. -/
  | expired {now : ℕ} : Performed maxPending maxStorageArea s (.removeOldRequests now)
      (.ok [] (keepIds s (waitingIds s now)))
  /-- Queued requests are sent. -/
  | sent {sent : List (OutgoingRequest × Request)}
      (hsent : SentFrom s (maxPending - s.pendingRequests.card) maxStorageArea 0
        (s.pendingRequests.image OutgoingRequest.name) sent) :
      Performed maxPending maxStorageArea s .updatePendingRequests
        (.ok (sent.map Prod.snd) (markSent s (sent.map Prod.fst)))

/-- An admissible operation on a queue that satisfies both invariants does one of
these. -/
theorem performed_of_admissible {maxPending maxStorageArea : ℕ} (hinv : QueueInvariant s)
    (hlimits : WithinLimits maxPending maxStorageArea s) {e : RequestEvent}
    (hadmissible : admissible s e = true) :
    Performed maxPending maxStorageArea s e ((perform maxPending maxStorageArea e).run s) := by
  cases e with
  | insert id r now =>
      simp only [admissible, Bool.and_eq_true, Option.isNone_iff_eq_none,
        decide_eq_true_eq] at hadmissible
      obtain ⟨hfree, hsize⟩ := hadmissible
      cases hk : OutgoingRequest.ofRequest r with
      | error f =>
          simp only [perform, EStateM.run_bind, insert_of_no_key hk]
          exact .refused hk
      | ok k =>
          cases hv : s.requestsByRequest.get k with
          | some v =>
              simp only [perform, EStateM.run_bind, insert_of_queued hk hv]
              exact .unchanged
          | none =>
              simp only [perform, EStateM.run_bind, insert_of_new hk hv]
              exact .inserted hfree hsize hk hv
  | remove id =>
      simp only [admissible, removable] at hadmissible
      cases hr : s.requestsById.get id with
      | none =>
          simp only [perform, EStateM.run_bind, remove_of_unknown hr]
          exact .unchanged
      | some r =>
          obtain ⟨k, hk⟩ := hinv.keyed id r hr
          have hpending : k ∈ s.pendingRequests := by simpa [hr, hk] using hadmissible
          simp only [perform, EStateM.run_bind,
            remove_of_pending (consistent_of_queueInvariant hinv) hr hk hpending]
          exact .removed hr hk hpending
  | removeOldRequests now =>
      simp only [perform, EStateM.run_bind,
        removeOldRequests_run (consistent_of_queueInvariant hinv) now]
      exact .expired
  | updatePendingRequests =>
      obtain ⟨sent, hrun, hsent⟩ :=
        updatePendingRequests_run hinv maxStorageArea hlimits.pending_le
      simp only [perform, hrun]
      exact .sent hsent

/-- Each of them keeps both invariants. -/
theorem invariants_of_performed {maxPending maxStorageArea : ℕ} {e : RequestEvent}
    {result : EStateM.Result Fault OutgoingRequests (List Request)} (hinv : QueueInvariant s)
    (hlimits : WithinLimits maxPending maxStorageArea s)
    (h : Performed maxPending maxStorageArea s e result) :
    QueueInvariant (RustM.endState result) ∧
      WithinLimits maxPending maxStorageArea (RustM.endState result) := by
  cases h with
  | unchanged => exact ⟨hinv, hlimits⟩
  | refused => exact ⟨hinv, hlimits⟩
  | inserted hfree hsize hk hnew =>
      constructor
      · exact queueInvariant_insert hinv hfree hsize hk hnew
      · exact withinLimits_of_subset hlimits (Finset.Subset.refl _)
  | removed hr hk hpending =>
      constructor
      · exact queueInvariant_erase hinv hr hk hpending
      · exact withinLimits_of_subset hlimits (Finset.erase_subset _ _)
  | expired =>
      constructor
      · exact queueInvariant_keepIds hinv _
      · exact withinLimits_of_subset hlimits (Finset.filter_subset _ _)
  | sent hsent =>
      constructor
      · exact queueInvariant_of_sentFrom hinv hsent
      · exact withinLimits_of_sentFrom hlimits hinv.requestedSize_eq
          (queueInvariant_of_sentFrom hinv hsent).requestedSize_eq hsent

/-- One admissible operation keeps both invariants. -/
theorem invariants_step {maxPending maxStorageArea : ℕ} {s' : OutgoingRequests}
    {e : RequestEvent} (hinv : QueueInvariant s)
    (hlimits : WithinLimits maxPending maxStorageArea s)
    (hstep : queueStep maxPending maxStorageArea s e = some s') :
    QueueInvariant s' ∧ WithinLimits maxPending maxStorageArea s' := by
  unfold queueStep at hstep
  split at hstep
  · rename_i hadmissible
    obtain rfl := Option.some.inj hstep
    exact invariants_of_performed hinv hlimits (performed_of_admissible hinv hlimits hadmissible)
  · cases hstep

/-- The empty queue meets the invariant. -/
theorem queueInvariant_default : QueueInvariant .default where
  keyed id r h := by simp [OutgoingRequests.default] at h
  same id k := by simp [OutgoingRequests.default]
  pending_queued k hk := by simp [OutgoingRequests.default] at hk
  requestedSize_eq := by simp [OutgoingRequests.default]
  size_nonneg id r h := by simp [OutgoingRequests.default] at h

/-- Both invariants hold after every run. -/
theorem invariants_of_run {maxPending maxStorageArea : ℕ} {es : List RequestEvent}
    (h : Transition.run (queueStep maxPending maxStorageArea) .default es = some s) :
    QueueInvariant s ∧ WithinLimits maxPending maxStorageArea s := by
  refine Transition.invariant_run
    (fun s => QueueInvariant s ∧ WithinLimits maxPending maxStorageArea s) ?_ ?_ h
  · refine ⟨queueInvariant_default, ?_⟩
    constructor <;> simp [OutgoingRequests.default]
  · rintro s e s' ⟨hinv, hlimits⟩ hstep
    exact invariants_step hinv hlimits hstep

/-- **The queue stays in step.** After every run the two maps hold the same requests, no
two ids share a key, the sent requests are queued and their sizes add up to the running
sum; so no operation panics on it, unless it is handed a hash that is not 32 bytes. -/
theorem queueInvariant_of_run (maxPending maxStorageArea : ℕ) (es : List RequestEvent)
    (s : OutgoingRequests)
    (h : Transition.run (queueStep maxPending maxStorageArea) .default es = some s) :
    QueueInvariant s ∧
    (∀ id id' r r' k, s.requestsById.get id = some r → s.requestsById.get id' = some r' →
      OutgoingRequest.ofRequest r = .ok k → OutgoingRequest.ofRequest r' = .ok k → id = id') ∧
    ∀ e, admissible s e = true → (∀ id r now, e = .insert id r now → r.hash.length = 32) →
      ∃ sent s', (perform maxPending maxStorageArea e).run s = .ok sent s' := by
  obtain ⟨hinv, hlimits⟩ := invariants_of_run h
  refine ⟨hinv, ?_, ?_⟩
  · intro id id' r r' k hr hr' hk hk'
    exact queued_id_unique (consistent_of_queueInvariant hinv) hr hr' hk hk'
  · intro e hadmissible hhash
    generalize hresult : (perform maxPending maxStorageArea e).run s = result
    have hperformed := performed_of_admissible hinv hlimits hadmissible
    rw [hresult] at hperformed
    cases hperformed with
    | refused hk =>
        obtain ⟨k, hk'⟩ := exists_ofRequest (hhash _ _ _ rfl)
        rw [hk'] at hk
        cases hk
    | _ => exact ⟨_, _, rfl⟩

/-- One block is requested, sent and answered. -/
def oneBlock : Request :=
  { id := 1, folder := "f", name := "a", offset := 0, size := 3, hash := List.replicate 32 7 }

/-- Witness: one request is queued, sent, and not dropped yet. -/
theorem queueInvariant_of_run_oneBlock :
    ∃ s, Transition.run (queueStep 1 10) .default
        [.insert 1 oneBlock 0, .updatePendingRequests, .removeOldRequests 5] = some s ∧
      QueueInvariant s ∧
      (∀ id id' r r' k, s.requestsById.get id = some r → s.requestsById.get id' = some r' →
        OutgoingRequest.ofRequest r = .ok k → OutgoingRequest.ofRequest r' = .ok k → id = id') ∧
      ∀ e, admissible s e = true → (∀ id r now, e = .insert id r now → r.hash.length = 32) →
        ∃ sent s', (perform 1 10 e).run s = .ok sent s' := by
  obtain ⟨s, hs⟩ : ∃ s, Transition.run (queueStep 1 10) .default
      [.insert 1 oneBlock 0, .updatePendingRequests, .removeOldRequests 5] = some s := ⟨_, rfl⟩
  exact ⟨s, hs, queueInvariant_of_run 1 10 _ s hs⟩

end Grizol.Analysis
