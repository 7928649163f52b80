import Grizol.Analysis.Downloads
import Grizol.Analysis.WorkConserving
import Grizol.Interface.NewRequests

/-!
# New requests do not get in the way of old ones

The counter of ids is the number of ids that were given out, so those of new requests are
above all of these. What the queue takes is what it does not have; with the fields of a
block no two requests of the queue are the same.
-/

set_option autoImplicit false

namespace Grizol.Analysis

open Grizol.Library
open Grizol.Model Grizol.Model.Syncthing Grizol.Interface

/-! ## The ids of a list -/

section Ids

/-- The greatest id is as far above the counter as there are requests. -/
theorem foldl_max_of_requestsFromBlocks {blocks : List BlockInfoExt} {requestId : Int32}
    {requests : List Request} (h : requestsFromBlocks requestId blocks = .ok requests) :
    ((requests.map Request.id).foldl (fun m i => if i < m then m else i) requestId).toInt =
      requestId.toInt + requests.length := by
  induction blocks generalizing requestId requests with
  | nil =>
      obtain rfl := Except.ok.inj h
      simp
  | cons b blocks ih =>
      rw [requestsFromBlocks] at h
      split_ifs at h with hmax
      obtain ⟨rest, hrest, h⟩ := Rust.bind_eq_ok.mp h
      obtain rfl := Except.ok.inj h
      have hnext := toInt_add_one hmax
      have hlt : ¬ requestId + 1 < requestId := by
        rw [Int32.lt_iff_toInt_lt]
        omega
      rw [List.map_cons, List.foldl_cons, if_neg hlt, ih hrest, hnext, List.length_cons]
      push_cast
      ring

/-- Requests for blocks have the hashes and sizes of these, as long as there are ids. -/
theorem requestsFromBlocks_returns {blocks : List BlockInfoExt} {requestId : Int32}
    (hleft : blocks.length ≤ (2 ^ 31 - 1 - requestId.toInt).toNat) :
    ∃ requests, requestsFromBlocks requestId blocks = .ok requests ∧
      ∀ r ∈ requests, ∃ b ∈ blocks, r.hash = b.hash ∧ r.size = b.size := by
  induction blocks generalizing requestId with
  | nil => exact ⟨[], rfl, by simp⟩
  | cons b blocks ih =>
      rw [List.length_cons] at hleft
      have hne : requestId ≠ Int32.maxValue := by
        rintro rfl
        have hmax : (2 ^ 31 - 1 - Int32.maxValue.toInt).toNat = 0 := rfl
        omega
      have hnext := toInt_add_one hne
      obtain ⟨requests, hrequests, hfrom⟩ := @ih (requestId + 1) (by omega)
      rw [requestsFromBlocks, if_neg hne, hrequests]
      refine ⟨_, rfl, ?_⟩
      intro r hr
      rcases List.mem_cons.mp hr with rfl | hr
      · exact ⟨b, List.mem_cons_self, rfl, rfl⟩
      · obtain ⟨b', hb', hsame⟩ := hfrom r hr
        exact ⟨b', List.mem_cons_of_mem b hb', hsame⟩

/-- There is one for every block. -/
theorem asks_of_requestsFromBlocks {blocks : List BlockInfoExt} {requestId : Int32}
    {requests : List Request} (h : requestsFromBlocks requestId blocks = .ok requests) :
    (∀ b ∈ blocks, ∃ r ∈ requests, Asks r b) ∧
      ∀ r ∈ requests, r.fromTemporary = false := by
  induction blocks generalizing requestId requests with
  | nil =>
      obtain rfl := Except.ok.inj h
      simp
  | cons b blocks ih =>
      rw [requestsFromBlocks] at h
      split_ifs at h
      obtain ⟨rest, hrest, h⟩ := Rust.bind_eq_ok.mp h
      obtain rfl := Except.ok.inj h
      obtain ⟨hasks, hfinal⟩ := ih hrest
      constructor
      · intro b' hb'
        rcases List.mem_cons.mp hb' with rfl | hb'
        · exact ⟨_, List.mem_cons_self, rfl, rfl, rfl, rfl, rfl⟩
        · obtain ⟨r, hr, hb'⟩ := hasks b' hb'
          exact ⟨r, List.mem_cons_of_mem _ hr, hb'⟩
      · intro r hr
        rcases List.mem_cons.mp hr with rfl | hr
        · rfl
        · exact hfinal r hr

/-- Two requests for one block that are not for temporary files have one key. -/
theorem key_of_asks {r r' : Request} {b : BlockInfoExt} {k k' : OutgoingRequest}
    (hk : OutgoingRequest.ofRequest r = .ok k) (hk' : OutgoingRequest.ofRequest r' = .ok k')
    (h : Asks r b) (h' : Asks r' b) (hfinal : r.fromTemporary = false)
    (hfinal' : r'.fromTemporary = false) : k = k' := by
  obtain ⟨id, folder, name, offset, size, hash, temporary⟩ := r
  obtain ⟨id', folder', name', offset', size', hash', temporary'⟩ := r'
  obtain ⟨hfolder, hname, hoffset, hsize, hhash⟩ := h
  obtain ⟨hfolder', hname', hoffset', hsize', hhash'⟩ := h'
  dsimp only at *
  subst hfolder hname hoffset hsize hhash hfinal hfinal' hfolder' hname' hoffset' hsize' hhash'
  exact Except.ok.inj (hk.symm.trans hk')

/-- Requests with one key are for the same blocks. -/
theorem asks_of_key {r r' : Request} {b : BlockInfoExt} {k : OutgoingRequest}
    (hk : OutgoingRequest.ofRequest r = .ok k) (hk' : OutgoingRequest.ofRequest r' = .ok k)
    (h : Asks r b) : Asks r' b := by
  unfold OutgoingRequest.ofRequest at hk hk'
  split_ifs at hk hk'
  have heq := Except.ok.inj (hk.trans hk'.symm)
  simp only [OutgoingRequest.mk.injEq, Vector.mk.injEq] at heq
  obtain ⟨hfolder, hname, hoffset, hsize, hhash, -⟩ := heq
  have hbytes : r.hash = r'.hash := congrArg Array.toList hhash
  exact ⟨hfolder ▸ h.folder, hname ▸ h.name, hoffset ▸ h.offset, hsize ▸ h.size,
    hbytes ▸ h.hash⟩

end Ids

/-! ## Inserting -/

section Inserting

variable {q q' : OutgoingRequests}

/-- What the queue is after it was offered the requests of a list. -/
structure Takes (q q' : OutgoingRequests) (requests inserted : List Request) : Prop where
  consistent : Consistent q'
  pending : q'.pendingRequests = q.pendingRequests
  keptByRequest : ∀ k v, q.requestsByRequest.get k = some v → q'.requestsByRequest.get k = some v
  keptById : ∀ id r, q.requestsById.get id = some r → q'.requestsById.get id = some r
  offered : ∀ r ∈ requests, ∀ k, OutgoingRequest.ofRequest r = .ok k →
    ∃ v, q'.requestsByRequest.get k = some v
  added : ∀ id r, q'.requestsById.get id = some r →
    q.requestsById.get id = some r ∨ r ∈ inserted
  queued : ∀ r ∈ inserted, q'.requestsById.get r.id = some r
  sublist : inserted.Sublist requests

/-- One request. -/
theorem takes_insert (hinv : Consistent q) {r : Request} (hhash : r.hash.length = 32) (now : ℕ)
    (hfree : q.requestsById.get r.id = none) :
    ∃ inserted q', (OutgoingRequests.insert r.id r now).run q = .ok inserted q' ∧
      Takes q q' [r] inserted.toList ∧ ∀ id, id ≠ r.id →
        q'.requestsById.get id = q.requestsById.get id := by
  obtain ⟨k, hk⟩ := exists_ofRequest hhash
  have hkey : ∀ r' ∈ [r], ∀ k', OutgoingRequest.ofRequest r' = .ok k' → k' = k := by
    intro r' hr' k' hk'
    obtain rfl := List.mem_singleton.mp hr'
    exact Except.ok.inj (hk'.symm.trans hk)
  cases hget : q.requestsByRequest.get k with
  | some v =>
      refine ⟨none, q, insert_of_queued hk hget, ?_, fun _ _ => rfl⟩
      constructor
      · exact hinv
      · rfl
      · exact fun _ _ h => h
      · exact fun _ _ h => h
      · intro r' hr' k' hk'
        rw [hkey r' hr' k' hk']
        exact ⟨v, hget⟩
      · exact fun _ _ h => .inl h
      · intro r' hr'
        cases hr'
      · exact List.nil_sublist _
  | none =>
      refine ⟨some r, _, insert_of_new hk hget, ?_, fun id hid => AssocMap.get_insert_of_ne _ _ hid⟩
      constructor
      · exact consistent_insert hinv hfree hk hget
      · rfl
      · intro k' v hv
        have hne : k' ≠ k := by
          rintro rfl
          rw [hget] at hv
          cases hv
        exact (AssocMap.get_insert_of_ne _ _ hne).trans hv
      · intro id r' hr'
        have hne : id ≠ r.id := by
          rintro rfl
          rw [hfree] at hr'
          cases hr'
        exact (AssocMap.get_insert_of_ne _ _ hne).trans hr'
      · intro r' hr' k' hk'
        rw [hkey r' hr' k' hk']
        exact ⟨_, AssocMap.get_insert_self _ _ _⟩
      · intro id r' hr'
        dsimp only at hr'
        rw [AssocMap.get_insert] at hr'
        split_ifs at hr'
        · exact .inr (List.mem_singleton.mpr (Option.some.inj hr').symm)
        · exact .inl hr'
      · intro r' hr'
        obtain rfl := List.mem_singleton.mp hr'
        exact AssocMap.get_insert_self _ _ _
      · exact List.Sublist.refl _

/-- One request and then a list. -/
theorem Takes.cons {q₁ : OutgoingRequests} {r : Request} {requests first rest : List Request}
    (h : Takes q q₁ [r] first) (h' : Takes q₁ q' requests rest) :
    Takes q q' (r :: requests) (first ++ rest) where
  consistent := h'.consistent
  pending := h'.pending.trans h.pending
  keptByRequest k v hv := h'.keptByRequest k v (h.keptByRequest k v hv)
  keptById id r hr := h'.keptById id r (h.keptById id r hr)
  offered r' hr' k hk := by
    rcases List.mem_cons.mp hr' with rfl | hr'
    · obtain ⟨v, hv⟩ := h.offered _ (List.mem_singleton_self _) k hk
      exact ⟨v, h'.keptByRequest k v hv⟩
    · exact h'.offered r' hr' k hk
  added id r' hr' := by
    rcases h'.added id r' hr' with hr' | hr'
    · rcases h.added id r' hr' with hr' | hr'
      · exact .inl hr'
      · exact .inr (List.mem_append_left _ hr')
    · exact .inr (List.mem_append_right _ hr')
  queued r' hr' := by
    rcases List.mem_append.mp hr' with hr' | hr'
    · exact h'.keptById r'.id r' (h.queued r' hr')
    · exact h'.queued r' hr'
  sublist := h.sublist.append h'.sublist

/-- A list of requests with new and different ids. -/
theorem takes_insertEach {requests : List Request} (clock : ℕ → ℕ) (n : ℕ) {s : BepState}
    (hinv : Consistent s.outgoingRequests) (hhash : ∀ r ∈ requests, r.hash.length = 32)
    (hfree : ∀ r ∈ requests, s.outgoingRequests.requestsById.get r.id = none)
    (hnodup : (requests.map Request.id).Nodup) :
    ∃ inserted q', (BepState.insertEach clock n requests).run s =
        .ok inserted { s with outgoingRequests := q' } ∧
      Takes s.outgoingRequests q' requests inserted := by
  induction requests generalizing n s with
  | nil =>
      refine ⟨[], s.outgoingRequests, rfl, ?_⟩
      constructor
      · exact hinv
      · rfl
      · exact fun _ _ h => h
      · exact fun _ _ h => h
      · intro r hr
        cases hr
      · exact fun _ _ h => .inl h
      · intro r hr
        cases hr
      · exact List.Sublist.refl _
  | cons r requests ih =>
      rw [List.map_cons, List.nodup_cons] at hnodup
      obtain ⟨first, q₁, hinsert, htakes, hothers⟩ := takes_insert hinv
        (hhash r List.mem_cons_self) (clock n) (hfree r List.mem_cons_self)
      obtain ⟨rest, q', hrest, htakes'⟩ := @ih (n + 1) { s with outgoingRequests := q₁ }
        htakes.consistent (fun r' hr' => hhash r' (List.mem_cons_of_mem r hr'))
        (by
          intro r' hr'
          refine (hothers r'.id ?_).trans (hfree r' (List.mem_cons_of_mem r hr'))
          intro heq
          exact hnodup.1 (heq ▸ List.mem_map_of_mem hr'))
        hnodup.2
      refine ⟨first.toList ++ rest, q', ?_, htakes.cons htakes'⟩
      rw [BepState.insertEach]
      exact RustM.run_bind_eq_ok.mpr ⟨first, _, onQueue_eq_ok hinsert,
        RustM.run_bind_eq_ok.mpr ⟨rest, _, hrest, rfl⟩⟩

end Inserting

/-! ## Storing requests -/

section Storing

variable {s : BepState} {blocks : List BlockInfoExt}

/-- No request of the queue is for a temporary file. -/
def AllFinal (q : OutgoingRequests) : Prop :=
  ∀ id r, q.requestsById.get id = some r → r.fromTemporary = false

/-- What `remove_old_requests` keeps. -/
theorem get_keepIds {q : OutgoingRequests} (ids : List Int32) :
    (∀ id r, (keepIds q ids).requestsById.get id = some r ↔
        q.requestsById.get id = some r ∧ id ∈ ids) ∧
      ∀ k v, (keepIds q ids).requestsByRequest.get k = some v ↔
        q.requestsByRequest.get k = some v ∧ v.1 ∈ ids := by
  constructor
  · intro id r
    simp [keepIds, AssocMap.get_retain, Option.filter_eq_some_iff]
  · intro k v
    simp [keepIds, AssocMap.get_retain, Option.filter_eq_some_iff]

/-- The second section of the handler of an index, with ids left for its list. -/
theorem storeOutgoingRequests_run (hinv : QueueInStep s)
    (hhash : ∀ b ∈ blocks, b.hash.length = 32)
    (hleft : s.requestId.toInt + blocks.length < 2 ^ 31) (clock : ℕ → ℕ) :
    ∃ requests inserted q', requestsFromBlocks s.requestId blocks = .ok requests ∧
      (storeOutgoingRequests blocks clock).run s = .ok inserted { s with
        requestId := (requests.map Request.id).foldl (fun m i => if i < m then m else i) s.requestId
        outgoingRequests := q' } ∧
      Takes (keepIds s.outgoingRequests (waitingIds s.outgoingRequests (clock 0))) q' requests
        inserted := by
  obtain ⟨requests, hrequests, hfrom⟩ := @requestsFromBlocks_returns blocks s.requestId (by omega)
  obtain ⟨hlt, hnodup⟩ := id_of_requestsFromBlocks hrequests
  obtain ⟨hfirst, -⟩ := le_foldl_max (requests.map Request.id) s.requestId
  have hfree : ∀ r ∈ requests, (keepIds s.outgoingRequests
      (waitingIds s.outgoingRequests (clock 0))).requestsById.get r.id = none := by
    intro r hr
    cases hget : (keepIds s.outgoingRequests
        (waitingIds s.outgoingRequests (clock 0))).requestsById.get r.id with
    | none => rfl
    | some r' =>
        have hle := hinv.id_le r.id r' (((get_keepIds _).1 r.id r').mp hget).1
        have hnew := hlt r hr
        omega
  obtain ⟨inserted, q', hinsert, htakes⟩ := @takes_insertEach requests clock 1 { s with
      requestId := (requests.map Request.id).foldl (fun m i => if i < m then m else i) s.requestId
      outgoingRequests :=
        keepIds s.outgoingRequests (waitingIds s.outgoingRequests (clock 0)) }
    (consistent_keepIds hinv.consistent _)
    (fun r hr => by
      obtain ⟨b, hb, heq, -⟩ := hfrom r hr
      rw [heq]
      exact hhash b hb)
    hfree hnodup
  refine ⟨requests, inserted, q', hrequests, ?_, htakes⟩
  unfold storeOutgoingRequests
  rw [EStateM.run_bind, RustM.run_getThe]
  dsimp only
  rw [hrequests, EStateM.run_bind, RustM.run_lift_ok]
  dsimp only
  rw [EStateM.run_bind, fetchAddRequestId_run hinv.requestId_nonneg hfirst]
  dsimp only
  refine RustM.run_bind_eq_ok.mpr ⟨(), _, onQueue_eq_ok
    (removeOldRequests_run hinv.consistent (clock 0)), hinsert⟩

/-- What is not too old is still waiting. -/
theorem id_mem_waitingIds {q : OutgoingRequests} {k : OutgoingRequest} {id : Int32} {t now : ℕ}
    (hk : q.requestsByRequest.get k = some (id, t)) (hyoung : now - t < maxTimeInQueue) :
    id ∈ waitingIds q now := by
  apply List.mem_map.mpr
  refine ⟨(id, t), List.mem_filter.mpr ⟨AssocMap.mem_values_iff.mpr ⟨k, hk⟩, ?_⟩, rfl⟩
  exact decide_eq_true hyoung

/-- Every block has one request then. -/
theorem enqueuesEach_of_takes (hinv : Consistent s.outgoingRequests)
    (hfinal : AllFinal s.outgoingRequests) (hhash : ∀ b ∈ blocks, b.hash.length = 32)
    {requests inserted : List Request} {q' : OutgoingRequests} {now : ℕ}
    (hrequests : requestsFromBlocks s.requestId blocks = .ok requests)
    (htakes : Takes (keepIds s.outgoingRequests (waitingIds s.outgoingRequests now)) q' requests
      inserted) :
    EnqueuesEach blocks now inserted s.outgoingRequests q' := by
  obtain ⟨hbyId, hbyRequest⟩ := @get_keepIds s.outgoingRequests
    (waitingIds s.outgoingRequests now)
  obtain ⟨hasks, hfinalNew⟩ := asks_of_requestsFromBlocks hrequests
  have hadded : ∀ id r, q'.requestsById.get id = some r →
      s.outgoingRequests.requestsById.get id = some r ∨ r ∈ inserted := by
    intro id r hr
    exact (htakes.added id r hr).imp_left fun hr => ((hbyId id r).mp hr).1
  have hfinal' : AllFinal q' := by
    intro id r hr
    rcases hadded id r hr with hr | hr
    · exact hfinal id r hr
    · exact hfinalNew r (htakes.sublist.subset hr)
  constructor
  · intro b hb
    obtain ⟨r, hr, hrb⟩ := hasks b hb
    obtain ⟨k, hk⟩ := @exists_ofRequest r (by rw [hrb.hash]; exact hhash b hb)
    obtain ⟨⟨id, t⟩, hv⟩ := htakes.offered r hr k hk
    obtain ⟨r', hr', hk'⟩ := (htakes.consistent.same id k).mpr ⟨t, hv⟩
    have hasked : Asks r' b := asks_of_key hk hk' hrb
    refine ⟨id, ⟨r', hr', hasked⟩, ?_⟩
    rintro id₂ ⟨r₂, hr₂, hasks₂⟩
    obtain ⟨k₂, hk₂⟩ := htakes.consistent.keyed id₂ r₂ hr₂
    have hkeys : k₂ = k :=
      key_of_asks hk₂ hk' hasks₂ hasked (hfinal' id₂ r₂ hr₂) (hfinal' id r' hr')
    rw [hkeys] at hk₂
    exact queued_id_unique htakes.consistent hr₂ hr' hk₂ hk'
  · intro k id t hk hyoung
    have hid := id_mem_waitingIds hk hyoung
    have hkept := (hbyRequest k (id, t)).mpr ⟨hk, hid⟩
    obtain ⟨r, hr, -⟩ := (hinv.same id k).mpr ⟨t, hk⟩
    refine ⟨htakes.keptByRequest k _ hkept, ?_, ?_⟩
    · rw [hr]
      exact htakes.keptById id r ((hbyId id r).mpr ⟨hr, hid⟩)
    · rw [htakes.pending]
      constructor
      · exact fun hmem => (Finset.mem_filter.mp hmem).1
      · exact fun hmem => Finset.mem_filter.mpr ⟨hmem, AssocMap.contains_iff.mpr ⟨_, hkept⟩⟩
  · exact hadded
  · exact htakes.queued
  · exact (htakes.sublist.map _).nodup (id_of_requestsFromBlocks hrequests).2

end Storing

/-! ## Turns -/

section Turns

variable {s s' : BepState}

/-- No id is given out, and no request for a temporary file is queued. -/
structure AddsFinal (s s' : BepState) : Prop where
  requestId : s'.requestId = s.requestId
  final : ∀ id r, s'.outgoingRequests.requestsById.get id = some r →
    s.outgoingRequests.requestsById.get id = some r ∨ r.fromTemporary = false

/-- Two calls that add no temporary request add none. -/
theorem AddsFinal.trans {s'' : BepState} (h : AddsFinal s s') (h' : AddsFinal s' s'') :
    AddsFinal s s'' where
  requestId := h'.requestId.trans h.requestId
  final id r hr := by
    rcases h'.final id r hr with hr | hfinal
    · exact h.final id r hr
    · exact .inr hfinal

/-- Nor does one that leaves the queue. -/
theorem AddsFinal.of_same (hid : s'.requestId = s.requestId)
    (hqueue : s'.outgoingRequests.requestsById = s.outgoingRequests.requestsById) :
    AddsFinal s s' := by
  refine ⟨hid, ?_⟩
  intro id r hr
  rw [hqueue] at hr
  exact .inl hr

/-- An operation on the queue alone. -/
theorem addsFinal_onQueue {α : Type} {x : RustM OutgoingRequests α}
    (h : ∀ id r, (RustM.endState (x.run s.outgoingRequests)).requestsById.get id = some r →
      s.outgoingRequests.requestsById.get id = some r ∨ r.fromTemporary = false) :
    AddsFinal s (RustM.endState ((BepState.onQueue x).run s)) := by
  rw [onQueue_run]
  exact ⟨rfl, h⟩

/-- `insert` adds at most the request it is given. -/
theorem addsFinal_insert {r : Request} (hfinal : r.fromTemporary = false) (now : ℕ) :
    AddsFinal s
      (RustM.endState ((BepState.onQueue (OutgoingRequests.insert r.id r now)).run s)) := by
  apply addsFinal_onQueue
  intro id r' hr'
  cases hk : OutgoingRequest.ofRequest r with
  | error e =>
      rw [insert_of_no_key hk] at hr'
      exact .inl hr'
  | ok k =>
      cases hget : s.outgoingRequests.requestsByRequest.get k with
      | some v =>
          rw [insert_of_queued hk hget] at hr'
          exact .inl hr'
      | none =>
          rw [insert_of_new hk hget] at hr'
          dsimp only [RustM.endState_ok] at hr'
          rw [AssocMap.get_insert] at hr'
          split_ifs at hr'
          · obtain rfl := Option.some.inj hr'
            exact .inr hfinal
          · exact .inl hr'

/-- Requests that are not temporary may be inserted. -/
theorem addsFinal_insertEach {requests : List Request}
    (hfinal : ∀ r ∈ requests, r.fromTemporary = false) (clock : ℕ → ℕ) (n : ℕ) :
    AddsFinal s (RustM.endState ((BepState.insertEach clock n requests).run s)) := by
  induction requests generalizing n s with
  | nil => exact .of_same rfl rfl
  | cons r requests ih =>
      refine RustM.endState_bind_rel AddsFinal AddsFinal.trans
        (addsFinal_insert (hfinal r List.mem_cons_self) (clock n)) fun _ s₁ _ => ?_
      refine RustM.endState_bind_rel AddsFinal AddsFinal.trans
        (ih (fun r' hr' => hfinal r' (List.mem_cons_of_mem r hr')) (n + 1)) fun _ s₂ _ => ?_
      exact .of_same rfl rfl

/-- Also behind the removal of old ones. -/
theorem addsFinal_insertRequests (hinv : Consistent s.outgoingRequests) {requests : List Request}
    (hfinal : ∀ r ∈ requests, r.fromTemporary = false) (clock : ℕ → ℕ) :
    AddsFinal s (RustM.endState ((BepState.insertRequests requests clock).run s)) := by
  refine RustM.endState_bind_rel AddsFinal AddsFinal.trans ?_ fun _ s₁ _ =>
    addsFinal_insertEach hfinal clock 1
  apply addsFinal_onQueue
  intro id r hr
  rw [removeOldRequests_run hinv] at hr
  exact .inl (((get_keepIds _).1 id r).mp hr).1

/-- The ids that were given out: as many as the counter says, and none above it. -/
structure IdsGiven (s : BepState) (given : List Int32) : Prop where
  queue : QueueInStep s
  final : AllFinal s.outgoingRequests
  count : s.requestId.toInt = given.length
  le : ∀ id ∈ given, id.toInt ≤ s.requestId.toInt

/-- A turn that gives out none. -/
theorem IdsGiven.of_addsFinal {given : List Int32} (h : IdsGiven s given) (hqueue : QueueInStep s')
    (hadds : AddsFinal s s') : IdsGiven s' given := by
  refine ⟨hqueue, ?_, ?_, ?_⟩
  · intro id r hr
    rcases hadds.final id r hr with hr | hfinal
    · exact h.final id r hr
    · exact hfinal
  · rw [hadds.requestId]
    exact h.count
  · rw [hadds.requestId]
    exact h.le

/-- Storing requests gives out their ids, also where it panics. -/
theorem idsGiven_storeOutgoingRequests {given : List Int32} (h : IdsGiven s given)
    (blocks : List BlockInfoExt) (clock : ℕ → ℕ) :
    IdsGiven (RustM.endState ((storeOutgoingRequests blocks clock).run s))
      (given ++ match requestsFromBlocks s.requestId blocks with
        | .ok requests => requests.map Request.id
        | .error _ => []) := by
  have hqueue := (queueInStep_storeOutgoingRequests h.queue blocks clock).1
  revert hqueue
  unfold storeOutgoingRequests
  rw [EStateM.run_bind, RustM.run_getThe]
  dsimp only
  cases hrequests : requestsFromBlocks s.requestId blocks with
  | error e =>
      intro _
      rw [EStateM.run_bind, RustM.run_lift_error]
      dsimp only
      rw [List.append_nil]
      exact h
  | ok requests =>
      obtain ⟨hfirst, hrest⟩ := le_foldl_max (requests.map Request.id) s.requestId
      have hnext := foldl_max_of_requestsFromBlocks hrequests
      have hfinal := (asks_of_requestsFromBlocks hrequests).2
      rw [EStateM.run_bind, RustM.run_lift_ok]
      dsimp only
      rw [EStateM.run_bind, fetchAddRequestId_run h.queue.requestId_nonneg hfirst]
      dsimp only
      intro hqueue
      set next := (requests.map Request.id).foldl (fun m i => if i < m then m else i) s.requestId
      have hadds := @addsFinal_insertRequests { s with requestId := next } h.queue.consistent
        requests hfinal clock
      refine ⟨hqueue, ?_, ?_, ?_⟩
      · intro id r hr
        rcases hadds.final id r hr with hr | hr
        · exact h.final id r hr
        · exact hr
      · rw [hadds.requestId, List.length_append, List.length_map]
        push_cast
        rw [← h.count]
        exact hnext
      · intro id hid
        rw [hadds.requestId]
        rcases List.mem_append.mp hid with hid | hid
        · exact (h.le id hid).trans hfirst
        · exact hrest id hid

variable {hash : String → ℕ → ℕ → UInt64} {sha256 : Bytes → Bytes}
  {debugRequest : Request → String} {p : BepProcessor}

/-- A turn of the handler of a response. -/
theorem addsFinal_response (h : ResponseHandler) (outcome : TurnOutcome) :
    AddsFinal p.state (h.act hash sha256 debugRequest p outcome).2.state := by
  rw [(act_state h p outcome).1]
  unfold stateAfter
  cases hpc : h.pc with
  | updateState request fileSize blockSize =>
      dsimp only
      rcases updateBlockStorageState_run h.response.id p.config.localDeviceId p.state with
        ⟨e, hrun⟩ | ⟨r, status, -, hrun⟩
      · rw [hrun]
        exact .of_same rfl rfl
      · rw [hrun]
        exact .of_same rfl rfl
  | updateLocations request locations =>
      have hrows := updateFileLocations_rows request.folder p.config.localDeviceId request.name
        locations p.state
      exact .of_same hrows.requestId (by rw [hrows.queue])
  | removeRequest stored =>
      apply addsFinal_onQueue
      intro id r hr
      rw [remove_requestsById, AssocMap.get_erase] at hr
      split_ifs at hr
      exact .inl hr
  | removeLocations request => exact .of_same rfl rfl
  | getRequest | fileInfo request | createDir request fileSize blockSize
  | openWriter request fileSize blockSize | writeChunk request fileSize blockSize offset pc
  | concludeWriter request fileSize blockSize | consolidate request pc
  | copy request n backends copied | removeFile request | returned result | panicked fault =>
      exact .of_same rfl rfl

/-- The loop adds none. -/
theorem addsFinal_connection (maxPending maxStorageArea : ℕ) :
    AddsFinal p.state (RustM.endState
      ((BepProcessor.throttledRequests maxPending maxStorageArea).run p)).state := by
  rw [BepProcessor.throttledRequests, BepProcessor.onState_run]
  apply addsFinal_onQueue
  intro id r hr
  rw [(updatePendingRequests_maps _ _ _).1] at hr
  exact .inl hr

variable {ι : Type} [DecidableEq ι]

/-- Every turn of every task keeps the account of the ids. -/
theorem idsGiven_step {s s' : Processes ι ServerTask BepProcessor} {t : Turn ι TurnOutcome}
    {given : List Int32} (h : IdsGiven s.shared.state given)
    (hstep : Processes.step (ServerTask.act hash sha256 debugRequest) s t = some s') :
    IdsGiven s'.shared.state (given ++ handedOut s t) := by
  have hshared : s'.shared = (ServerTask.act hash sha256 debugRequest t.outcome
      (s.process t.process) s.shared).2 := congrArg Prod.snd (Processes.step_self hstep)
  have hqueue := (@queueInStep_act hash sha256 debugRequest s.shared h.queue
    (s.process t.process) t.outcome).1
  rw [← hshared] at hqueue
  unfold handedOut
  cases hprocess : s.process t.process with
  | index handler =>
      rw [hprocess] at hshared
      have hshared : s'.shared = (handler.act s.shared).2 := hshared
      dsimp only
      cases hpc : handler.pc with
      | enqueue blocks =>
          rw [hshared, (act_enqueue s.shared hpc).1]
          exact idsGiven_storeOutgoingRequests h blocks handler.clock
      | writeIndices =>
          rw [List.append_nil]
          refine h.of_addsFinal hqueue ?_
          rw [hshared, (act_writeIndices s.shared hpc).1]
          have hwrites := writeIndices_writes s.shared.state s.shared.config.localDeviceId handler
          exact .of_same hwrites.requestId (by rw [hwrites.queue])
      | returned | panicked e =>
          rw [List.append_nil]
          refine h.of_addsFinal hqueue ?_
          rw [hshared]
          unfold IndexHandler.act
          rw [hpc]
          exact .of_same rfl rfl
  | response handler =>
      rw [hprocess] at hshared
      have hshared : s'.shared = (handler.act hash sha256 debugRequest s.shared t.outcome).2 :=
        hshared
      rw [List.append_nil]
      refine h.of_addsFinal hqueue ?_
      rw [hshared]
      exact addsFinal_response handler t.outcome
  | connection maxPending maxStorageArea =>
      rw [hprocess] at hshared
      have hshared : s'.shared = RustM.endState
          ((BepProcessor.throttledRequests maxPending maxStorageArea).run s.shared) := hshared
      rw [List.append_nil]
      refine h.of_addsFinal hqueue ?_
      rw [hshared]
      exact addsFinal_connection maxPending maxStorageArea

/-- After any turns the counter is the number of ids that were given out. -/
theorem idsGiven_of_run {db : Database} {p₀ : BepProcessor} (hstart : p₀.state = .new db)
    {tasks : ι → ServerTask} {turns : List (Turn ι TurnOutcome)}
    {s : Processes ι ServerTask BepProcessor}
    (hrun : Transition.run (Processes.step (ServerTask.act hash sha256 debugRequest))
      ⟨p₀, tasks⟩ turns = some s) :
    IdsGiven s.shared.state (Transition.collect
      (Processes.step (ServerTask.act hash sha256 debugRequest)) handedOut ⟨p₀, tasks⟩ turns) := by
  refine Transition.run_induction (motive := fun turns (s : Processes ι ServerTask BepProcessor) =>
    IdsGiven s.shared.state (Transition.collect
      (Processes.step (ServerTask.act hash sha256 debugRequest)) handedOut ⟨p₀, tasks⟩ turns))
    ?_ ?_ hrun
  · show IdsGiven p₀.state []
    rw [hstart]
    refine ⟨queueInStep_new db, ?_, rfl, ?_⟩
    · intro id r hr
      simp [BepState.new, OutgoingRequests.default] at hr
    · intro id hid
      cases hid
  · intro turns s t s' hturns ih hstep
    rw [Transition.collect_concat hturns hstep]
    exact idsGiven_step ih hstep

end Turns

/-! ## Runs -/

/-- **New requests have new ids.** After any turns of any tasks on a server that has just started,
with fewer than `2 ^ 31` ids given out together with those for a list of blocks: storing requests
for the blocks returns, every block has one request then, those of the queue that are not too old
stay as they are, and the inserted ones have ids above all that were given out. -/
theorem enqueuesEach_of_run {ι : Type} [DecidableEq ι] {hash : String → ℕ → ℕ → UInt64}
    {sha256 : Bytes → Bytes} {debugRequest : Request → String} {db : Database} {p₀ : BepProcessor}
    (hstart : p₀.state = .new db) {tasks : ι → ServerTask} {turns : List (Turn ι TurnOutcome)}
    {s : Processes ι ServerTask BepProcessor}
    (hturns : Transition.run (Processes.step (ServerTask.act hash sha256 debugRequest))
      ⟨p₀, tasks⟩ turns = some s)
    {blocks : List BlockInfoExt} (hhash : ∀ b ∈ blocks, b.hash.length = 32)
    (hleft : (Transition.collect (Processes.step (ServerTask.act hash sha256 debugRequest))
      handedOut ⟨p₀, tasks⟩ turns).length + blocks.length < 2 ^ 31) (clock : ℕ → ℕ) :
    ∃ inserted s', (storeOutgoingRequests blocks clock).run s.shared.state = .ok inserted s' ∧
      EnqueuesEach blocks (clock 0) inserted s.shared.state.outgoingRequests
        s'.outgoingRequests ∧
      ∀ id ∈ Transition.collect (Processes.step (ServerTask.act hash sha256 debugRequest))
        handedOut ⟨p₀, tasks⟩ turns, ∀ r ∈ inserted, id < r.id := by
  have hgiven := idsGiven_of_run hstart hturns
  have hcount := hgiven.count
  obtain ⟨requests, inserted, q', hrequests, hrun, htakes⟩ :=
    storeOutgoingRequests_run hgiven.queue hhash (by omega) clock
  refine ⟨inserted, _, hrun, ?_, ?_⟩
  · exact enqueuesEach_of_takes hgiven.queue.consistent hgiven.final hhash hrequests htakes
  · intro id hid r hr
    rw [Int32.lt_iff_toInt_lt]
    exact (hgiven.le id hid).trans_lt
      ((id_of_requestsFromBlocks hrequests).1 r (htakes.sublist.subset hr))

/-- An index is handled, and an update offers one more file. -/
theorem enqueuesEach_of_run_sized :
    ∃ s inserted s', Transition.run
        (Processes.step (ServerTask.act (fun _ _ _ => 0) pairHash fun _ => ""))
        ⟨startedServer, sizedTasks⟩ (sizedTurns.take 4) = some s ∧
      (storeOutgoingRequests (s.shared.state.blocksInfo serverDevice .notStored) fun _ => 0).run
        s.shared.state = .ok inserted s' ∧
      EnqueuesEach (s.shared.state.blocksInfo serverDevice .notStored) 0 inserted
        s.shared.state.outgoingRequests s'.outgoingRequests ∧
      ∀ id ∈ Transition.collect
        (Processes.step (ServerTask.act (fun _ _ _ => 0) pairHash fun _ => ""))
        handedOut ⟨startedServer, sizedTasks⟩ (sizedTurns.take 4), ∀ r ∈ inserted, id < r.id := by
  have hblocks : ((Transition.run
      (Processes.step (ServerTask.act (fun _ _ _ => 0) pairHash fun _ => ""))
      ⟨startedServer, sizedTasks⟩ (sizedTurns.take 4)).map fun s =>
        (s.shared.state.blocksInfo serverDevice .notStored).map fun b => b.hash.length) =
      some [32, 32] := by
    decide +kernel
  have hids : (Transition.collect
      (Processes.step (ServerTask.act (fun _ _ _ => 0) pairHash fun _ => ""))
      handedOut ⟨startedServer, sizedTasks⟩ (sizedTurns.take 4)).length = 1 := by
    decide +kernel
  obtain ⟨s, hrun, hlengths⟩ := Option.map_eq_some_iff.mp hblocks
  have hcount := congrArg List.length hlengths
  rw [List.length_map] at hcount
  have hhash : ∀ b ∈ s.shared.state.blocksInfo serverDevice .notStored, b.hash.length = 32 := by
    intro b hb
    have hmem : b.hash.length ∈ [32, 32] := by
      rw [← hlengths]
      exact List.mem_map_of_mem hb
    simpa using hmem
  obtain ⟨inserted, s', hstored, hrest⟩ := enqueuesEach_of_run rfl hrun hhash
    (by
      rw [hids, hcount]
      decide)
    fun _ => 0
  exact ⟨s, inserted, s', hrun, hstored, hrest⟩

end Grizol.Analysis
