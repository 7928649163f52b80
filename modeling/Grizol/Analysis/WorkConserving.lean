import Grizol.Analysis.RequestSlots

/-!
# Where the throttling holds requests back

`update_pending_requests` stops at the first entry for which there is no room, also when that
entry is pending already and needs none. A request that could be sent then waits behind it.
-/

set_option autoImplicit false

namespace Grizol.Analysis

open Grizol.Library
open Grizol.Model Grizol.Model.Syncthing Grizol.Interface

variable {maxPending maxStorageArea : ℕ} {s s' : OutgoingRequests}

/-! ## Lists of requests with room -/

/-- There is room for each of the requests next to those before it. -/
theorem hasRoom_of_roomForEach {before rest : List OutgoingRequest} {k : OutgoingRequest}
    {taken : Finset OutgoingRequest}
    (h : RoomForEach maxPending maxStorageArea taken (before ++ k :: rest)) :
    HasRoom maxPending maxStorageArea (taken ∪ before.toFinset) k := by
  induction before generalizing taken with
  | nil => simpa using h.1
  | cons e before ih =>
      rw [List.toFinset_cons, Finset.union_insert, ← Finset.insert_union]
      exact ih h.2

/-- There is only one place where the room ends first. -/
theorem roomForEach_unique {before before' rest rest' : List OutgoingRequest}
    {k : OutgoingRequest} {taken : Finset OutgoingRequest}
    (heq : before ++ rest = before' ++ k :: rest')
    (hroom : RoomForEach maxPending maxStorageArea taken before)
    (hfull : ∀ k later, rest = k :: later →
      ¬ HasRoom maxPending maxStorageArea (taken ∪ before.toFinset) k)
    (hroom' : RoomForEach maxPending maxStorageArea taken before')
    (hfull' : ¬ HasRoom maxPending maxStorageArea (taken ∪ before'.toFinset) k) :
    before = before' ∧ rest = k :: rest' := by
  rcases List.append_eq_append_iff.mp heq with ⟨middle, hbefore, hrest⟩ | ⟨middle, hbefore, hrest⟩
  · cases middle with
    | nil =>
        rw [List.append_nil] at hbefore
        exact ⟨hbefore.symm, hrest⟩
    | cons e middle =>
        rw [hbefore] at hroom'
        exact absurd (hasRoom_of_roomForEach hroom') (hfull e _ hrest)
  · cases middle with
    | nil =>
        rw [List.append_nil] at hbefore
        exact ⟨hbefore, hrest.symm⟩
    | cons e middle =>
        obtain ⟨rfl, -⟩ := List.cons.inj hrest
        rw [hbefore] at hroom
        exact absurd (hasRoom_of_roomForEach hroom) hfull'

/-- The pending requests are as many as may be, or too large or of too many files for one
more. -/
theorem not_hasRoom_iff (hinv : Consistent s) (hle : s.pendingRequests.card ≤ maxPending)
    {k : OutgoingRequest} :
    ¬ HasRoom maxPending maxStorageArea s.pendingRequests k ↔
      s.pendingRequests.card = maxPending ∨
      maxStorageArea < s.requestedSize + asUsize k.size ∨
      (k.name ∉ s.pendingRequests.image OutgoingRequest.name ∧
        10 ≤ (s.pendingRequests.image OutgoingRequest.name).card) := by
  rw [hinv.requestedSize_eq]
  constructor
  · intro hfull
    by_contra hnot
    simp only [not_or, not_and, not_le, not_lt] at hnot
    obtain ⟨hslot, hstorage, hfile⟩ := hnot
    exact hfull ⟨by omega, hstorage, or_iff_not_imp_left.mpr hfile⟩
  · rintro hreason ⟨hslot, hstorage, hfile⟩
    rcases hreason with hreason | hreason | ⟨hname, hreason⟩
    · omega
    · omega
    · rcases hfile with hfile | hfile
      · exact hname hfile
      · omega

/-! ## The loop -/

/-- What the loop leaves behind: it went through a part of the entries, for each of which there
was room, and stopped where there was none. -/
structure StoppedAt (maxPending maxStorageArea : ℕ) (s s' : OutgoingRequests)
    (before rest : List OutgoingRequest) : Prop where
  requestsByRequest : s'.requestsByRequest = s.requestsByRequest
  pendingRequests : s'.pendingRequests = s.pendingRequests ∪ before.toFinset
  consistent : Consistent s'
  pending_le : s'.pendingRequests.card ≤ maxPending
  room : RoomForEach maxPending maxStorageArea s.pendingRequests before
  full : ∀ k later, rest = k :: later →
    ¬ HasRoom maxPending maxStorageArea s'.pendingRequests k

/-- A loop that stops at once. -/
theorem stoppedAt_nil (hinv : Consistent s) (hle : s.pendingRequests.card ≤ maxPending)
    {rest : List OutgoingRequest}
    (hfull : ∀ k later, rest = k :: later →
      ¬ HasRoom maxPending maxStorageArea s.pendingRequests k) :
    StoppedAt maxPending maxStorageArea s s [] rest where
  requestsByRequest := rfl
  pendingRequests := by simp
  consistent := hinv
  pending_le := hle
  room := trivial
  full := hfull

/-- A request that is pending, or is marked as sent, and then the rest of the loop. -/
theorem stoppedAt_cons {s₁ : OutgoingRequests} {k : OutgoingRequest}
    {before rest : List OutgoingRequest}
    (hmap : s₁.requestsByRequest = s.requestsByRequest)
    (hpending : s₁.pendingRequests = insert k s.pendingRequests)
    (hroom : HasRoom maxPending maxStorageArea s.pendingRequests k)
    (h : StoppedAt maxPending maxStorageArea s₁ s' before rest) :
    StoppedAt maxPending maxStorageArea s s' (k :: before) rest where
  requestsByRequest := h.requestsByRequest.trans hmap
  pendingRequests := by
    rw [h.pendingRequests, hpending, List.toFinset_cons, Finset.union_insert,
      Finset.insert_union]
  consistent := h.consistent
  pending_le := h.pending_le
  room := ⟨hroom, hpending ▸ h.room⟩
  full := h.full

/-- The loop goes through the entries as long as there is room for them. The induction is on
the entries still to come; the slots that are left and the names are those of the pending
requests. -/
theorem updateLoop_stops {freeSlots : ℕ} {entries : List (OutgoingRequest × Int32 × ℕ)}
    {processed requests : List Request} (hinv : Consistent s)
    (hentries : ∀ e ∈ entries, s.requestsByRequest.get e.1 = some e.2)
    (hslots : s.pendingRequests.card + freeSlots = maxPending + processed.length)
    (hle : processed.length ≤ freeSlots)
    (hrun : (OutgoingRequests.updateLoop freeSlots maxStorageArea entries processed
      (s.pendingRequests.image OutgoingRequest.name)).run s = .ok requests s') :
    ∃ before rest, entries.map Prod.fst = before ++ rest ∧
      StoppedAt maxPending maxStorageArea s s' before rest := by
  induction entries generalizing s processed with
  | nil =>
      obtain ⟨-, rfl⟩ := EStateM.Result.ok.inj hrun
      refine ⟨[], [], rfl, stoppedAt_nil hinv (by omega) ?_⟩
      intro k later h
      cases h
  | cons entry entries ih =>
      obtain ⟨k, id, t⟩ := entry
      have hk : s.requestsByRequest.get k = some (id, t) := hentries _ List.mem_cons_self
      obtain ⟨r, hr, -⟩ := (hinv.same id k).mpr ⟨t, hk⟩
      have hpendingLe : s.pendingRequests.card ≤ maxPending := by omega
      have hstop : ¬ HasRoom maxPending maxStorageArea s.pendingRequests k → s' = s →
          ∃ before rest, ((k, id, t) :: entries).map Prod.fst = before ++ rest ∧
            StoppedAt maxPending maxStorageArea s s' before rest := by
        rintro hfull rfl
        refine ⟨[], k :: entries.map Prod.fst, rfl, stoppedAt_nil hinv hpendingLe ?_⟩
        intro k' later heq
        obtain ⟨rfl, -⟩ := List.cons.inj heq
        exact hfull
      by_cases hsize : s.requestedSize + asUsize k.size < 2 ^ 64
      · rw [updateLoop_cons_run freeSlots maxStorageArea k id t entries processed _ s hsize hr]
          at hrun
        split_ifs at hrun with hnames hfree hstorage hpending
        · refine hstop ?_ (EStateM.Result.ok.inj hrun).2.symm
          exact (not_hasRoom_iff hinv hpendingLe).mpr (.inr (.inr ⟨hnames.2, hnames.1⟩))
        · refine hstop ?_ (EStateM.Result.ok.inj hrun).2.symm
          exact (not_hasRoom_iff hinv hpendingLe).mpr (.inl (by omega))
        · refine hstop ?_ (EStateM.Result.ok.inj hrun).2.symm
          exact (not_hasRoom_iff hinv hpendingLe).mpr (.inr (.inl hstorage))
        · -- a pending entry is passed over
          have hroom : HasRoom maxPending maxStorageArea s.pendingRequests k := by
            refine ⟨by omega, ?_, .inl (Finset.mem_image_of_mem _ hpending)⟩
            rw [← hinv.requestedSize_eq]
            exact not_lt.mp hstorage
          obtain ⟨before, rest, hsplit, hstopped⟩ := ih hinv
            (fun e he => hentries e (List.mem_cons_of_mem _ he)) hslots hle hrun
          refine ⟨k :: before, rest, ?_, stoppedAt_cons rfl ?_ hroom hstopped⟩
          · rw [List.map_cons, hsplit, List.cons_append]
          · exact (Finset.insert_eq_of_mem hpending).symm
        · -- the request is sent
          have hroom : HasRoom maxPending maxStorageArea s.pendingRequests k := by
            refine ⟨by omega, ?_, ?_⟩
            · rw [← hinv.requestedSize_eq]
              exact not_lt.mp hstorage
            · by_contra hnot
              rw [not_or, not_lt] at hnot
              exact hnames ⟨hnot.2, hnot.1⟩
          have hmark : (markSent s [k]).pendingRequests = insert k s.pendingRequests := by
            simp [markSent, Finset.union_singleton]
          have hmarkSize : (markSent s [k]).requestedSize =
              s.requestedSize + asUsize k.size := by
            simp [markSent]
          have hinv₁ : Consistent (markSent s [k]) :=
            consistent_markSent hinv (by simpa using ⟨id, t, hk⟩) (List.nodup_singleton k)
              (by simpa using hpending) (by omega)
          have hcard : (markSent s [k]).pendingRequests.card = s.pendingRequests.card + 1 := by
            rw [hmark, Finset.card_insert_of_notMem hpending]
          rw [← Finset.image_insert, ← hmark] at hrun
          obtain ⟨before, rest, hsplit, hstopped⟩ := ih hinv₁
            (fun e he => hentries e (List.mem_cons_of_mem _ he))
            (by rw [List.length_append, List.length_singleton]; omega)
            (by rw [List.length_append, List.length_singleton]; omega) hrun
          have hmap : (markSent s [k]).requestsByRequest = s.requestsByRequest := rfl
          refine ⟨k :: before, rest, ?_, stoppedAt_cons hmap hmark hroom hstopped⟩
          rw [List.map_cons, hsplit, List.cons_append]
      · -- the sum does not fit, so the loop returns only where it stops before it is taken
        have hadd : Rust.add 64 s.requestedSize (asUsize k.size) = .error .overflow := if_neg hsize
        rw [OutgoingRequests.updateLoop] at hrun
        split_ifs at hrun with hnames hfree
        · refine hstop ?_ (EStateM.Result.ok.inj hrun).2.symm
          exact (not_hasRoom_iff hinv hpendingLe).mpr (.inr (.inr ⟨hnames.2, hnames.1⟩))
        · refine hstop ?_ (EStateM.Result.ok.inj hrun).2.symm
          exact (not_hasRoom_iff hinv hpendingLe).mpr (.inl (by omega))
        · simp [EStateM.run_bind, hadd] at hrun

/-! ## Sending -/

/-- The keys in their order are different. -/
theorem nodup_queuedKeys (s : OutgoingRequests) : (queuedKeys s).Nodup := by
  have hperm := (List.perm_insertionSort
    (fun a b : OutgoingRequest × Int32 × ℕ => (compare a.1 b.1).isLE = true)
    s.requestsByRequest.entries).map Prod.fst
  exact hperm.nodup_iff.mpr s.requestsByRequest.nodup

/-- `update_pending_requests` sends what there is room for. -/
theorem updatePendingRequests_stops (hinv : Consistent s) {requests : List Request}
    (hrun : (OutgoingRequests.updatePendingRequests maxPending maxStorageArea).run s =
      .ok requests s') :
    ∃ before rest, queuedKeys s = before ++ rest ∧
      StoppedAt maxPending maxStorageArea s s' before rest := by
  rw [OutgoingRequests.updatePendingRequests, EStateM.run_bind, RustM.run_getThe] at hrun
  dsimp only at hrun
  by_cases hle : s.pendingRequests.card ≤ maxPending
  · rw [EStateM.run_bind, Rust.sub_of_le hle, RustM.run_lift_ok] at hrun
    exact updateLoop_stops hinv (fun e he => mem_inKeyOrder.mp he)
      (by rw [List.length_nil]; omega) (Nat.zero_le _) hrun
  · have hsub : Rust.sub maxPending s.pendingRequests.card = .error .overflow := if_neg hle
    rw [EStateM.run_bind, hsub, RustM.run_lift_error] at hrun
    cases hrun

/-- What is pending afterwards and was not before was sent. -/
theorem not_mem_before {before rest : List OutgoingRequest} {k : OutgoingRequest}
    (hsplit : queuedKeys s = before ++ rest) (hk : k ∈ rest) : k ∉ before := by
  have hnodup := nodup_queuedKeys s
  rw [hsplit] at hnodup
  intro hmem
  exact (List.disjoint_of_nodup_append hnodup) hmem hk

/-- The requests that can be sent all are, exactly if none of them stands behind a pending
one that would not fit. -/
theorem workConserving_iff_of_stoppedAt {before rest : List OutgoingRequest}
    (hsplit : queuedKeys s = before ++ rest)
    (h : StoppedAt maxPending maxStorageArea s s' before rest) :
    WorkConserving maxPending maxStorageArea s' ↔ NeverBlocked maxPending maxStorageArea s := by
  have hkeys : queuedKeys s' = queuedKeys s := by
    rw [queuedKeys, h.requestsByRequest]
    rfl
  have hpending : ∀ k ∈ rest, k ∈ s'.pendingRequests → k ∈ s.pendingRequests := by
    intro k hk hmem
    rw [h.pendingRequests, Finset.mem_union, List.mem_toFinset] at hmem
    exact hmem.resolve_right (not_mem_before hsplit hk)
  have hbefore : ∀ k ∈ before, k ∈ s'.pendingRequests := by
    intro k hk
    rw [h.pendingRequests]
    exact Finset.mem_union_right _ (List.mem_toFinset.mpr hk)
  have holder : ∀ k ∈ s.pendingRequests, k ∈ s'.pendingRequests := by
    intro k hk
    rw [h.pendingRequests]
    exact Finset.mem_union_left _ hk
  constructor
  · intro hconserving before' k between w rest' hsplit' hroom hfull hk hbetween hw
    -- the loop stopped at `k`
    have hstop : before = before' ∧ rest = k :: (between ++ w :: rest') := by
      refine roomForEach_unique (hsplit.symm.trans hsplit') h.room ?_ hroom hfull
      rw [← h.pendingRequests]
      exact h.full
    obtain ⟨rfl, rfl⟩ := hstop
    rw [← h.pendingRequests]
    apply (not_hasRoom_iff h.consistent h.pending_le).mpr
    apply hconserving (before ++ k :: between) w rest'
    · rw [hkeys, hsplit, List.append_assoc, List.cons_append]
    · intro e he
      rcases List.mem_append.mp he with he | he
      · exact hbefore e he
      rcases List.mem_cons.mp he with rfl | he
      · exact holder _ hk
      · exact holder e (hbetween e he)
    · intro hmem
      exact hw (hpending w (by simp) hmem)
  · intro hblocked before' w rest' hsplit' hbefore' hw
    apply (not_hasRoom_iff h.consistent h.pending_le).mp
    rw [hkeys, hsplit] at hsplit'
    rcases List.append_eq_append_iff.mp hsplit' with ⟨middle, hsplit₁, hrest⟩ | ⟨middle, hsplit₁, hrest⟩
    · cases middle with
      | nil => exact h.full w rest' hrest
      | cons k between =>
          -- the loop stopped at `k`, which was pending
          have hmem : ∀ e ∈ k :: between, e ∈ s.pendingRequests := by
            intro e he
            apply hpending e
            · rw [hrest]
              exact List.mem_append_left _ he
            · apply hbefore' e
              rw [hsplit₁]
              exact List.mem_append_right _ he
          have hfull := h.full k _ hrest
          rw [h.pendingRequests] at hfull ⊢
          apply hblocked before k between w rest' _ h.room hfull (hmem k List.mem_cons_self)
            fun e he => hmem e (List.mem_cons_of_mem _ he)
          · intro hpendingw
            exact hw (holder w hpendingw)
          · rw [hsplit, hrest]
            rfl
    · -- what the loop went through is pending
      cases middle with
      | nil => exact h.full w rest' hrest.symm
      | cons e middle =>
          obtain ⟨rfl, -⟩ := List.cons.inj hrest
          refine absurd (hbefore w ?_) hw
          rw [hsplit₁]
          exact List.mem_append_right _ List.mem_cons_self

/-- With nothing pending and a slot, something is sent if every request fits by itself. -/
theorem sends_of_nothing_pending (hinv : Consistent s) {requests : List Request}
    (hrun : (OutgoingRequests.updatePendingRequests maxPending maxStorageArea).run s =
      .ok requests s')
    (hnothing : s.pendingRequests = ∅) (hslot : 0 < maxPending)
    (hfits : ∀ k ∈ queuedKeys s, asUsize k.size ≤ maxStorageArea) (hqueued : queuedKeys s ≠ []) :
    requests ≠ [] := by
  obtain ⟨before, rest, hsplit, hstopped⟩ := updatePendingRequests_stops hinv hrun
  obtain ⟨k, hk⟩ : ∃ k, k ∈ before := by
    cases before with
    | cons k before => exact ⟨k, List.mem_cons_self⟩
    | nil =>
        rw [List.nil_append] at hsplit
        obtain ⟨k, later, hrest⟩ := List.exists_cons_of_ne_nil hqueued
        refine absurd ?_ (hstopped.full k later (hsplit.symm.trans hrest))
        rw [hstopped.pendingRequests, hnothing]
        refine ⟨hslot, ?_, .inr (by simp)⟩
        simpa using hfits k (by simp [hrest])
  rintro rfl
  obtain ⟨sent, hend, -, hsent⟩ := updatePendingRequests_sent hinv maxPending maxStorageArea
  have hnone : sent.map Prod.snd = [] := (hsent _ _ hrun).symm
  rw [hrun, RustM.endState_ok, List.map_eq_nil_iff.mp hnone, List.map_nil, markSent_nil] at hend
  have hmem : k ∈ s'.pendingRequests := by
    rw [hstopped.pendingRequests]
    exact Finset.mem_union_right _ (List.mem_toFinset.mpr hk)
  rw [hend, hnothing] at hmem
  exact Finset.notMem_empty k hmem

/-! ## Runs -/

/-- **Nothing is held back without need, unless it stands behind a pending request.** After any
turns of any tasks on a server that has just started, for any limits: where
`update_pending_requests` returns, the first request that is still waiting could not have been
sent, exactly if none that could waits behind a pending one for which there would be no room.
From a queue of which nothing is pending something is sent if it fits. -/
theorem workConserving_iff_of_run {ι : Type} [DecidableEq ι] {hash : String → ℕ → ℕ → UInt64}
    {sha256 : Bytes → Bytes} {debugRequest : Request → String} {db : Database} {p₀ : BepProcessor}
    (hstart : p₀.state = .new db) {tasks : ι → ServerTask} {turns : List (Turn ι TurnOutcome)}
    {s : Processes ι ServerTask BepProcessor}
    (hturns : Transition.run (Processes.step (ServerTask.act hash sha256 debugRequest))
      ⟨p₀, tasks⟩ turns = some s)
    {maxPending maxStorageArea : ℕ} {requests : List Request} {q' : OutgoingRequests}
    (hrun : (OutgoingRequests.updatePendingRequests maxPending maxStorageArea).run
      s.shared.state.outgoingRequests = .ok requests q') :
    (WorkConserving maxPending maxStorageArea q' ↔
      NeverBlocked maxPending maxStorageArea s.shared.state.outgoingRequests) ∧
    (s.shared.state.outgoingRequests.pendingRequests = ∅ → 0 < maxPending →
      (∀ k ∈ queuedKeys s.shared.state.outgoingRequests, asUsize k.size ≤ maxStorageArea) →
      queuedKeys s.shared.state.outgoingRequests ≠ [] → requests ≠ []) := by
  have hinv := (queueInStep_of_run hstart hturns).consistent
  obtain ⟨before, rest, hsplit, hstopped⟩ := updatePendingRequests_stops hinv hrun
  exact ⟨workConserving_iff_of_stoppedAt hsplit hstopped, sends_of_nothing_pending hinv hrun⟩

/-! ## A request that is held back -/

section Example

/-- A file of one block. -/
def fileOfSize (name : String) (size : Int32) : FileInfo :=
  { name := name, size := size.toInt64, blockSize := size, version := some ⟨[⟨1, 1⟩]⟩,
    blocks := [⟨0, size, pairHash [1], 0⟩] }

/-- The key of the request for its block. -/
def requestOfSize (name : String) (size : Int32) : OutgoingRequest :=
  { firstRequest with name := name, size := size }

/-- A file of 10 bytes, whose block is requested, and then one of 5. -/
def sizedTasks : Fin 3 → ServerTask
  | 0 => .index (.new (.index ⟨"default", [fileOfSize "a" 10]⟩) clientDevice fun _ => 0)
  | 1 => .connection 2 15
  | 2 => .index (.new (.indexUpdate ⟨"default", [fileOfSize "b" 5]⟩) clientDevice fun _ => 0)

/-- Two turns of the first handler, one of the loop, and two of the second handler. -/
def sizedTurns : List (Turn (Fin 3) TurnOutcome) :=
  ([0, 0, 1, 2, 2] : List (Fin 3)).map (⟨·, ⟨.ok, .exits true⟩⟩)

/-- The queue after the turns and one more call. -/
def sizedQueue (maxPending maxStorageArea : ℕ) : Option OutgoingRequests :=
  (Transition.run (Processes.step (ServerTask.act (fun _ _ _ => 0) pairHash fun _ => ""))
    ⟨startedServer, sizedTasks⟩ sizedTurns).bind fun s =>
      match (OutgoingRequests.updatePendingRequests maxPending maxStorageArea).run
        s.shared.state.outgoingRequests with
      | .ok _ q' => some q'
      | .error _ _ => none

/-- There is such a queue where the call returns. -/
theorem run_of_sizedQueue {maxPending maxStorageArea : ℕ} {q' : OutgoingRequests}
    (h : sizedQueue maxPending maxStorageArea = some q') :
    ∃ s requests, Transition.run
        (Processes.step (ServerTask.act (fun _ _ _ => 0) pairHash fun _ => ""))
        ⟨startedServer, sizedTasks⟩ sizedTurns = some s ∧
      (OutgoingRequests.updatePendingRequests maxPending maxStorageArea).run
        s.shared.state.outgoingRequests = .ok requests q' := by
  obtain ⟨s, hrun, h⟩ := Option.bind_eq_some_iff.mp h
  refine ⟨s, ?_⟩
  split at h
  · rename_i requests q hupdate
    obtain rfl := Option.some.inj h
    exact ⟨requests, hrun, hupdate⟩
  · cases h

/-- Witness: a pending request and a smaller one behind it. -/
theorem workConserving_iff_of_run_sized :
    ∃ s requests q', Transition.run
        (Processes.step (ServerTask.act (fun _ _ _ => 0) pairHash fun _ => ""))
        ⟨startedServer, sizedTasks⟩ sizedTurns = some s ∧
      (OutgoingRequests.updatePendingRequests 2 20).run s.shared.state.outgoingRequests =
        .ok requests q' ∧
      (WorkConserving 2 20 q' ↔ NeverBlocked 2 20 s.shared.state.outgoingRequests) ∧
      (s.shared.state.outgoingRequests.pendingRequests = ∅ → 0 < 2 →
        (∀ k ∈ queuedKeys s.shared.state.outgoingRequests, asUsize k.size ≤ 20) →
        queuedKeys s.shared.state.outgoingRequests ≠ [] → requests ≠ []) := by
  obtain ⟨q', hq'⟩ : ∃ q', sizedQueue 2 20 = some q' :=
    Option.isSome_iff_exists.mp (by decide +kernel)
  obtain ⟨s, requests, hturns, hrun⟩ := run_of_sizedQueue hq'
  exact ⟨s, requests, q', hturns, hrun, workConserving_iff_of_run rfl hturns hrun⟩

/-- With 15 bytes at most, the pending request for 10 would not fit once more, and the one for 5
stays behind it. -/
theorem waiting_behind_pending :
    ∃ s requests q', Transition.run
        (Processes.step (ServerTask.act (fun _ _ _ => 0) pairHash fun _ => ""))
        ⟨startedServer, sizedTasks⟩ sizedTurns = some s ∧
      (OutgoingRequests.updatePendingRequests 2 15).run s.shared.state.outgoingRequests =
        .ok requests q' ∧
      ¬ WorkConserving 2 15 q' := by
  have hqueue : (sizedQueue 2 15).map (fun q => (queuedKeys q, q.pendingRequests,
      q.requestedSize)) =
      some ([requestOfSize "a" 10, requestOfSize "b" 5], {requestOfSize "a" 10}, 10) := by
    decide +kernel
  obtain ⟨q', hq', hvalues⟩ := Option.map_eq_some_iff.mp hqueue
  obtain ⟨hkeys, hpending, hsize⟩ := Prod.mk.inj hvalues |>.imp_right Prod.mk.inj
  obtain ⟨s, requests, hturns, hrun⟩ := run_of_sizedQueue hq'
  refine ⟨s, requests, q', hturns, hrun, ?_⟩
  intro hconserving
  have hreason := hconserving [requestOfSize "a" 10] (requestOfSize "b" 5) [] hkeys
    (by simp [hpending]) (by rw [hpending]; decide)
  rw [hpending, hsize] at hreason
  revert hreason
  decide

end Example

end Grizol.Analysis
