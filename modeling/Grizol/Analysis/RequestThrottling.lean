import Mathlib.Data.List.Count
import Grizol.Analysis.RequestQueueInvariant

/-!
# The throttling of outgoing requests

At every moment of a run the pending requests are within the limits, and while a
request is queued it is handed out for sending at most once: from the moment it is
sent it stays pending until it is removed.
-/

set_option autoImplicit false

namespace Grizol.Analysis

open Grizol.Library Grizol.Interface
open Grizol.Model Grizol.Model.Syncthing

variable {maxPending maxStorageArea : ℕ} {s s' : OutgoingRequests}

/-- What one more event sends comes last. -/
theorem sentIn_concat {s₁ : OutgoingRequests} {es : List RequestEvent} {e : RequestEvent}
    (h : Transition.run (queueStep maxPending maxStorageArea) s₁ es = some s)
    (hstep : queueStep maxPending maxStorageArea s e = some s') :
    sentIn maxPending maxStorageArea s₁ (es ++ [e]) =
      sentIn maxPending maxStorageArea s₁ es ++ sentBy maxPending maxStorageArea s e := by
  induction es generalizing s₁ with
  | nil =>
      obtain rfl : s₁ = s := by simpa using h
      simp [sentIn, hstep]
  | cons e₁ es ih =>
      obtain ⟨s₂, hs₂, hrest⟩ := Option.bind_eq_some_iff.mp h
      simp only [List.cons_append, sentIn, hs₂, ih hrest, List.append_assoc]

/-- A request that is sent is the one queued under the key it is sent for. -/
theorem key_of_sent (hinv : QueueInvariant s) {freeSlots n : ℕ} {fileNames : Finset String}
    {sent : List (OutgoingRequest × Request)} {k : OutgoingRequest} {r : Request}
    (hsent : SentFrom s freeSlots maxStorageArea n fileNames sent)
    (hk : OutgoingRequest.ofRequest r = .ok k) {p : OutgoingRequest × Request} (hp : p ∈ sent)
    (hpr : p.2 = r) : p.1 = k := by
  obtain ⟨id, t, hkey, hreq⟩ := hsent.queued p hp
  obtain ⟨r', hr', hk'⟩ := (hinv.same id p.1).mpr ⟨t, hkey⟩
  rw [hreq] at hr'
  obtain rfl := Option.some.inj hr'
  rw [hpr, hk] at hk'
  exact (Except.ok.inj hk').symm

/-- So a request is sent at most once in one call, and then it was not pending. -/
theorem count_sent_le (hinv : QueueInvariant s) {freeSlots n : ℕ} {fileNames : Finset String}
    {sent : List (OutgoingRequest × Request)} {k : OutgoingRequest} {r : Request}
    (hsent : SentFrom s freeSlots maxStorageArea n fileNames sent)
    (hk : OutgoingRequest.ofRequest r = .ok k) :
    (sent.map Prod.snd).count r ≤ (sent.map Prod.fst).count k := by
  rw [List.count_eq_countP, List.count_eq_countP, List.countP_map, List.countP_map]
  apply List.countP_mono_left
  intro p hp hpr
  have hpr' : p.2 = r := by simpa using hpr
  simpa using key_of_sent hinv hsent hk hp hpr'

/-- How often a queued request has been sent: not at all while it is not pending, and at
most once. -/
def SentOnce (k : OutgoingRequest) (r : Request) (s : OutgoingRequests)
    (sent : List Request) : Prop :=
  sent.count r ≤ 1 ∧ (k ∉ s.pendingRequests → sent.count r = 0)

/-- One operation that leaves the request queued sends it at most once more, and only
when it was not pending. -/
theorem sentOnce_step {id : Int32} {r : Request} {k : OutgoingRequest} {e : RequestEvent}
    {sent : List Request} (hinv : QueueInvariant s)
    (hlimits : WithinLimits maxPending maxStorageArea s)
    (hk : OutgoingRequest.ofRequest r = .ok k) (hr : QueuedAs s id r) (hr' : QueuedAs s' id r)
    (hstep : queueStep maxPending maxStorageArea s e = some s') (hsent : SentOnce k r s sent) :
    SentOnce k r s' (sent ++ sentBy maxPending maxStorageArea s e) := by
  unfold queueStep at hstep
  split at hstep
  case isFalse => cases hstep
  case isTrue hadmissible =>
    obtain rfl := Option.some.inj hstep
    have hperformed := performed_of_admissible hinv hlimits hadmissible
    unfold sentBy
    generalize (perform maxPending maxStorageArea e).run s = result at *
    obtain ⟨hle, hzero⟩ := hsent
    unfold SentOnce
    rw [List.count_append]
    cases hperformed with
    | unchanged => exact ⟨hle, hzero⟩
    | refused => exact ⟨hle, hzero⟩
    | inserted => exact ⟨hle, hzero⟩
    | @removed id' r' k' hr₁ hk₁ hpending =>
        -- another request was removed, since this one is still queued
        have hne : k ≠ k' := by
          rintro rfl
          obtain rfl := queued_id_unique (consistent_of_queueInvariant hinv) hr hr₁ hk hk₁
          simp [QueuedAs] at hr'
        refine ⟨hle, ?_⟩
        intro hnot
        apply hzero
        intro hmem
        exact hnot (Finset.mem_erase.mpr ⟨hne, hmem⟩)
    | @expired now =>
        -- the request is not too old, since it is still queued
        obtain ⟨t, ht⟩ := ((queueInvariant_keepIds hinv _).same id k).mp ⟨r, hr', hk⟩
        refine ⟨hle, ?_⟩
        intro hnot
        apply hzero
        intro hmem
        exact hnot (Finset.mem_filter.mpr ⟨hmem, AssocMap.contains_iff.mpr ⟨_, ht⟩⟩)
    | @sent sentNow hfrom =>
        have hcount := count_sent_le hinv hfrom hk
        have honce : (sentNow.map Prod.fst).count k ≤ 1 :=
          List.nodup_iff_count_le_one.mp hfrom.nodup k
        by_cases hpending : k ∈ s.pendingRequests
        · -- what is pending is not sent again
          have hnot : k ∉ sentNow.map Prod.fst := by
            intro hmem
            obtain ⟨p, hp, rfl⟩ := List.mem_map.mp hmem
            exact hfrom.fresh p hp hpending
          have hnone := List.count_eq_zero_of_not_mem hnot
          refine ⟨by simp only; omega, ?_⟩
          intro hnot'
          exact absurd (Finset.mem_union_left _ hpending) hnot'
        · have hnone := hzero hpending
          refine ⟨by simp only; omega, ?_⟩
          intro hnot'
          have hnot : k ∉ sentNow.map Prod.fst := fun hmem =>
            hnot' (Finset.mem_union_right _ (List.mem_toFinset.mpr hmem))
          have := List.count_eq_zero_of_not_mem hnot
          simp only
          omega

/-- A request that stays queued during a part of a run is sent at most once in it. The
induction is on that part, its operations the newest last. -/
theorem sentOnce_of_queued {id : Int32} {r : Request} {k : OutgoingRequest}
    {s₁ : OutgoingRequests} {mid : List RequestEvent} (hinv : QueueInvariant s₁)
    (hlimits : WithinLimits maxPending maxStorageArea s₁)
    (hk : OutgoingRequest.ofRequest r = .ok k)
    (hqueued : ∀ p, p <+: mid → ∀ s',
      Transition.run (queueStep maxPending maxStorageArea) s₁ p = some s' → QueuedAs s' id r)
    (h : Transition.run (queueStep maxPending maxStorageArea) s₁ mid = some s) :
    SentOnce k r s (sentIn maxPending maxStorageArea s₁ mid) := by
  have hall : mid <+: mid → QueueInvariant s ∧ WithinLimits maxPending maxStorageArea s ∧
      SentOnce k r s (sentIn maxPending maxStorageArea s₁ mid) := by
    refine Transition.run_induction
      (motive := fun es s => es <+: mid → QueueInvariant s ∧
        WithinLimits maxPending maxStorageArea s ∧
        SentOnce k r s (sentIn maxPending maxStorageArea s₁ es)) ?_ ?_ h
    · intro _
      exact ⟨hinv, hlimits, Nat.zero_le _, fun _ => rfl⟩
    · intro es s e s' hes ih hstep hprefix
      have hprefix' : es <+: mid := (List.prefix_append es [e]).trans hprefix
      obtain ⟨hinv, hlimits, hsent⟩ := ih hprefix'
      obtain ⟨hinv', hlimits'⟩ := invariants_step hinv hlimits hstep
      refine ⟨hinv', hlimits', ?_⟩
      rw [sentIn_concat hes hstep]
      apply sentOnce_step hinv hlimits hk
      · exact hqueued es hprefix' s hes
      · exact hqueued (es ++ [e]) hprefix s' (Transition.run_concat.mpr ⟨s, hes, hstep⟩)
      · exact hstep
      · exact hsent
  exact (hall (List.prefix_refl mid)).2.2

/-- **Throttling over whole runs.** After every run at most `maxPending` requests of at most
`maxStorageArea` bytes and ten file names are pending, so the free slots never
underflow; and from its insertion on, for as long as it stays queued, a request is
returned for sending at most once. -/
theorem throttled_of_run (maxPending maxStorageArea : ℕ) (es : List RequestEvent)
    (s : OutgoingRequests)
    (h : Transition.run (queueStep maxPending maxStorageArea) .default es = some s) :
    WithinLimits maxPending maxStorageArea s ∧
    (∃ sent s', (OutgoingRequests.updatePendingRequests maxPending maxStorageArea).run s =
      .ok sent s') ∧
    ∀ pre id r now mid s₁, es = pre ++ .insert id r now :: mid →
      Transition.run (queueStep maxPending maxStorageArea) .default
        (pre ++ [.insert id r now]) = some s₁ →
      (∀ p, p <+: mid → ∀ s', Transition.run (queueStep maxPending maxStorageArea) s₁ p =
        some s' → QueuedAs s' id r) →
      (sentIn maxPending maxStorageArea s₁ mid).count r ≤ 1 := by
  obtain ⟨hinv, hlimits⟩ := invariants_of_run h
  obtain ⟨sent, hrun, -⟩ := updatePendingRequests_run hinv maxStorageArea hlimits.pending_le
  refine ⟨hlimits, ⟨_, _, hrun⟩, ?_⟩
  rintro pre id r now mid s₁ rfl hs₁ hqueued
  obtain ⟨hinv₁, hlimits₁⟩ := invariants_of_run hs₁
  obtain ⟨k, hk⟩ := hinv₁.keyed id r (hqueued [] List.nil_prefix s₁ rfl)
  have hmid : Transition.run (queueStep maxPending maxStorageArea) s₁ mid = some s := by
    rw [List.append_cons] at h
    obtain ⟨s₂, hs₂, hmid⟩ := Transition.run_append.mp h
    rw [hs₁] at hs₂
    obtain rfl := Option.some.inj hs₂
    exact hmid
  exact (sentOnce_of_queued hinv₁ hlimits₁ hk hqueued hmid).1

/-- Witness: one request is sent once, and its slot freed. -/
theorem throttled_of_run_oneBlock :
    ∃ s, Transition.run (queueStep 1 10) .default
        [.insert 1 oneBlock 0, .updatePendingRequests, .updatePendingRequests, .remove 1] =
          some s ∧
      WithinLimits 1 10 s ∧
      (∃ sent s', (OutgoingRequests.updatePendingRequests 1 10).run s = .ok sent s') ∧
      ∀ pre id r now mid s₁,
        [.insert 1 oneBlock 0, .updatePendingRequests, .updatePendingRequests, .remove 1] =
          pre ++ .insert id r now :: mid →
        Transition.run (queueStep 1 10) .default (pre ++ [.insert id r now]) = some s₁ →
        (∀ p, p <+: mid → ∀ s', Transition.run (queueStep 1 10) s₁ p = some s' →
          QueuedAs s' id r) →
        (sentIn 1 10 s₁ mid).count r ≤ 1 := by
  obtain ⟨s, hs⟩ : ∃ s, Transition.run (queueStep 1 10) .default
      [.insert 1 oneBlock 0, .updatePendingRequests, .updatePendingRequests, .remove 1] =
        some s := ⟨_, rfl⟩
  exact ⟨s, hs, throttled_of_run 1 10 _ s hs⟩

end Grizol.Analysis
