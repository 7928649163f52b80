import Grizol.Model.Handshake

/-!
# The device id of a connection

The slot holds the device of the latest certificate that was verified, whichever
connection presented it. A connection is processed under its own id exactly when no
certificate of another device was verified last before it reads the slot; two
interleaved handshakes are enough to break this, because the guard that should
exclude them is dropped before `accept` starts.
-/

set_option autoImplicit false

namespace Grizol.Analysis

open Grizol.Library Grizol.Model

variable (certificate : ℕ → DeviceId) (trustedPeers : List DeviceId)

/-- Every connection that is processed goes under the device of its own certificate,
and that device is trusted. -/
def Identified (s : Handshakes) : Prop :=
  ∀ c cdid, s.phase c = .processing cdid → cdid = certificate c ∧ cdid ∈ trustedPeers

/-- The connection whose certificate an event verifies. -/
def verifiedBy : HandshakeEvent → Option ℕ
  | .verifyClientCert c => some c
  | _ => none

/-- The connection whose certificate was verified last. -/
def lastVerified (es : List HandshakeEvent) : Option ℕ := (es.filterMap verifiedBy).getLast?

/-- Whenever a connection reads the slot, the certificate verified last was one of its
own device. -/
def ReadsOwnDevice (es : List HandshakeEvent) : Prop :=
  ∀ pre c post, es = pre ++ .readSlot c :: post →
    (lastVerified pre).map certificate = some (certificate c)

/-- The last device verified. -/
theorem lastVerified_concat (es : List HandshakeEvent) (e : HandshakeEvent) :
    lastVerified (es ++ [e]) = (verifiedBy e).or (lastVerified es) := by
  unfold lastVerified
  cases h : verifiedBy e <;> simp [h, List.getLast?_append]

/-- The first part of such a schedule is one. -/
theorem ReadsOwnDevice.of_append {es fs : List HandshakeEvent}
    (h : ReadsOwnDevice certificate (es ++ fs)) : ReadsOwnDevice certificate es := by
  intro pre c post heq
  exact h pre c (post ++ fs) (by simp [heq])

/-! ## What one step does -/

/-- A step moves one connection to a new phase and writes the slot only when it verifies
a certificate. A connection is verified under a trusted certificate, accepted after it
was verified, and processed under what the slot holds. -/
theorem step_cases {s s' : Handshakes} {e : HandshakeEvent}
    (h : s.step certificate trustedPeers e = some s') :
    ∃ c phase, s'.phase = Function.update s.phase c phase ∧
      s'.clientDeviceId = ((verifiedBy e).map certificate).or s.clientDeviceId ∧
      (phase = .verified → verifiedBy e = some c ∧ certificate c ∈ trustedPeers) ∧
      (phase = .accepted → s.phase c = .verified) ∧
      (∀ cdid, phase = .processing cdid →
        e = .readSlot c ∧ s.phase c = .accepted ∧ s.clientDeviceId = some cdid) := by
  cases e with
  | lockAssigner c =>
      simp only [Handshakes.step] at h
      split at h
      · obtain rfl := Option.some.inj h
        exact ⟨c, .locked, rfl, rfl, by simp, by simp, by simp⟩
      · cases h
  | dropGuard c =>
      simp only [Handshakes.step] at h
      split at h
      · obtain rfl := Option.some.inj h
        exact ⟨c, .accepting, rfl, rfl, by simp, by simp, by simp⟩
      · cases h
  | verifyClientCert c =>
      simp only [Handshakes.step] at h
      split at h
      · obtain rfl := Option.some.inj h
        simp only [Handshakes.verifyClientCert]
        split
        · rename_i htrusted
          have hmem : certificate c ∈ trustedPeers := by simpa using htrusted
          exact ⟨c, .verified, rfl, rfl, fun _ => ⟨rfl, hmem⟩, by simp, by simp⟩
        · exact ⟨c, .rejected, rfl, rfl, by simp, by simp, by simp⟩
      · cases h
  | acceptFails c =>
      simp only [Handshakes.step] at h
      split at h
      · obtain rfl := Option.some.inj h
        exact ⟨c, .failed, rfl, rfl, by simp, by simp, by simp⟩
      · obtain rfl := Option.some.inj h
        exact ⟨c, .failed, rfl, rfl, by simp, by simp, by simp⟩
      · obtain rfl := Option.some.inj h
        exact ⟨c, .failed, rfl, rfl, by simp, by simp, by simp⟩
      · cases h
  | acceptReturns c =>
      simp only [Handshakes.step] at h
      split at h
      · rename_i hverified
        obtain rfl := Option.some.inj h
        exact ⟨c, .accepted, rfl, rfl, by simp, fun _ => hverified, by simp⟩
      · cases h
  | readSlot c =>
      simp only [Handshakes.step] at h
      split at h
      · rename_i cdid haccepted hslot
        obtain rfl := Option.some.inj h
        refine ⟨c, .processing cdid, rfl, rfl, by simp, by simp, ?_⟩
        intro cdid' heq
        obtain rfl := HandshakePhase.processing.inj heq
        exact ⟨rfl, haccepted, hslot⟩
      · obtain rfl := Option.some.inj h
        exact ⟨c, .failed, rfl, rfl, by simp, by simp, by simp⟩
      · cases h

/-- What holds after every run: the slot is the device verified last, and a connection
that got past the verification has a trusted certificate and has written the slot. -/
structure HandshakeInvariant (es : List HandshakeEvent) (s : Handshakes) : Prop where
  slot : s.clientDeviceId = (lastVerified es).map certificate
  trusted : ∀ c, s.phase c = .verified ∨ s.phase c = .accepted →
    certificate c ∈ trustedPeers ∧ s.clientDeviceId.isSome = true

/-- A step keeps the slot at the device verified last. -/
theorem handshakeInvariant_step {es : List HandshakeEvent} {s s' : Handshakes}
    {e : HandshakeEvent} (hinv : HandshakeInvariant certificate trustedPeers es s)
    (hstep : s.step certificate trustedPeers e = some s') :
    HandshakeInvariant certificate trustedPeers (es ++ [e]) s' := by
  obtain ⟨c₀, phase, hphase, hslot, hverified, haccepted, -⟩ :=
    step_cases certificate trustedPeers hstep
  have hkept : s.clientDeviceId.isSome = true → s'.clientDeviceId.isSome = true := by
    intro hsome
    rw [hslot, Option.isSome_or, hsome, Bool.or_true]
  constructor
  · rw [hslot, hinv.slot, lastVerified_concat]
    cases verifiedBy e <;> rfl
  · intro c hc
    rw [hphase] at hc
    by_cases hcc : c = c₀
    · subst hcc
      rw [Function.update_self] at hc
      rcases hc with hc | hc
      · obtain ⟨hby, hmem⟩ := hverified hc
        exact ⟨hmem, by rw [hslot, hby]; rfl⟩
      · obtain ⟨hmem, hsome⟩ := hinv.trusted c (.inl (haccepted hc))
        exact ⟨hmem, hkept hsome⟩
    · rw [Function.update_of_ne hcc] at hc
      obtain ⟨hmem, hsome⟩ := hinv.trusted c hc
      exact ⟨hmem, hkept hsome⟩

/-- So does every run. -/
theorem handshakeInvariant_of_run {es : List HandshakeEvent} {s : Handshakes}
    (h : Transition.run (Handshakes.step certificate trustedPeers) .init es = some s) :
    HandshakeInvariant certificate trustedPeers es s := by
  refine Transition.run_induction (motive := HandshakeInvariant certificate trustedPeers) ?_ ?_ h
  · exact ⟨rfl, fun c hc => by simp [Handshakes.init] at hc⟩
  · intro es s e s' _ hinv hstep
    exact handshakeInvariant_step certificate trustedPeers hinv hstep

/-- The connections of a run whose reads follow a verification of their own device are
identified. -/
theorem identified_of_readsOwnDevice {es : List HandshakeEvent} {s : Handshakes}
    (h : Transition.run (Handshakes.step certificate trustedPeers) .init es = some s)
    (hown : ReadsOwnDevice certificate es) : Identified certificate trustedPeers s := by
  revert hown
  refine Transition.run_induction
    (motive := fun es s => ReadsOwnDevice certificate es → Identified certificate trustedPeers s)
    ?_ ?_ h
  · intro _ c cdid hc
    simp [Handshakes.init] at hc
  · intro es s e s' hrun ih hstep hown c cdid hc
    have hinv := handshakeInvariant_of_run certificate trustedPeers hrun
    obtain ⟨c₀, phase, hphase, -, -, -, hprocessing⟩ :=
      step_cases certificate trustedPeers hstep
    rw [hphase] at hc
    by_cases hcc : c = c₀
    · subst hcc
      rw [Function.update_self] at hc
      obtain ⟨rfl, haccepted, hslot⟩ := hprocessing cdid hc
      have heq : some cdid = some (certificate c) := by
        rw [← hslot, hinv.slot]
        exact hown es c [] rfl
      obtain rfl := Option.some.inj heq
      exact ⟨rfl, (hinv.trusted c (.inr haccepted)).1⟩
    · rw [Function.update_of_ne hcc] at hc
      exact ih (hown.of_append certificate) c cdid hc

/-- **A connection gets its own device exactly under an undisturbed schedule.** In
every state a run reaches the processed connections are identified, if and only if
each of them read the slot when the certificate verified last was one of its own
device. -/
theorem identified_iff_readsOwnDevice (es : List HandshakeEvent) (s : Handshakes)
    (h : Transition.run (Handshakes.step certificate trustedPeers) .init es = some s) :
    (∀ pre s', pre <+: es →
        Transition.run (Handshakes.step certificate trustedPeers) .init pre = some s' →
        Identified certificate trustedPeers s') ↔
      ReadsOwnDevice certificate es := by
  constructor
  · intro hidentified pre c post heq
    subst heq
    obtain ⟨s₁, hpre, hrest⟩ := Transition.run_append.mp h
    obtain ⟨s₂, hread, -⟩ := Option.bind_eq_some_iff.mp hrest
    have hinv := handshakeInvariant_of_run certificate trustedPeers hpre
    have hrun₂ : Transition.run (Handshakes.step certificate trustedPeers) .init
        (pre ++ [.readSlot c]) = some s₂ := Transition.run_concat.mpr ⟨s₁, hpre, hread⟩
    have hprefix : pre ++ [.readSlot c] <+: pre ++ .readSlot c :: post := ⟨post, by simp⟩
    simp only [Handshakes.step] at hread
    split at hread
    · rename_i cdid haccepted hslot
      obtain rfl := Option.some.inj hread
      have hc : (s₁.setPhase c (.processing cdid)).phase c = .processing cdid := by simp
      obtain ⟨rfl, -⟩ := hidentified _ _ hprefix hrun₂ c cdid hc
      rw [← hinv.slot, hslot]
    · rename_i haccepted hslot
      have hsome := (hinv.trusted c (.inr haccepted)).2
      simp [hslot] at hsome
    · cases hread
  · intro hown pre s' hpre hrun
    obtain ⟨post, rfl⟩ := hpre
    exact identified_of_readsOwnDevice certificate trustedPeers hrun (hown.of_append certificate)

/-! ## What the lock was to ensure -/

/-- A certificate is verified only while no connection of another device is between its
own verification and its reading of the slot. -/
def WithoutOverlap (s : Handshakes) (e : HandshakeEvent) : Prop :=
  ∀ c c', e = .verifyClientCert c → s.phase c' = .verified ∨ s.phase c' = .accepted →
    certificate c' = certificate c

/-- Handshakes that exclude each other up to the reading of the slot, as they would
under a guard kept that long, identify every connection. -/
theorem identified_of_exclusive {es : List HandshakeEvent} {s : Handshakes}
    (h : Transition.run (Handshakes.step certificate trustedPeers) .init es = some s)
    (hexclusive : Transition.Meets (Handshakes.step certificate trustedPeers)
      (WithoutOverlap certificate) .init es) :
    Identified certificate trustedPeers s := by
  have hinv : Identified certificate trustedPeers s ∧
      ∀ c, s.phase c = .verified ∨ s.phase c = .accepted →
        certificate c ∈ trustedPeers ∧ s.clientDeviceId = some (certificate c) := by
    refine Transition.invariant_run_of_meets
      (fun s => Identified certificate trustedPeers s ∧
        ∀ c, s.phase c = .verified ∨ s.phase c = .accepted →
          certificate c ∈ trustedPeers ∧ s.clientDeviceId = some (certificate c))
      ?_ ?_ hexclusive h
    · exact ⟨fun c cdid hc => by simp [Handshakes.init] at hc,
        fun c hc => by simp [Handshakes.init] at hc⟩
    · rintro s e s' ⟨hid, hwindow⟩ hexcl hstep
      obtain ⟨c₀, phase, hphase, hslot, hverified, haccepted, hprocessing⟩ :=
        step_cases certificate trustedPeers hstep
      -- the slot of a connection in its window is not overwritten by another device
      have hkept : ∀ c, s.phase c = .verified ∨ s.phase c = .accepted →
          s'.clientDeviceId = some (certificate c) := by
        intro c hc
        rw [hslot]
        cases hby : verifiedBy e with
        | none => exact (hwindow c hc).2
        | some c₁ =>
            obtain rfl : e = .verifyClientCert c₁ := by
              cases e <;> simp_all [verifiedBy]
            rw [hexcl c₁ c rfl hc]
            rfl
      constructor
      · intro c cdid hc
        rw [hphase] at hc
        by_cases hcc : c = c₀
        · subst hcc
          rw [Function.update_self] at hc
          obtain ⟨-, hacc, hcdid⟩ := hprocessing cdid hc
          obtain ⟨hmem, hown⟩ := hwindow c (.inr hacc)
          obtain rfl := Option.some.inj (hcdid.symm.trans hown)
          exact ⟨rfl, hmem⟩
        · rw [Function.update_of_ne hcc] at hc
          exact hid c cdid hc
      · intro c hc
        rw [hphase] at hc
        by_cases hcc : c = c₀
        · subst hcc
          rw [Function.update_self] at hc
          rcases hc with hc | hc
          · obtain ⟨hby, hmem⟩ := hverified hc
            exact ⟨hmem, by rw [hslot, hby]; rfl⟩
          · have hc' := haccepted hc
            exact ⟨(hwindow c (.inl hc')).1, hkept c (.inl hc')⟩
        · rw [Function.update_of_ne hcc] at hc
          exact ⟨(hwindow c hc).1, hkept c hc⟩
  exact hinv.1

/-- Two interleaved handshakes: connection 1 presents a certificate that is not trusted
between the verification of connection 0 and its reading of the slot. -/
def crossedHandshakes : List HandshakeEvent :=
  [.lockAssigner 0, .dropGuard 0, .lockAssigner 1, .dropGuard 1, .verifyClientCert 0,
    .verifyClientCert 1, .acceptFails 1, .acceptReturns 0, .readSlot 0]

/-- The trusted connection 0 is then processed under the device that was rejected. -/
theorem crossedHandshakes_not_identified :
    ¬ ∀ (certificate : ℕ → DeviceId) (trustedPeers : List DeviceId) (es : List HandshakeEvent)
      (s : Handshakes),
      Transition.run (Handshakes.step certificate trustedPeers) .init es = some s →
      Identified certificate trustedPeers s := by
  intro hall
  have hrun : ∃ s, Transition.run
      (Handshakes.step (fun c => ⟨Vector.replicate 32 (UInt8.ofNat c)⟩)
        [⟨Vector.replicate 32 0⟩]) .init crossedHandshakes = some s ∧
      s.phase 0 = .processing ⟨Vector.replicate 32 1⟩ := ⟨_, rfl, rfl⟩
  obtain ⟨s, hs, hphase⟩ := hrun
  have hid := (hall _ _ _ s hs 0 _ hphase).1
  revert hid
  decide

/-- Two connections of two trusted devices, the second one after the first has read the slot. -/
def handshakesInTurn : List HandshakeEvent :=
  [.lockAssigner 0, .dropGuard 0, .verifyClientCert 0, .acceptReturns 0, .readSlot 0,
    .lockAssigner 1, .dropGuard 1, .verifyClientCert 1, .acceptReturns 1, .readSlot 1]

/-- Witness: each of the two reads its own device, so both are identified. -/
theorem identified_iff_readsOwnDevice_inTurn :
    (∀ pre s', pre <+: handshakesInTurn →
        Transition.run (Handshakes.step (fun c => ⟨Vector.replicate 32 (UInt8.ofNat c)⟩)
          [⟨Vector.replicate 32 0⟩, ⟨Vector.replicate 32 1⟩]) .init pre = some s' →
        Identified (fun c => ⟨Vector.replicate 32 (UInt8.ofNat c)⟩)
          [⟨Vector.replicate 32 0⟩, ⟨Vector.replicate 32 1⟩] s') ∧
      ReadsOwnDevice (fun c => ⟨Vector.replicate 32 (UInt8.ofNat c)⟩) handshakesInTurn := by
  have howns : ReadsOwnDevice (fun c => ⟨Vector.replicate 32 (UInt8.ofNat c)⟩)
      handshakesInTurn := by
    intro pre c post heq
    have hread : handshakesInTurn[pre.length]? = some (.readSlot c) := by
      rw [heq]
      simp
    have hpre : pre = handshakesInTurn.take pre.length := by
      rw [heq]
      simp
    have hlength : pre.length < 10 := (List.getElem?_eq_some_iff.mp hread).1
    have hc : c = 0 ∨ c = 1 := by
      have hmem := List.mem_of_getElem? hread
      simpa [handshakesInTurn] using hmem
    have hall : ∀ n : Fin 10, ∀ c ∈ [0, 1], handshakesInTurn[n.val]? = some (.readSlot c) →
        (lastVerified (handshakesInTurn.take n.val)).map
          (fun c => (⟨Vector.replicate 32 (UInt8.ofNat c)⟩ : DeviceId)) =
            some ⟨Vector.replicate 32 (UInt8.ofNat c)⟩ := by
      decide
    rw [hpre]
    exact hall ⟨pre.length, hlength⟩ c (by simpa using hc) hread
  exact ⟨(identified_iff_readsOwnDevice _ _ handshakesInTurn _ rfl).mpr howns, howns⟩

end Grizol.Analysis
