import Grizol.Analysis.StreamReading
import Grizol.Interface.ParserProgress

/-!
# The parser makes progress

At every head of the loop the parser is in the state of an unfinished frame of the phase
it is in: so it is after calls that returned no error (`pending_of_feed`), and so it stays
(`pending_loopStep`). In such a state every populating function takes a byte at least, so
that there are no more iterations than bytes.
-/

set_option autoImplicit false

namespace Grizol.Analysis

open Grizol.Library Grizol.Interface
open Grizol.Model Grizol.Model.Syncthing

variable (codec : Codec)

/-- The parser holds the bytes of an unfinished frame, whose header decodes once it is there. -/
def Pending (p : BepDataParser) : Prop :=
  ∃ phase s, p = stateOf codec phase s ∧ (wireFormat codec).cut phase s = none ∧
    (wireFormat codec).accepts phase s = true

/-- A new parser has an unfinished frame, of no bytes. -/
theorem pending_new : Pending codec .new :=
  ⟨.preHello, [], new_eq_stateOf codec, cut_nil codec .preHello, rfl⟩

/-- The length of a frame is the one it declares. -/
theorem frameLen_eq_declaredLen (phase : BepAuthStatus) (s : Bytes) :
    (wireFormat codec).frameLen phase s = declaredLen phase s := by
  cases phase <;> rfl

variable {codec} {phase : BepAuthStatus} {s x : Bytes}

/-- The buffered frame is that of the bytes read. -/
theorem incomingMessage_stateOf {im : IncomingMessage}
    (h : (stateOf codec phase s).incomingMessage = some im) :
    s ≠ [] ∧ im = messageOf codec phase s := by
  rw [stateOf] at h
  dsimp only at h
  split_ifs at h with hs
  exact ⟨hs, (Option.some.inj h).symm⟩

/-! ## What is kept between iterations -/

/-- The message of an unfinished frame is not complete, and has its header when the bytes of the
header are there. -/
theorem wellBuffered_of_pending {p : BepDataParser} (h : Pending codec p) {im : IncomingMessage}
    (him : p.incomingMessage = some im) : WellBuffered p im := by
  obtain ⟨phase, s, rfl, hcut, hacc⟩ := h
  obtain ⟨hs, rfl⟩ := incomingMessage_stateOf him
  have hunfinished := Framing.cut_eq_none_iff.mp hcut
  have hlen : (wireFormat codec).frameLen phase s ≠ some s.length := fun hlen =>
    absurd (hunfinished _ hlen) (Nat.lt_irrefl _)
  have hwithin : Within codec phase s := fun n hn => (hunfinished n hn).le
  refine ⟨List.length_pos_iff.mpr hs, rfl, ?_, ?_, ?_, ?_⟩
  · intro n hn
    exact hwithin n ((frameLen_eq_declaredLen codec phase s).trans hn)
  · cases phase with
    | preHello => simp [messageOf, parsedHeader]
    | postHello =>
        have hparsed := parsedHeader_isSome_iff codec (s := s) hacc
        simpa [messageOf] using hparsed
  · rw [status_messageOf codec hwithin hacc, if_neg hlen]
  · intro hdeclared
    exact hlen ((frameLen_eq_declaredLen codec phase s).trans hdeclared)

/-- Bytes after a header that decodes do not change it. -/
theorem acceptsHeader_of_parsed (hacc : acceptsHeader codec s = true) (h2 : 2 ≤ s.length)
    (hfull : 2 + headerLen s ≤ s.length) : acceptsHeader codec (s ++ x) = true := by
  rw [acceptsHeader, if_pos ⟨h2, hfull⟩] at hacc
  rw [acceptsHeader, headerLen_append h2, decodeFrameHeader_append codec h2 hfull, hacc]
  exact ite_self true

/-- What the loop takes of a slice that is not empty. -/
theorem takes_populate (hcut : (wireFormat codec).cut phase s = none) (hx : x ≠ [])
    (hacc : (wireFormat codec).accepts phase s = true) :
    Takes (stateOf codec phase s) x ((stateOf codec phase s).populate codec x) ∨
      phase = .postHello ∧
        ¬ (2 ≤ s.length ∧ 2 + headerLen s ≤ s.length) ∧
        HeaderFails codec (stateOf codec phase s) x
          ((stateOf codec phase s).populate codec x) := by
  obtain ⟨k, hk, hkle, hwithin, hpopulate⟩ := populate_stateOf codec hcut hx hacc
  by_cases hacc' : (wireFormat codec).accepts phase (s ++ x.take k) = true
  · rw [if_pos hacc'] at hpopulate
    refine Or.inl ⟨_, k, _, _, hpopulate, hk, hkle, rfl, ?_, ?_,
      status_messageOf codec hwithin hacc'⟩
    · rw [heldBytes_stateOf]
      rfl
    · intro n hn
      exact hwithin n ((frameLen_eq_declaredLen codec phase _).trans hn)
  · rw [if_neg hacc'] at hpopulate
    cases phase with
    | preHello => exact absurd rfl hacc'
    | postHello =>
        refine Or.inr ⟨rfl, ?_, hpopulate, k, hkle, ?_⟩
        · rintro ⟨h2, hfull⟩
          exact hacc' (acceptsHeader_of_parsed hacc h2 hfull)
        · rw [heldBytes_stateOf]
          exact Bool.not_eq_true _ ▸ hacc'

/-- In a state between two frames the loop progresses. -/
theorem progresses_of_pending {p : BepDataParser} (h : Pending codec p) (hx : x ≠ []) :
    Progresses codec p x := by
  obtain ⟨phase, s, rfl, hcut, hacc⟩ := h
  have htakes := takes_populate hcut hx hacc
  constructor
  · intro hphase
    obtain rfl : phase = .preHello := hphase
    rcases htakes with htakes | ⟨hpost, -⟩
    · exact htakes
    · cases hpost
  · intro hphase hheader
    obtain rfl : phase = .postHello := hphase
    have hcalled : (stateOf codec .postHello s).populate codec x =
        (stateOf codec .postHello s).populateHeader codec x := by
      rw [BepDataParser.populate, hheader]
      rfl
    rw [hcalled] at htakes
    rcases htakes with htakes | ⟨-, -, hfails⟩
    · exact Or.inl htakes
    · exact Or.inr hfails
  · intro hphase hheader
    obtain rfl : phase = .postHello := hphase
    have hcalled : (stateOf codec .postHello s).populate codec x =
        (stateOf codec .postHello s).populateMessage codec x := by
      rw [BepDataParser.populate]
      dsimp only [stateOf]
      rw [if_neg]
      rwa [Option.isNone_iff_eq_none]
    rw [hcalled] at htakes
    rcases htakes with htakes | ⟨-, hpartial, -⟩
    · exact htakes
    · -- a header that is there has all its bytes
      refine absurd ?_ hpartial
      cases him : (stateOf codec .postHello s).incomingMessage with
      | none =>
          rw [him] at hheader
          exact absurd rfl hheader
      | some im =>
          rw [him, Option.bind_some] at hheader
          obtain ⟨-, rfl⟩ := incomingMessage_stateOf him
          exact (parsedHeader_isSome_iff codec hacc).mp (Option.isSome_iff_ne_none.mpr hheader)

/-! ## Iterations -/

/-- The slice that is left has bytes before the end of the buffer. -/
theorem drop_ne_nil {buf : Bytes} {processed : ℕ} (h : processed < buf.length) :
    buf.drop processed ≠ [] := by
  rw [Ne, List.drop_eq_nil_iff]
  omega

/-- An iteration that goes on takes a byte, and leaves a frame unfinished. -/
theorem pending_iteration {p p' : BepDataParser} {n : ℕ} (h : Pending codec p) (hx : x ≠ [])
    (hiteration : iteration codec p x = .ok (p', n, true)) :
    Pending codec p' ∧ 1 ≤ n ∧ n ≤ x.length := by
  obtain ⟨phase, s, rfl, hcut, hacc⟩ := h
  obtain ⟨k, hk, hkle, hwithin, hpopulate⟩ := populate_stateOf codec hcut hx hacc
  rw [iteration, hpopulate] at hiteration
  have hne : s ++ x.take k ≠ [] := by
    rw [Ne, ← List.length_eq_zero_iff, List.length_append, List.length_take]
    omega
  generalize s ++ x.take k = s₁ at hwithin hiteration hne
  by_cases hacc₁ : (wireFormat codec).accepts phase s₁ = true
  · rw [if_pos hacc₁, Rust.ok_bind] at hiteration
    dsimp only at hiteration
    by_cases hlen : (wireFormat codec).frameLen phase s₁ = some s₁.length
    · -- the frame is complete, and the loop goes on after its message only
      obtain ⟨answer, hyields, hcomplete⟩ := completeMessage_of_complete codec hlen hacc₁
      rw [hcomplete] at hiteration
      obtain ⟨⟨p₁, result⟩, hresult, hrest⟩ := Rust.bind_eq_ok.mp hiteration
      obtain ⟨result', hanswer, hpair⟩ := Rust.bind_eq_ok.mp hresult
      obtain ⟨rfl, rfl⟩ := Prod.mk.inj (Except.ok.inj hpair)
      have hmessage : ∃ m, result' = .ok m := by
        rw [hanswer] at hyields
        cases hcheck : checkFrame codec phase s₁ with
        | none =>
            rw [hcheck] at hyields
            obtain ⟨fault, hfault⟩ := hyields
            cases hfault
        | some outcome =>
            rw [hcheck] at hyields
            cases outcome with
            | some m => exact ⟨m, Except.ok.inj hyields⟩
            | none =>
                obtain ⟨e, hnot, he⟩ := hyields
                obtain rfl := Except.ok.inj he
                cases e with
                | noIncomingMessageYet => exact absurd rfl hnot
                | _ => cases hrest
      obtain ⟨m, rfl⟩ := hmessage
      obtain ⟨rfl, hn⟩ := Prod.mk.inj (Except.ok.inj hrest)
      obtain ⟨rfl, -⟩ := Prod.mk.inj hn
      exact ⟨⟨.postHello, [], rfl, cut_nil codec .postHello, rfl⟩, hk, hkle⟩
    · -- the frame is still unfinished
      have hcut₁ : (wireFormat codec).cut phase s₁ = none := by
        rw [Framing.cut_eq_none_iff]
        intro m hm
        refine lt_of_le_of_ne (hwithin m hm) ?_
        rintro rfl
        exact hlen hm
      rw [completeMessage_of_incomplete codec hwithin hacc₁ hlen, Rust.ok_bind] at hiteration
      obtain ⟨rfl, hn⟩ := Prod.mk.inj (Except.ok.inj hiteration)
      obtain ⟨rfl, -⟩ := Prod.mk.inj hn
      refine ⟨⟨phase, s₁, ?_, hcut₁, hacc₁⟩, hk, hkle⟩
      rw [stateOf, if_neg hne]
  · rw [if_neg hacc₁] at hiteration
    cases hiteration

/-- A turn of the loop is an iteration. -/
theorem parseLoop_iteration {p : BepDataParser} {buf : Bytes} {processed : ℕ}
    (h : processed < buf.length) (fuel : ℕ) (res : List CompleteMessage) :
    (∃ e, iteration codec p (buf.drop processed) = .error e ∧
      p.parseLoop codec (fuel + 1) buf processed res = .error e) ∨
    (∃ p' n res', iteration codec p (buf.drop processed) = .ok (p', n, true) ∧
      p.parseLoop codec (fuel + 1) buf processed res =
        p'.parseLoop codec fuel buf (processed + n) res') ∨
    ∃ p' n e, iteration codec p (buf.drop processed) = .ok (p', n, false) ∧
      p.parseLoop codec (fuel + 1) buf processed res = .ok (p', .error e) := by
  have hslice : Rust.slice buf processed buf.length = .ok (buf.drop processed) := by
    rw [Rust.slice_of_le ⟨h.le, le_rfl⟩, List.take_length]
  rw [iteration, BepDataParser.parseLoop, if_pos h]
  dsimp only
  rw [hslice, Rust.ok_bind]
  cases p.populate codec (buf.drop processed) with
  | error e => exact Or.inl ⟨e, rfl, rfl⟩
  | ok populated =>
      obtain ⟨p₁, n⟩ := populated
      rw [Rust.ok_bind, Rust.ok_bind]
      dsimp only
      cases p₁.completeMessage codec with
      | error e => exact Or.inl ⟨e, rfl, rfl⟩
      | ok completed =>
          obtain ⟨p₂, result⟩ := completed
          rw [Rust.ok_bind, Rust.ok_bind]
          dsimp only
          cases result with
          | ok m => exact Or.inr (Or.inl ⟨_, n, res ++ [m], rfl, rfl⟩)
          | error e =>
              cases e with
              | noIncomingMessageYet => exact Or.inr (Or.inl ⟨p₂, n, res, rfl, rfl⟩)
              | _ => exact Or.inr (Or.inr ⟨p₂, n, _, rfl, rfl⟩)

/-- A turn of the loop goes on where the last one ended. -/
theorem loopStep_eq_some {p p' : BepDataParser} {buf : Bytes} {processed processed' : ℕ} :
    loopStep codec buf (p, processed) () = some (p', processed') ↔ processed < buf.length ∧
      ∃ n, iteration codec p (buf.drop processed) = .ok (p', n, true) ∧
        processed' = processed + n := by
  rw [loopStep]
  split_ifs with h
  · refine ⟨fun hstep => ⟨h, ?_⟩, ?_⟩
    · split at hstep
      · rename_i p₁ n hiteration
        obtain ⟨rfl, rfl⟩ := Prod.mk.inj (Option.some.inj hstep)
        exact ⟨n, hiteration, rfl⟩
      · cases hstep
    · rintro ⟨-, n, hiteration, rfl⟩
      rw [hiteration]
  · exact iff_of_false (by simp) fun hstep => h hstep.1

/-! ## The loop -/

/-- Where the loop over a buffer is after some turns. -/
structure AtHead (codec : Codec) (p : BepDataParser) (buf : Bytes) (turns : ℕ)
    (q : BepDataParser × ℕ) : Prop where
  pending : Pending codec q.1
  taken : turns ≤ q.2
  le_length : q.2 ≤ buf.length

/-- After any number of turns the loop is at its head. -/
theorem atHead_of_run {p : BepDataParser} {buf : Bytes} (h : Pending codec p) {turns : List Unit}
    {q : BepDataParser × ℕ} (hrun : Transition.run (loopStep codec buf) (p, 0) turns = some q) :
    AtHead codec p buf turns.length q := by
  refine Transition.run_induction (motive := fun turns q => AtHead codec p buf turns.length q)
    ⟨h, le_rfl, Nat.zero_le _⟩ ?_ hrun
  rintro turns ⟨q, processed⟩ _ ⟨q', processed'⟩ - hhead hstep
  obtain ⟨hlt, n, hiteration, rfl⟩ := loopStep_eq_some.mp hstep
  obtain ⟨hpending, hone, hle⟩ := pending_iteration hhead.pending (drop_ne_nil hlt) hiteration
  rw [List.length_drop] at hle
  have htaken : turns.length ≤ processed := hhead.taken
  refine ⟨hpending, ?_, ?_⟩
  · show (turns ++ [()]).length ≤ processed + n
    rw [List.length_append, List.length_singleton]
    omega
  · show processed + n ≤ buf.length
    omega

/-- The states of such a run are those at the heads of the loop. -/
theorem parseLoop_of_run {buf : Bytes} {turns : List Unit} {p q : BepDataParser}
    {processed processed' : ℕ}
    (hrun : Transition.run (loopStep codec buf) (p, processed) turns = some (q, processed'))
    (fuel : ℕ) (res : List CompleteMessage) :
    ∃ res', p.parseLoop codec (fuel + turns.length) buf processed res =
      q.parseLoop codec fuel buf processed' res' := by
  induction turns generalizing p processed res with
  | nil =>
      obtain ⟨rfl, rfl⟩ := Prod.mk.inj (Option.some.inj hrun)
      exact ⟨res, rfl⟩
  | cons turn turns ih =>
      obtain ⟨⟨p₁, processed₁⟩, hstep, hrest⟩ := Option.bind_eq_some_iff.mp hrun
      obtain ⟨hlt, n, hiteration, rfl⟩ := loopStep_eq_some.mp hstep
      have hfuel : fuel + (turn :: turns).length = fuel + turns.length + 1 := rfl
      rw [hfuel]
      rcases @parseLoop_iteration codec p buf _ hlt (fuel + turns.length) res with
        ⟨e, herror, -⟩ | ⟨p', n', res₁, hsame, hloop⟩ | ⟨p', n', e, hends, -⟩
      · rw [hiteration] at herror
        cases herror
      · rw [hiteration] at hsame
        obtain ⟨rfl, hn⟩ := Prod.mk.inj (Except.ok.inj hsame)
        obtain ⟨rfl, -⟩ := Prod.mk.inj hn
        rw [hloop]
        exact ih hrest res₁
      · rw [hiteration] at hends
        cases hends

/-! ## The end of the loop -/

/-- A slice ends. -/
theorem slice_ne_divergence (l : Bytes) (i j : ℕ) : Rust.slice l i j ≠ .error .divergence := by
  rw [Rust.slice]
  split_ifs <;> simp

/-- So does an unwrap. -/
theorem unwrap_ne_divergence {α : Type} (o : Option α) : Rust.unwrap o ≠ .error .divergence := by
  cases o <;> simp [Rust.unwrap]

/-- And reading a number. -/
theorem fromBeBytes_ne_divergence (data : Bytes) (i j : ℕ) :
    fromBeBytes data i j ≠ .error .divergence := by
  rw [fromBeBytes]
  exact Rust.bind_ne_error (slice_ne_divergence _ _ _) fun _ _ => by simp

/-- What a message is made of is computed without a loop. -/
theorem tryFrom_ne_divergence (codec : Codec) (im : IncomingMessage) :
    CompleteMessage.tryFrom codec im ≠ .error .divergence := by
  rw [CompleteMessage.tryFrom]
  split
  · rw [decodeHello]
    split_ifs
    · simp
    · refine Rust.bind_ne_error (fromBeBytes_ne_divergence _ _ _) fun _ _ => ?_
      refine Rust.bind_ne_error (slice_ne_divergence _ _ _) fun _ _ => ?_
      exact Rust.bind_ne_error (unwrap_ne_divergence _) fun _ _ => by simp
  · have hstart : im.messageStartPos ≠ .error .divergence := by
      rw [IncomingMessage.messageStartPos]
      exact Rust.bind_ne_error (fromBeBytes_ne_divergence _ _ _) fun _ _ => by simp
    rw [decodePostHelloMessage]
    refine Rust.bind_ne_error hstart fun _ _ => ?_
    refine Rust.bind_ne_error (unwrap_ne_divergence _) fun _ _ => ?_
    refine Rust.bind_ne_error (unwrap_ne_divergence _) fun _ _ => ?_
    dsimp only
    split
    · refine Rust.bind_ne_error (fromBeBytes_ne_divergence _ _ _) fun _ _ => ?_
      refine Rust.bind_ne_error (slice_ne_divergence _ _ _) fun _ _ => ?_
      refine Rust.bind_ne_error (unwrap_ne_divergence _) fun _ _ => ?_
      refine Rust.bind_ne_error (unwrap_ne_divergence _) fun _ _ => ?_
      split <;> simp
    · refine Rust.bind_ne_error (slice_ne_divergence _ _ _) fun _ _ => ?_
      refine Rust.bind_ne_error (unwrap_ne_divergence _) fun _ _ => ?_
      split <;> simp

/-- And so an iteration of the loop. -/
theorem iteration_ne_divergence {p : BepDataParser} (h : Pending codec p) (hx : x ≠ []) :
    iteration codec p x ≠ .error .divergence := by
  obtain ⟨phase, s, rfl, hcut, hacc⟩ := h
  obtain ⟨k, -, -, hwithin, hpopulate⟩ := populate_stateOf codec hcut hx hacc
  rw [iteration, hpopulate]
  split_ifs with hacc'
  · rw [Rust.ok_bind]
    refine Rust.bind_ne_error ?_ fun completed _ => ?_
    · rw [BepDataParser.completeMessage]
      dsimp only
      rw [status_messageOf codec hwithin hacc', Rust.ok_bind]
      split
      · simp
      · exact Rust.bind_ne_error (tryFrom_ne_divergence codec _) fun _ _ => by simp
    · obtain ⟨p, result⟩ := completed
      cases result with
      | ok m => simp
      | error e => cases e <;> simp
  · simp

/-- When the bound of the loop is used up, there is a run of that many turns that has not come to
the end of the buffer. -/
theorem exists_run_of_divergence {buf : Bytes} (fuel : ℕ) {p : BepDataParser} {processed : ℕ}
    {res : List CompleteMessage} (h : Pending codec p)
    (hloop : p.parseLoop codec fuel buf processed res = .error .divergence) :
    ∃ turns q, turns.length = fuel ∧
      Transition.run (loopStep codec buf) (p, processed) turns = some q ∧ q.2 < buf.length := by
  induction fuel generalizing p processed res with
  | zero =>
      rw [BepDataParser.parseLoop] at hloop
      split_ifs at hloop with hlt
      · exact ⟨[], (p, processed), rfl, rfl, hlt⟩
      · cases hloop
  | succ fuel ih =>
      by_cases hlt : processed < buf.length
      · rcases @parseLoop_iteration codec p buf _ hlt fuel res with
          ⟨e, herror, hends⟩ | ⟨p', n, res', hiteration, hgoes⟩ | ⟨p', n, e, -, hends⟩
        · rw [hends] at hloop
          obtain rfl := Except.error.inj hloop
          exact absurd herror (iteration_ne_divergence h (drop_ne_nil hlt))
        · have hpending := (pending_iteration h (drop_ne_nil hlt) hiteration).1
          obtain ⟨turns, q, hlength, hrun, hq⟩ := ih hpending (hgoes.symm.trans hloop)
          have hstep : loopStep codec buf (p, processed) () = some (p', processed + n) :=
            loopStep_eq_some.mpr ⟨hlt, n, hiteration, rfl⟩
          refine ⟨() :: turns, q, by rw [List.length_cons, hlength], ?_, hq⟩
          rw [Transition.run_cons, hstep, Option.bind_some]
          exact hrun
        · rw [hends] at hloop
          cases hloop
      · rw [BepDataParser.parseLoop, if_neg hlt] at hloop
        cases hloop

/-! ## Calls -/

/-- A call that returns no error leaves an unfinished frame. -/
theorem pending_of_call {p p' : BepDataParser} {buf : Bytes} {messages : List CompleteMessage}
    (h : Pending codec p) (hcall : p.parseIncomingData codec buf = .ok (p', .ok messages)) :
    Pending codec p' := by
  obtain ⟨phase, s, rfl, hcut, hacc⟩ := h
  have hloop := parseLoop_stateOf codec buf buf.length phase s 0 [] (by omega) (Nat.zero_le _)
    hcut hacc
  rw [BepDataParser.parseIncomingData] at hcall
  rw [hcall] at hloop
  cases hread : (checkedFormat codec).read (some phase) (s ++ buf.drop 0) with
  | none =>
      rw [hread] at hloop
      obtain ⟨fault, hfault⟩ := hloop
      cases hfault
  | some r =>
      obtain ⟨outcomes, phase', pending⟩ := r
      rw [hread] at hloop
      cases phase' with
      | none =>
          obtain ⟨q, e, herror⟩ := hloop
          cases herror
      | some phase' =>
          obtain ⟨messages', hmap, hok⟩ := hloop
          obtain ⟨rfl, -⟩ := Prod.mk.inj (Except.ok.inj hok)
          obtain ⟨hcut', hacc'⟩ := Framing.unfinished_of_read hread
          exact ⟨phase', pending, rfl, hcut', hacc'⟩

/-- After any calls that return `Ok` the frame is unfinished. -/
theorem pending_of_feed {bufs : List Bytes} {p p' : BepDataParser}
    {results : List (Except String (List CompleteMessage))} (h : Pending codec p)
    (hfeed : p.feed codec bufs = .ok (p', results))
    (hok : ∀ result ∈ results, ∃ messages, result = .ok messages) : Pending codec p' := by
  induction bufs generalizing p results with
  | nil =>
      obtain ⟨rfl, -⟩ := Prod.mk.inj (Except.ok.inj hfeed)
      exact h
  | cons buf bufs ih =>
      obtain ⟨⟨p₁, result⟩, hcall, hrest⟩ := Rust.bind_eq_ok.mp hfeed
      obtain ⟨⟨p₂, results₂⟩, hfeed₂, hpair⟩ := Rust.bind_eq_ok.mp hrest
      obtain ⟨rfl, rfl⟩ := Prod.mk.inj (Except.ok.inj hpair)
      obtain ⟨⟨messages, rfl⟩, hok₂⟩ := List.forall_mem_cons.mp hok
      exact ih (pending_of_call h hcall) hfeed₂ hok₂

/-- **The parser makes progress.** After any calls that returned no error the message that is kept
is the unfinished one of a frame of this phase. Whatever buffer the next call is given, that is
so at every head of its loop, too, and each populating function takes at least one byte there; so
there are no more turns than bytes, and the loop ends. The one exception is a header that does
not decode: `populate_header` panics on its `unwrap` when it completes it. -/
theorem progress_of_feed {bufs : List Bytes} {p : BepDataParser}
    {results : List (Except String (List CompleteMessage))}
    (hfeed : BepDataParser.new.feed codec bufs = .ok (p, results))
    (hok : ∀ result ∈ results, ∃ messages, result = .ok messages) :
    (∀ im, p.incomingMessage = some im → WellBuffered p im) ∧
    ∀ buf, p.parseIncomingData codec buf ≠ .error .divergence ∧
      ∀ turns q processedBytes,
        Transition.run (loopStep codec buf) (p, 0) turns = some (q, processedBytes) →
        (∃ res, p.parseIncomingData codec buf =
          q.parseLoop codec (buf.length - turns.length) buf processedBytes res) ∧
        (∀ im, q.incomingMessage = some im → WellBuffered q im) ∧
        (∀ rest, rest ≠ [] → Progresses codec q rest) ∧
        turns.length ≤ processedBytes ∧ processedBytes ≤ buf.length := by
  have hpending : Pending codec p := pending_of_feed (pending_new codec) hfeed hok
  refine ⟨fun im him => wellBuffered_of_pending hpending him, fun buf => ⟨?_, ?_⟩⟩
  · intro hdiverges
    obtain ⟨turns, q, hlength, hrun, hlt⟩ := exists_run_of_divergence buf.length hpending hdiverges
    have htaken := (atHead_of_run hpending hrun).taken
    omega
  · intro turns q processedBytes hrun
    have hhead := atHead_of_run hpending hrun
    have htaken : turns.length ≤ processedBytes := hhead.taken
    have hle : processedBytes ≤ buf.length := hhead.le_length
    refine ⟨?_, fun im him => wellBuffered_of_pending hhead.pending him,
      fun rest hrest => progresses_of_pending hhead.pending hrest, htaken, hle⟩
    obtain ⟨res, hloop⟩ := parseLoop_of_run hrun (buf.length - turns.length) []
    have hfuel : buf.length - turns.length + turns.length = buf.length := by omega
    rw [hfuel] at hloop
    exact ⟨res, hloop⟩

/-- The first byte of a frame after the Hello. -/
def firstByte : IncomingMessage := ⟨.postHello, [0], none⟩

/-- Witness: one byte after the Hello is held. -/
theorem progress_of_feed_hello :
    WellBuffered ⟨.postHello, some firstByte⟩ firstByte ∧
    ∀ buf, BepDataParser.parseIncomingData shortMessages ⟨.postHello, some firstByte⟩ buf ≠
      .error .divergence := by
  have hfeed : BepDataParser.new.feed shortMessages [[0x2e, 0xa7, 0xd9, 0x0b, 0, 0, 0]] =
      .ok (⟨.postHello, some firstByte⟩, [.ok [.hello {}]]) := by
    decide +kernel
  obtain ⟨hkept, hloop⟩ := progress_of_feed hfeed (by simp)
  exact ⟨hkept firstByte rfl, fun buf => (hloop buf).1⟩

end Grizol.Analysis
