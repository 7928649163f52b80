import Grizol.Analysis.EncodedMessages
import Grizol.Analysis.ParserRefinement

/-!
# Reading a connection in buffers

The loop of `parse_incoming_data` on one buffer, and then the sequence of its calls
on a connection, read what the one-pass reader reads, wherever the buffers are cut.
-/

set_option autoImplicit false

namespace Grizol.Analysis

open Grizol.Library Grizol.Interface
open Grizol.Model Grizol.Model.Syncthing

variable (codec : Codec)

/-- Nothing is read from no bytes. -/
theorem cut_nil (phase : BepAuthStatus) : (wireFormat codec).cut phase [] = none :=
  Framing.cut_eq_none_iff.mpr fun _ hn => (wireFormat codec).frameLen_pos hn

/-- What the loop over a buffer does, when the checked reading of the unfinished frame
and the rest of the buffer gives `reading`: it panics on a failing frame, returns an
error at a refused one, and otherwise returns the messages and stops in the state of
the frame then unfinished. -/
def Performs (answer : Rust (BepDataParser × Except String (List CompleteMessage)))
    (res : List CompleteMessage) :
    Option (List (Option CompleteMessage) × Option BepAuthStatus × Bytes) → Prop
  | none => ∃ fault, answer = .error fault
  | some (_, none, _) => ∃ p e, answer = .ok (p, .error e)
  | some (outcomes, some phase, pending) =>
      ∃ messages, outcomes = messages.map some ∧
        answer = .ok (stateOf codec phase pending, .ok (res ++ messages))

/-- Nothing is read after a refused frame. -/
theorem read_refused (s : Bytes) : (checkedFormat codec).read none s = some ([], none, s) := by
  have hcut : (checkedFormat codec).cut none s = none := rfl
  rw [Framing.read_of_incomplete hcut]
  exact if_pos rfl

/-- The messages before a message are what the reading goes on with. -/
theorem Performs.cons {answer : Rust (BepDataParser × Except String (List CompleteMessage))}
    {res : List CompleteMessage} {m : CompleteMessage}
    {reading : Option (List (Option CompleteMessage) × Option BepAuthStatus × Bytes)}
    (h : Performs codec answer (res ++ [m]) reading) :
    Performs codec answer res (reading.map fun r => (some m :: r.1, r.2)) := by
  cases reading with
  | none => exact h
  | some r =>
      obtain ⟨outcomes, phase, pending⟩ := r
      cases phase with
      | none => exact h
      | some phase =>
          obtain ⟨messages, rfl, hanswer⟩ := h
          refine ⟨m :: messages, rfl, ?_⟩
          rw [hanswer, List.append_assoc]
          rfl

/-- The loop ends with its buffer. -/
theorem parseLoop_end {buf : Bytes} {processed : ℕ} (hend : ¬ processed < buf.length) (fuel : ℕ)
    {phase : BepAuthStatus} {s : Bytes} (hcut : (wireFormat codec).cut phase s = none)
    (hacc : (wireFormat codec).accepts phase s = true) (res : List CompleteMessage) :
    Performs codec
      (BepDataParser.parseLoop codec fuel (stateOf codec phase s) buf processed res) res
      ((checkedFormat codec).read (some phase) (s ++ buf.drop processed)) := by
  have hcut' : (checkedFormat codec).cut (some phase) s = none := hcut
  have hread : (checkedFormat codec).read (some phase) s = some ([], some phase, s) := by
    rw [Framing.read_of_incomplete hcut']
    exact if_pos hacc
  have hloop : BepDataParser.parseLoop codec fuel (stateOf codec phase s) buf processed res =
      .ok (stateOf codec phase s, .ok res) := by
    cases fuel <;> rw [BepDataParser.parseLoop, if_neg hend] <;> rfl
  rw [List.drop_of_length_le (by omega), List.append_nil, hread, hloop]
  exact ⟨[], rfl, by rw [List.append_nil]⟩

/-- The loop started in the state of an unfinished frame performs the checked reading
of it and of the rest of the buffer. The induction is on the bound; each iteration
takes at least one byte of the buffer. -/
theorem parseLoop_stateOf (buf : Bytes) (fuel : ℕ) :
    ∀ (phase : BepAuthStatus) (s : Bytes) (processed : ℕ) (res : List CompleteMessage),
      buf.length - processed ≤ fuel → processed ≤ buf.length →
      (wireFormat codec).cut phase s = none → (wireFormat codec).accepts phase s = true →
      Performs codec
        (BepDataParser.parseLoop codec fuel (stateOf codec phase s) buf processed res) res
        ((checkedFormat codec).read (some phase) (s ++ buf.drop processed)) := by
  induction fuel with
  | zero =>
      intro phase s processed res hfuel hle hcut hacc
      exact parseLoop_end codec (by omega) 0 hcut hacc res
  | succ fuel ih =>
      intro phase s processed res hfuel hle hcut hacc
      by_cases hend : processed < buf.length
      · have hx : buf.drop processed ≠ [] := by
          rw [Ne, ← List.length_eq_zero_iff, List.length_drop]
          omega
        obtain ⟨k, hk, hkle, hwithin, hpop⟩ := populate_stateOf codec hcut hx hacc
        rw [List.length_drop] at hkle
        have hslice : Rust.slice buf processed buf.length = .ok (buf.drop processed) := by
          rw [Rust.slice_of_le ⟨hle, le_rfl⟩, List.take_length]
        have hsplit : s ++ buf.drop processed =
            (s ++ (buf.drop processed).take k) ++ buf.drop (processed + k) := by
          rw [← List.drop_drop, List.append_assoc, List.take_append_drop]
        rw [hsplit, BepDataParser.parseLoop, if_pos hend]
        simp only [hslice, Rust.ok_bind, hpop]
        generalize hs₁ : s ++ (buf.drop processed).take k = s₁ at hwithin ⊢
        have hne : s₁ ≠ [] := by
          rw [← hs₁, Ne, ← List.length_eq_zero_iff, List.length_append, List.length_take,
            List.length_drop]
          omega
        by_cases hacc₁ : (wireFormat codec).accepts phase s₁ = true
        · simp only [hacc₁, if_true, Rust.ok_bind]
          by_cases hlen : (wireFormat codec).frameLen phase s₁ = some s₁.length
          · -- the frame is complete: the loop goes on after its message only
            have hlen' : (checkedFormat codec).frameLen (some phase) s₁ = some s₁.length := hlen
            obtain ⟨answer, hyields, hcomplete⟩ := completeMessage_of_complete codec hlen hacc₁
            have hdecode : (checkedFormat codec).decode (some phase) s₁ =
                (checkFrame codec phase s₁).map fun o => (o, phaseAfter o) := rfl
            rw [Framing.read_of_complete _ hlen', hdecode, hcomplete]
            cases hcheck : checkFrame codec phase s₁ with
            | none =>
                rw [hcheck] at hyields
                obtain ⟨fault, rfl⟩ := hyields
                exact ⟨fault, rfl⟩
            | some outcome =>
                rw [hcheck] at hyields
                cases outcome with
                | none =>
                    obtain ⟨e, hne', rfl⟩ := hyields
                    have hrefused := read_refused codec (buf.drop (processed + k))
                    simp only [Option.map_some, phaseAfter, Option.bind_eq_bind, Option.bind_some,
                      hrefused, Rust.ok_bind, Rust.pure_eq_ok]
                    cases e with
                    | noIncomingMessageYet => exact absurd rfl hne'
                    | _ => exact ⟨_, _, rfl⟩
                | some m =>
                    obtain rfl : answer = .ok (.ok m) := hyields
                    have hloop := ih .postHello [] (processed + k) (res ++ [m]) (by omega)
                      (by omega) (cut_nil codec .postHello) rfl
                    have hcons := hloop.cons
                    rw [List.nil_append, Option.map_eq_bind] at hcons
                    exact hcons
          · -- the frame is still unfinished
            have hcut₁ : (wireFormat codec).cut phase s₁ = none := by
              rw [Framing.cut_eq_none_iff]
              intro n hn
              refine lt_of_le_of_ne (hwithin n hn) ?_
              rintro rfl
              exact hlen hn
            have hloop := ih phase s₁ (processed + k) res (by omega) (by omega) hcut₁ hacc₁
            simp only [completeMessage_of_incomplete codec hwithin hacc₁ hlen, Rust.ok_bind]
            simpa [stateOf, hne] using hloop
        · -- a header that does not decode
          have hfails : (checkedFormat codec).read (some phase)
              (s₁ ++ buf.drop (processed + k)) = none := by
            by_contra hsome
            exact hacc₁ ((checkedFormat codec).accepts_of_read (s := some phase) hwithin
              (Option.isSome_iff_ne_none.mpr hsome))
          rw [hfails]
          rw [if_neg hacc₁]
          exact ⟨.unwrap, rfl⟩
      · exact parseLoop_end codec hend (fuel + 1) hcut hacc res

/-- The calls on a sequence of buffers deliver the messages of the bytes they hold
together and stop in the state of the unfinished frame. -/
theorem feed_stateOf (bufs : List Bytes) :
    ∀ (phase : BepAuthStatus) (s : Bytes) (messages : List CompleteMessage)
      (phase' : BepAuthStatus) (pending : Bytes),
      (wireFormat codec).cut phase s = none →
      (wireFormat codec).read phase (s ++ bufs.flatten) = some (messages, phase', pending) →
      ∃ delivered : List (List CompleteMessage),
        (stateOf codec phase s).feed codec bufs =
          .ok (stateOf codec phase' pending, delivered.map .ok) ∧
        delivered.flatten = messages := by
  induction bufs with
  | nil =>
      intro phase s messages phase' pending hcut hread
      rw [List.flatten_nil, List.append_nil, Framing.read_of_incomplete hcut] at hread
      split at hread
      · obtain ⟨rfl, rfl, rfl⟩ : [] = messages ∧ phase = phase' ∧ s = pending := by
          simpa using hread
        exact ⟨[], rfl, rfl⟩
      · cases hread
  | cons buf bufs ih =>
      intro phase s messages phase' pending hcut hread
      have hacc : (wireFormat codec).accepts phase s = true :=
        Framing.accepts_of_read (x := (buf :: bufs).flatten)
          (fun n hn => (Framing.cut_eq_none_iff.mp hcut n hn).le) (by rw [hread]; rfl)
      rw [List.flatten_cons, ← List.append_assoc, Framing.read_append,
        Option.bind_eq_some_iff] at hread
      obtain ⟨⟨first, phase₁, s₁⟩, hfirst, hread⟩ := hread
      obtain ⟨⟨rest, phase₂, s₂⟩, hrest, heq⟩ := Option.map_eq_some_iff.mp hread
      obtain ⟨rfl, rfl, rfl⟩ : first ++ rest = messages ∧ phase₂ = phase' ∧ s₂ = pending := by
        simpa using heq
      have hloop := parseLoop_stateOf codec buf buf.length phase s 0 [] (by omega)
        (Nat.zero_le _) hcut hacc
      rw [List.drop_zero, checkedFormat_read_of_read codec hfirst] at hloop
      obtain ⟨messages, hmap, hloop⟩ := hloop
      obtain rfl : first = messages := List.map_injective_iff.mpr (Option.some_injective _) hmap
      obtain ⟨delivered, hfeed, hflat⟩ :=
        ih phase₁ s₁ rest phase₂ s₂ (Framing.unfinished_of_read hfirst).1 hrest
      refine ⟨first :: delivered, ?_, by simp [hflat]⟩
      simp only [BepDataParser.feed, BepDataParser.parseIncomingData, hloop, Rust.ok_bind, hfeed,
        List.nil_append, Rust.pure_eq_ok, List.map_cons]

/-- No frame after the Hello is one. -/
theorem decodeMessageFrame_ne_hello {frame : Bytes} {m : CompleteMessage}
    (h : decodeMessageFrame codec frame = some m) (hello : Hello) : m ≠ .hello hello := by
  simp only [decodeMessageFrame, Option.bind_eq_bind, Option.bind_eq_some_iff] at h
  obtain ⟨header, -, raw, -, type, -, hm⟩ := h
  have hbody : decodeBody codec type raw = .ok m := by
    cases hb : decodeBody codec type raw with
    | error e => simp [hb, Except.toOption] at hm
    | ok m' => simpa [hb, Except.toOption] using hm
  have hmap : ∀ {α : Type} (f : α → CompleteMessage) (d : Except String α),
      d.map f = .ok m → ∃ a, m = f a := by
    intro α f d hd
    cases d with
    | error e => cases hd
    | ok a => exact ⟨a, (Except.ok.inj hd).symm⟩
  cases type <;> obtain ⟨a, rfl⟩ := hmap _ _ hbody <;> simp

/-- After the Hello the reader returns no Hello. -/
theorem read_postHello_ne_hello {s pending : Bytes} {messages : List CompleteMessage}
    {phase' : BepAuthStatus}
    (h : (wireFormat codec).read .postHello s = some (messages, phase', pending)) :
    ∀ m ∈ messages, ∀ hello, m ≠ .hello hello := by
  generalize hphase : BepAuthStatus.postHello = phase at h
  induction phase, s using (wireFormat codec).read_induction generalizing messages with
  | incomplete phase s hcut =>
      rw [Framing.read_of_incomplete hcut] at h
      split at h
      · obtain ⟨rfl, -⟩ : [] = messages ∧ _ := by simpa using h
        simp
      · cases h
  | complete phase s frame tail hcut ih =>
      subst hphase
      rw [Framing.read_of_cut hcut] at h
      cases hdec : (wireFormat codec).decode .postHello frame with
      | none => simp [hdec] at h
      | some r =>
          obtain ⟨m, phase₁⟩ := r
          obtain ⟨m', hm', heq⟩ := Option.map_eq_some_iff.mp hdec
          obtain ⟨rfl, rfl⟩ := Prod.mk.inj heq
          simp only [hdec, Option.bind_eq_bind, Option.bind_some, Option.bind_eq_some_iff] at h
          obtain ⟨⟨rest, phase₂, pending'⟩, hrest, hmk⟩ := h
          obtain ⟨rfl, rfl, rfl⟩ : m' :: rest = messages ∧ phase₂ = phase' ∧
              pending' = pending := by simpa using hmk
          intro m₁ hm₁
          rcases List.mem_cons.mp hm₁ with rfl | hm₁
          · exact decodeMessageFrame_ne_hello codec hm'
          · exact ih .postHello rfl hrest m₁ hm₁

/-- What the reader returns from the start of a connection starts with its Hello. -/
theorem helloFirst_of_readStream {stream : Bytes} {messages : List CompleteMessage}
    {pending : Bytes} (h : readStream codec stream = some (messages, pending)) :
    HelloFirst messages := by
  obtain ⟨⟨ms, phase', p⟩, hread, heq⟩ := Option.map_eq_some_iff.mp h
  obtain ⟨rfl, rfl⟩ := Prod.mk.inj heq
  cases hcut : (wireFormat codec).cut .preHello stream with
  | none =>
      rw [Framing.read_of_incomplete hcut] at hread
      split at hread
      · obtain ⟨rfl, -⟩ : [] = ms ∧ _ := by simpa using hread
        trivial
      · cases hread
  | some fr =>
      obtain ⟨frame, tail⟩ := fr
      rw [Framing.read_of_cut hcut] at hread
      cases hdec : (wireFormat codec).decode .preHello frame with
      | none => simp [hdec] at hread
      | some r =>
          obtain ⟨m, phase₁⟩ := r
          obtain ⟨m', hm', hphase⟩ := Option.map_eq_some_iff.mp hdec
          obtain ⟨rfl, rfl⟩ := Prod.mk.inj hphase
          simp only [hdec, Option.bind_eq_bind, Option.bind_some, Option.bind_eq_some_iff] at hread
          obtain ⟨⟨rest, phase₂, pending'⟩, hrest, hmk⟩ := hread
          obtain ⟨rfl, -⟩ : m' :: rest = ms ∧ _ := by simpa using hmk
          refine ⟨?_, read_postHello_ne_hello codec hrest⟩
          simp only [decodeHelloFrame] at hm'
          split at hm'
          · obtain ⟨hello, -, rfl⟩ := Option.map_eq_some_iff.mp hm'
            exact ⟨hello, rfl⟩
          · cases hm'

/-- **Every cut of a readable connection reads the same.** Handing the bytes of a
connection to a fresh parser in any buffers returns each time, delivers the
messages of the one-pass reader and holds the bytes of its unfinished last frame. -/
theorem feed_eq_readStream (stream : Bytes) (bufs : List Bytes)
    (messages : List CompleteMessage) (pending : Bytes) (hbufs : bufs.flatten = stream)
    (hread : readStream codec stream = some (messages, pending)) :
    ∃ (parser : BepDataParser) (delivered : List (List CompleteMessage)),
      BepDataParser.new.feed codec bufs = .ok (parser, delivered.map .ok) ∧
      delivered.flatten = messages ∧ parser.heldBytes = pending ∧ HelloFirst messages := by
  have hfirst := helloFirst_of_readStream codec hread
  obtain ⟨⟨ms, phase', p⟩, hread', heq⟩ := Option.map_eq_some_iff.mp hread
  obtain ⟨rfl, rfl⟩ := Prod.mk.inj heq
  subst hbufs
  obtain ⟨delivered, hfeed, hflat⟩ :=
    feed_stateOf codec bufs .preHello [] ms phase' p (cut_nil codec .preHello) hread'
  exact ⟨stateOf codec phase' p, delivered, hfeed, hflat, heldBytes_stateOf codec phase' p,
    hfirst⟩

/-- Witness: a hello, two messages and the first byte of a third, in five pieces. -/
theorem feed_eq_readStream_split :
    ∃ (parser : BepDataParser) (delivered : List (List CompleteMessage)),
      BepDataParser.new.feed shortMessages
        [[0x2e], [], [0xa7, 0xd9, 0x0b, 0, 0, 0], [0, 0, 0, 0, 0, 0, 2, 8], [6, 0, 0, 0, 0, 0]] =
          .ok (parser, delivered.map .ok) ∧
      delivered.flatten = [.hello {}, .clusterConfig {}, .ping {}] ∧ parser.heldBytes = [0] ∧
      HelloFirst [.hello {}, .clusterConfig {}, .ping {}] :=
  feed_eq_readStream shortMessages
    [0x2e, 0xa7, 0xd9, 0x0b, 0, 0, 0, 0, 0, 0, 0, 0, 0, 2, 8, 6, 0, 0, 0, 0, 0] _ _ _ rfl
    (by decide)

end Grizol.Analysis
