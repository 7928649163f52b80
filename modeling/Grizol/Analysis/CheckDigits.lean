import Mathlib.Data.ZMod.Basic
import Grizol.Library.CheckDigit
import Grizol.Analysis.DeviceIdText
import Grizol.Interface.CheckDigits

/-!
# Which typing errors the check digits notice

With the check digit at its end the code points of a group add up to nothing modulo 32, those
at odd positions doubled and folded (`checkSum_of_checks`). Doubling and folding is a
permutation, and adds the same to no two symbols but `A` and `7`.
-/

set_option autoImplicit false

namespace Grizol.Analysis

open Grizol.Library Grizol.Library.Base32
open Grizol.Model Grizol.Interface

/-! ## The weights -/

/-- The sum of the two digits of twice a code point. -/
def foldDouble (codepoint : ℕ) : ℕ := 2 * codepoint / 32 + 2 * codepoint % 32

/-- What a symbol of a group counts for; the last is the check digit. -/
def luhnWeight (i : ℕ) (c : Char) : ZMod 32 :=
  if i % 2 = 0 ∨ i = 13 then (alphabet.idxOf c : ℕ) else (foldDouble (alphabet.idxOf c) : ℕ)

/-- The alphabet has 32 characters. -/
theorem idxOf_lt_alphabet {c : Char} (hc : c ∈ alphabet) : alphabet.idxOf c < 32 :=
  List.idxOf_lt_length_iff.mpr hc

/-- The code point of a character is its place. -/
theorem codepoint32_eq {c : Char} (hc : c ∈ alphabet) :
    codepoint32 c = .ok (alphabet.idxOf c) :=
  Base32.forall_mem_alphabet (P := fun c => codepoint32 c = .ok (alphabet.idxOf c)) (by decide) c hc

/-- From 16 on, folding takes 31 off twice the code point. -/
theorem foldDouble_eq {codepoint : ℕ} (h : codepoint < 32) :
    codepoint < 16 ∧ foldDouble codepoint = 2 * codepoint ∨
      16 ≤ codepoint ∧ foldDouble codepoint + 31 = 2 * codepoint := by
  rw [foldDouble]
  omega

/-- **Every weight is a permutation.** -/
theorem luhnWeight_injective (i : ℕ) {a b : Char} (ha : a ∈ alphabet) (hb : b ∈ alphabet)
    (h : luhnWeight i a = luhnWeight i b) : a = b := by
  have hlta := idxOf_lt_alphabet ha
  have hltb := idxOf_lt_alphabet hb
  have hfolda := foldDouble_eq hlta
  have hfoldb := foldDouble_eq hltb
  apply (List.idxOf_inj ha).mp
  rw [luhnWeight, luhnWeight] at h
  split_ifs at h with hplain
  · rw [ZMod.natCast_eq_natCast_iff'] at h
    omega
  · rw [ZMod.natCast_eq_natCast_iff'] at h
    omega

/-- **The weights of neighbours tell two symbols apart**, unless they are the first and the last. -/
theorem luhnWeight_exchange {i : ℕ} (hi : i + 1 < 13) {a b : Char} (ha : a ∈ alphabet)
    (hb : b ∈ alphabet)
    (h : luhnWeight i a + luhnWeight (i + 1) b = luhnWeight i b + luhnWeight (i + 1) a) :
    a = b ∨ a = 'A' ∧ b = '7' ∨ a = '7' ∧ b = 'A' := by
  have hlta := idxOf_lt_alphabet ha
  have hltb := idxOf_lt_alphabet hb
  have hfolda := foldDouble_eq hlta
  have hfoldb := foldDouble_eq hltb
  have hcodes : alphabet.idxOf a = alphabet.idxOf b ∨
      alphabet.idxOf a = 0 ∧ alphabet.idxOf b = 31 ∨
        alphabet.idxOf a = 31 ∧ alphabet.idxOf b = 0 := by
    simp only [luhnWeight] at h
    rcases Nat.mod_two_eq_zero_or_one i with hpar | hpar
    · have hnext : ¬ ((i + 1) % 2 = 0 ∨ i + 1 = 13) := by omega
      rw [if_pos (Or.inl hpar), if_pos (Or.inl hpar), if_neg hnext, if_neg hnext, ← Nat.cast_add,
        ← Nat.cast_add, ZMod.natCast_eq_natCast_iff'] at h
      omega
    · have hthis : ¬ (i % 2 = 0 ∨ i = 13) := by omega
      have hnext : (i + 1) % 2 = 0 ∨ i + 1 = 13 := by omega
      rw [if_neg hthis, if_neg hthis, if_pos hnext, if_pos hnext, ← Nat.cast_add,
        ← Nat.cast_add, ZMod.natCast_eq_natCast_iff'] at h
      omega
  rcases hcodes with hsame | ⟨hfirst, hlast⟩ | ⟨hlast, hfirst⟩
  · exact Or.inl ((List.idxOf_inj ha).mp hsame)
  · exact Or.inr (Or.inl ⟨(List.idxOf_inj ha).mp (hfirst.trans (by decide)),
      (List.idxOf_inj hb).mp (hlast.trans (by decide))⟩)
  · exact Or.inr (Or.inr ⟨(List.idxOf_inj ha).mp (hlast.trans (by decide)),
      (List.idxOf_inj hb).mp (hfirst.trans (by decide))⟩)

/-! ## The sum of a group -/

/-- The loop of `luhn32` adds up the weights. -/
theorem luhnSum_eq (s : List Char) : ∀ (i sum n : ℕ), (∀ c ∈ s, c ∈ alphabet) →
    i + s.length ≤ 13 →
    luhnSum (if i % 2 = 0 then 1 else 2) sum s = .ok (.ok n) →
    (n : ZMod 32) = sum + checkSum luhnWeight i s := by
  induction s with
  | nil =>
      intro i sum n _ _ h
      obtain rfl := Except.ok.inj (Except.ok.inj h)
      rw [checkSum, add_zero]
  | cons c s ih =>
      intro i sum n hall hlen h
      rw [List.length_cons] at hlen
      have hc := hall c List.mem_cons_self
      have hlt := idxOf_lt_alphabet hc
      rw [luhnSum, codepoint32_eq hc] at h
      obtain ⟨sum', hadd, hrest⟩ := Rust.bind_eq_ok.mp h
      have hfactor : (if (if i % 2 = 0 then 1 else 2) = 2 then 1 else 2) =
          if (i + 1) % 2 = 0 then 1 else 2 := by
        split_ifs <;> omega
      rw [hfactor] at hrest
      have hn := ih (i + 1) sum' n (fun d hd => hall d (List.mem_cons_of_mem _ hd)) (by omega) hrest
      rw [hn, ← Rust.add_eq_ok hadd, checkSum, Nat.cast_add, add_assoc]
      congr 2
      rw [luhnWeight]
      split_ifs with hpar hplain hplain
      · rw [Nat.one_mul, Nat.div_eq_of_lt hlt, Nat.mod_eq_of_lt hlt, Nat.zero_add]
      · exact absurd (Or.inl hpar) hplain
      · omega
      · rfl

/-- A place of the alphabet is that of its character. -/
theorem idxOf_of_index {n : ℕ} {c : Char} (h : Rust.index luhnBase32 n = .ok c) (hn : n < 32) :
    alphabet.idxOf c = n := by
  have hget : alphabet[n]? = some c := Rust.index_eq_ok.mp h
  have hsymbol : symbol n = c := by rw [symbol, List.getD_eq_getElem?_getD, hget, Option.getD_some]
  rw [← hsymbol, idxOf_symbol hn]

/-- **A group that checks adds up to nothing.** -/
theorem checkSum_of_checks {g : List Char × Char} (hlen : g.1.length = 13) (h : Checks g) :
    checkSum luhnWeight 0 (g.1 ++ [g.2]) = 0 := by
  obtain ⟨r, hr, hok, -⟩ := luhn32_returns hlen
  obtain rfl : r = .ok g.2 := Except.ok.inj (hr.symm.trans h)
  obtain ⟨hdigit, hall⟩ := hok g.2 rfl
  obtain ⟨r, hsum, hrest⟩ := Rust.bind_eq_ok.mp h
  cases r with
  | error e => cases Except.ok.inj hrest
  | ok n =>
      obtain ⟨digit, hindex, hrest⟩ := Rust.bind_eq_ok.mp hrest
      obtain rfl : digit = g.2 := Except.ok.inj (Except.ok.inj hrest)
      have hn : (n : ZMod 32) = (0 : ℕ) + checkSum luhnWeight 0 g.1 :=
        luhnSum_eq g.1 0 0 n hall (by omega) hsum
      have hcode : alphabet.idxOf g.2 = (32 - n % 32) % 32 :=
        idxOf_of_index hindex (Nat.mod_lt _ (by decide))
      rw [checkSum_append, checkSum, checkSum, add_zero, hlen, luhnWeight,
        if_pos (Or.inr (Nat.zero_add 13)), hcode]
      rw [Nat.cast_zero, zero_add] at hn
      rw [← hn, ← Nat.cast_add, ZMod.natCast_eq_zero_iff]
      omega

/-! ## The text -/

/-- The characters of a group, with its check digit. -/
def groupOf (s : List Char) (k : ℕ) : List Char := (s.drop (14 * k)).take 14

/-- The groups of the checked text. -/
theorem groupOf_checked {groups : List (List Char × Char)} (hlens : ∀ g ∈ groups, g.1.length = 13) :
    ∀ {k : ℕ} {g : List Char × Char}, groups[k]? = some g →
      groupOf (checkedOf groups) k = g.1 ++ [g.2] := by
  induction groups with
  | nil =>
      intro k g hg
      cases hg
  | cons g₀ groups ih =>
      intro k g hg
      have hlen : (g₀.1 ++ [g₀.2]).length = 14 := by
        rw [List.length_append, hlens g₀ List.mem_cons_self, List.length_singleton]
      have hchecked : checkedOf (g₀ :: groups) = (g₀.1 ++ [g₀.2]) ++ checkedOf groups := rfl
      rw [groupOf, hchecked]
      cases k with
      | zero =>
          obtain rfl : g₀ = g := Option.some.inj hg
          rw [Nat.mul_zero, List.drop_zero, List.take_left' hlen]
      | succ k =>
          rw [Nat.mul_succ, Nat.add_comm, ← List.drop_drop, List.drop_left' hlen]
          exact ih (fun g hg => hlens g (List.mem_cons_of_mem _ hg)) hg

/-- **Every group of an accepted text adds up to nothing.** -/
theorem checkSum_of_accepted {s t : List Char} (hascii : ∀ c ∈ s, c.toNat < 128)
    (h : unluhnify s = .ok (.ok t)) {k : ℕ} (hk : k < 4) :
    checkSum luhnWeight 0 (groupOf s k) = 0 := by
  obtain ⟨r, hr, hok⟩ := unluhnify_returns hascii
  obtain ⟨groups, hgroups, rfl, -⟩ := hok t (Except.ok.inj (hr.symm.trans h))
  have hlt : k < groups.length := by
    rw [hgroups.four]
    exact hk
  have hmem : groups[k] ∈ groups := List.getElem_mem hlt
  rw [groupOf_checked hgroups.thirteen (List.getElem?_eq_getElem hlt)]
  exact checkSum_of_checks (hgroups.thirteen _ hmem) (hgroups.checks _ hmem)

/-- A text whose sum of a group has changed is refused. -/
theorem refused_of_checkSum {s s' t : List Char} (hascii : ∀ c ∈ s, c.toNat < 128)
    (hascii' : ∀ c ∈ s', c.toNat < 128) (h : unluhnify s = .ok (.ok t)) {k : ℕ} (hk : k < 4)
    (hne : checkSum luhnWeight 0 (groupOf s' k) ≠ checkSum luhnWeight 0 (groupOf s k)) :
    Refused s' := by
  obtain ⟨r, hr, -⟩ := unluhnify_returns hascii'
  cases r with
  | error e => exact ⟨e, hr⟩
  | ok t' =>
      rw [checkSum_of_accepted hascii h hk, checkSum_of_accepted hascii' hr hk] at hne
      exact absurd rfl hne

/-- A changed character changes its group. -/
theorem groupOf_set (s : List Char) (i : ℕ) (c : Char) :
    groupOf (s.set i c) (i / 14) = (groupOf s (i / 14)).set (i % 14) c := by
  have hle : ¬ i < 14 * (i / 14) := by omega
  have hsub : i - 14 * (i / 14) = i % 14 := by omega
  rw [groupOf, groupOf, List.drop_set, if_neg hle, List.take_set, hsub]

/-- A character is in its group. -/
theorem getElem?_groupOf (s : List Char) (i : ℕ) : (groupOf s (i / 14))[i % 14]? = s[i]? := by
  have hadd : 14 * (i / 14) + i % 14 = i := Nat.div_add_mod i 14
  rw [groupOf, List.getElem?_take_of_lt (Nat.mod_lt i (by decide)), List.getElem?_drop, hadd]

/-- A character has at least one byte. -/
theorem length_le_byteLen (s : List Char) : s.length ≤ byteLen s := by
  induction s with
  | nil => exact Nat.le_refl 0
  | cons c s ih =>
      have hcons : byteLen (c :: s) = c.utf8Size + byteLen s := rfl
      have hpos := Char.utf8Size_pos c
      rw [hcons, List.length_cons]
      omega

/-- A text with as many bytes as characters is ASCII. -/
theorem ascii_of_byteLen {s : List Char} (h : byteLen s = s.length) :
    ∀ c ∈ s, c.toNat < 128 := by
  induction s with
  | nil =>
      intro c hc
      cases hc
  | cons c s ih =>
      have hle : s.length ≤ byteLen s := length_le_byteLen s
      have hcons : byteLen (c :: s) = c.utf8Size + byteLen s := rfl
      have hpos := Char.utf8Size_pos c
      rw [hcons, List.length_cons] at h
      refine List.forall_mem_cons.mpr ⟨?_, ih (by omega)⟩
      have hone : c.utf8Size = 1 := by omega
      exact Nat.lt_succ_of_le (UInt32.le_iff_toNat_le.mp (Char.utf8Size_eq_one_iff.mp hone))

/-- A text of 56 characters that is accepted is one of symbols. -/
theorem alphabet_of_accepted {s t : List Char} (hlen : s.length = 56)
    (h : unluhnify s = .ok (.ok t)) : ∀ c ∈ s, c ∈ alphabet := by
  have hbytes : byteLen s = 56 := by
    by_contra hne
    rw [unluhnify, if_pos hne] at h
    cases Except.ok.inj h
  have hascii : ∀ c ∈ s, c.toNat < 128 := by
    rw [← hlen] at hbytes
    exact ascii_of_byteLen hbytes
  obtain ⟨r, hr, hok⟩ := unluhnify_returns hascii
  obtain ⟨groups, hgroups, rfl, -⟩ := hok t (Except.ok.inj (hr.symm.trans h))
  exact fun c hc => hgroups.alphabet hc

/-- **The check digits notice typing errors.** Of every text that `unluhnify` accepts, a text that
differs in one symbol is refused, and so is one with two different neighbours of a group
exchanged, unless they are `A` and `7`. -/
theorem notices_of_accepted (s : List Char) (hlen : s.length = 56) {t : List Char}
    (h : unluhnify s = .ok (.ok t)) : NoticesReplaced s ∧ NoticesExchanged s := by
  have hsymbols := alphabet_of_accepted hlen h
  have hascii : ∀ c ∈ s, c.toNat < 128 := fun c hc => ascii_of_alphabet (hsymbols c hc)
  have hset : ∀ {s : List Char}, (∀ c ∈ s, c.toNat < 128) → ∀ i, ∀ c ∈ alphabet,
      ∀ d ∈ s.set i c, d.toNat < 128 := by
    intro s hs i c hc d hd
    rcases List.mem_or_eq_of_mem_set hd with hd | rfl
    · exact hs d hd
    · exact ascii_of_alphabet hc
  constructor
  · intro i hi c hc hne
    have hget := List.getElem?_eq_getElem hi
    have hmem : s[i] ∈ alphabet := hsymbols _ (List.getElem_mem hi)
    refine refused_of_checkSum hascii (hset hascii i c hc) h (by omega : i / 14 < 4) ?_
    rw [groupOf_set]
    refine checkSum_set_ne ((getElem?_groupOf s i).trans hget) ?_
    intro hsame
    rw [hget, ne_eq, Option.some_inj] at hne
    exact hne (luhnWeight_injective _ hc hmem hsame).symm
  · intro i a b hi ha hb hne hfirst hlast
    have hlt : i + 1 < 56 := by
      rw [← hlen]
      exact (List.getElem?_eq_some_iff.mp hb).1
    have hmema : a ∈ alphabet := hsymbols a (List.mem_of_getElem? ha)
    have hmemb : b ∈ alphabet := hsymbols b (List.mem_of_getElem? hb)
    have hgroup : (i + 1) / 14 = i / 14 := by omega
    have hplace : (i + 1) % 14 = i % 14 + 1 := by omega
    refine refused_of_checkSum hascii (hset (hset hascii i b hmemb) (i + 1) a hmema) h
      (by omega : i / 14 < 4) ?_
    have hnext := getElem?_groupOf s (i + 1)
    have hexchanged := groupOf_set (s.set i b) (i + 1) a
    rw [hgroup, hplace] at hnext hexchanged
    rw [hexchanged, groupOf_set]
    refine checkSum_exchange_ne ((getElem?_groupOf s i).trans ha) (hnext.trans hb) ?_
    intro hsame
    rw [Nat.zero_add, Nat.zero_add] at hsame
    rcases luhnWeight_exchange hi hmema hmemb hsame with heq | hends | hends
    · exact hne heq
    · exact hfirst hends
    · exact hlast hends

/-- Witness: the characters of an id, in which neighbours differ. -/
theorem notices_of_accepted_id :
    NoticesReplaced "P56IOI7MZJNU2YIQGDREYDM2MGTIMGL3BXNPQ6W5BMTBBZ4TJXZWICQ2".toList ∧
      NoticesExchanged "P56IOI7MZJNU2YIQGDREYDM2MGTIMGL3BXNPQ6W5BMTBBZ4TJXZWICQ2".toList :=
  @notices_of_accepted _ (by decide +kernel)
    "P56IOI7MZJNU2IQGDREYDM2MGTMGL3BXNPQ6W5BTBBZ4TJXZWICQ".toList (by decide +kernel)

end Grizol.Analysis
