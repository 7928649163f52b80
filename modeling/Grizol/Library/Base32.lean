import Mathlib.Algebra.Ring.Nat
import Mathlib.Data.List.Basic
import Mathlib.Data.List.GetD
import Mathlib.Data.List.Induction
import Mathlib.Tactic.Common

/-!
# Base 32

The text form of byte strings of RFC 4648: the bits of the bytes in groups of five,
the last one filled up with zeros, each group a symbol of a 32-letter alphabet, and
`=` up to a multiple of eight symbols.

`decode` is strict: it accepts the encodings and nothing else (`decode_eq_ok_iff`), in
particular no text whose last symbol carries a bit beyond the last byte.
-/

set_option autoImplicit false

namespace Grizol.Library.Base32

/-- The low `w` bits of `n`, most significant first. -/
def toBits : ℕ → ℕ → List Bool
  | 0, _ => []
  | w + 1, n => toBits w (n / 2) ++ [n % 2 == 1]

/-- The number that bits spell. -/
def ofBits (bits : List Bool) : ℕ := bits.foldl (fun acc b => 2 * acc + b.toNat) 0

/-- A number has as many bits as asked for. -/
@[simp] theorem length_toBits (w n : ℕ) : (toBits w n).length = w := by
  induction w generalizing n with
  | zero => rfl
  | succ w ih => simp [toBits, ih]

/-- A last bit doubles the number and is added. -/
theorem ofBits_append_singleton (bits : List Bool) (b : Bool) :
    ofBits (bits ++ [b]) = 2 * ofBits bits + b.toNat := by
  simp [ofBits, List.foldl_append]

/-- Bits of the width of a number spell it. -/
theorem ofBits_toBits {w n : ℕ} (h : n < 2 ^ w) : ofBits (toBits w n) = n := by
  induction w generalizing n with
  | zero =>
      have hn : n = 0 := by simpa using h
      simp [toBits, ofBits, hn]
  | succ w ih =>
      have hhalf : n / 2 < 2 ^ w := by
        rw [Nat.pow_succ] at h
        omega
      rw [toBits, ofBits_append_singleton, ih hhalf]
      rcases Nat.mod_two_eq_zero_or_one n with hmod | hmod <;> simp [hmod] <;> omega

/-- Bits are those of the number they spell. -/
theorem toBits_ofBits (bits : List Bool) : toBits bits.length (ofBits bits) = bits := by
  induction bits using List.reverseRecOn with
  | nil => rfl
  | append_singleton bits b ih =>
      rw [ofBits_append_singleton, List.length_append, List.length_singleton, toBits]
      cases b
      · simp [ih]
      · have hhalf : (2 * ofBits bits + true.toNat) / 2 = ofBits bits := by simp; omega
        rw [hhalf, ih]
        simp

/-- The bits bound the number. -/
theorem ofBits_lt (bits : List Bool) : ofBits bits < 2 ^ bits.length := by
  induction bits using List.reverseRecOn with
  | nil => simp [ofBits]
  | append_singleton bits b ih =>
      rw [ofBits_append_singleton, List.length_append, List.length_singleton, Nat.pow_succ]
      cases b <;> simp <;> omega

/-- The groups of five bits, the last one filled up with zeros. -/
def quintets : List Bool → List ℕ
  | [] => []
  | [a] => [ofBits [a, false, false, false, false]]
  | [a, b] => [ofBits [a, b, false, false, false]]
  | [a, b, c] => [ofBits [a, b, c, false, false]]
  | [a, b, c, d] => [ofBits [a, b, c, d, false]]
  | a :: b :: c :: d :: e :: rest => ofBits [a, b, c, d, e] :: quintets rest

/-- The bytes of the full groups of eight bits. -/
def octets : List Bool → List UInt8
  | a :: b :: c :: d :: e :: f :: g :: h :: rest =>
      UInt8.ofNat (ofBits [a, b, c, d, e, f, g, h]) :: octets rest
  | _ => []

/-- The bits of bytes, high ones first. -/
def bitsOf (bytes : List UInt8) : List Bool := bytes.flatMap fun b => toBits 8 b.toNat

/-- The bits of the groups are the bits grouped and fewer than five zeros. -/
theorem flatMap_quintets (bits : List Bool) :
    ∃ k < 5, (quintets bits).flatMap (toBits 5) = bits ++ List.replicate k false := by
  fun_induction quintets bits with
  | case1 => exact ⟨0, by omega, rfl⟩
  | case2 a => exact ⟨4, by omega, by simpa using toBits_ofBits [a, false, false, false, false]⟩
  | case3 a b => exact ⟨3, by omega, by simpa using toBits_ofBits [a, b, false, false, false]⟩
  | case4 a b c => exact ⟨2, by omega, by simpa using toBits_ofBits [a, b, c, false, false]⟩
  | case5 a b c d => exact ⟨1, by omega, by simpa using toBits_ofBits [a, b, c, d, false]⟩
  | case6 a b c d e rest ih =>
      obtain ⟨k, hk, hrest⟩ := ih
      have hfive := toBits_ofBits [a, b, c, d, e]
      refine ⟨k, hk, ?_⟩
      rw [List.flatMap_cons, hrest, show toBits 5 (ofBits [a, b, c, d, e]) = [a, b, c, d, e] from
        hfive]
      rfl

/-- The last group of five need not be full. -/
theorem length_quintets (bits : List Bool) : (quintets bits).length = (bits.length + 4) / 5 := by
  fun_induction quintets bits with
  | case6 a b c d e rest ih => simp only [List.length_cons, ih]; omega
  | _ => simp

/-- A group of five bits is below 32. -/
theorem lt_of_mem_quintets {bits : List Bool} {n : ℕ} (h : n ∈ quintets bits) : n < 32 := by
  have hfive : ∀ a b c d e : Bool, ofBits [a, b, c, d, e] < 32 :=
    fun a b c d e => ofBits_lt [a, b, c, d, e]
  fun_induction quintets bits with
  | case1 => cases h
  | case6 a b c d e rest ih =>
      rcases List.mem_cons.mp h with rfl | hrest
      · exact hfive a b c d e
      · exact ih hrest
  | _ =>
      obtain rfl := List.mem_singleton.mp h
      exact hfive _ _ _ _ _

/-- Each byte has eight bits. -/
@[simp] theorem length_bitsOf (bytes : List UInt8) : (bitsOf bytes).length = 8 * bytes.length := by
  induction bytes with
  | nil => rfl
  | cons b bytes ih =>
      rw [bitsOf, List.flatMap_cons, List.length_append, length_toBits, List.length_cons]
      change 8 + (bitsOf bytes).length = _
      omega

/-- The full groups of eight of the bits of bytes are the bytes, whatever short rest
follows. -/
theorem octets_bitsOf (bytes : List UInt8) {rest : List Bool} (h : rest.length < 8) :
    octets (bitsOf bytes ++ rest) = bytes := by
  induction bytes with
  | nil =>
      change octets rest = []
      unfold octets
      split
      · simp only [List.length_cons] at h
        omega
      · rfl
  | cons b bytes ih =>
      have hbits : ∃ a b₁ c d e f g h, toBits 8 b.toNat = [a, b₁, c, d, e, f, g, h] :=
        ⟨_, _, _, _, _, _, _, _, rfl⟩
      obtain ⟨a, b₁, c, d, e, f, g, h, height⟩ := hbits
      have hbyte : UInt8.ofNat (ofBits [a, b₁, c, d, e, f, g, h]) = b := by
        rw [← height, ofBits_toBits b.toNat_lt, UInt8.ofNat_toNat]
      show octets ((toBits 8 b.toNat ++ bitsOf bytes) ++ rest) = b :: bytes
      rw [height]
      show UInt8.ofNat (ofBits [a, b₁, c, d, e, f, g, h]) :: octets (bitsOf bytes ++ rest) = _
      rw [hbyte, ih]

/-! ## The text -/

/-- The symbols for the numbers below 32. -/
def alphabet : List Char :=
  ['A', 'B', 'C', 'D', 'E', 'F', 'G', 'H', 'I', 'J', 'K', 'L', 'M', 'N', 'O', 'P', 'Q', 'R', 'S',
    'T', 'U', 'V', 'W', 'X', 'Y', 'Z', '2', '3', '4', '5', '6', '7']

/-- What is checked of each symbol. -/
theorem forall_mem_alphabet {P : Char → Prop} [DecidablePred P]
    (h : alphabet.all (fun c => decide (P c)) = true) : ∀ c ∈ alphabet, P c := by
  intro c hc
  exact of_decide_eq_true (List.all_eq_true.mp h c hc)

/-- The symbol of a number. -/
def symbol (n : ℕ) : Char := alphabet.getD n 'A'

/-- Every symbol is of the alphabet. -/
theorem symbol_mem (n : ℕ) : symbol n ∈ alphabet := by
  unfold symbol
  by_cases h : n < alphabet.length
  · rw [List.getD_eq_getElem _ _ h]
    exact List.getElem_mem h
  · rw [List.getD_eq_default _ _ (Nat.not_lt.mp h)]
    exact List.mem_cons_self

/-- The symbols of the numbers below 32 differ. -/
theorem idxOf_symbol {n : ℕ} (h : n < 32) : alphabet.idxOf (symbol n) = n := by
  have hall : ∀ n < 32, alphabet.idxOf (symbol n) = n := by decide
  exact hall n h

/-- The symbols of an encoding, without its padding. -/
def symbols (bytes : List UInt8) : List Char := (quintets (bitsOf bytes)).map symbol

/-- The padding behind `k` symbols. -/
def padding (k : ℕ) : List Char := List.replicate ((8 - k % 8) % 8) '='

/-- The text of bytes: their bits in groups of five, and the padding. -/
def encode (bytes : List UInt8) : List Char :=
  symbols bytes ++ padding (symbols bytes).length

/-- The bytes a text encodes, if it encodes any. -/
def bytesOf (text : List Char) : List UInt8 :=
  octets ((text.filter (· != '=')).flatMap fun c => toBits 5 (alphabet.idxOf c))

/-- The bytes of a text, which has to be the one that encodes them. -/
def decode (text : List Char) : Except String (List UInt8) :=
  if encode (bytesOf text) = text then .ok (bytesOf text) else .error "invalid encoding"

/-- The text of bytes has only symbols of the alphabet, up to the padding. -/
theorem mem_alphabet_of_mem_symbols {bytes : List UInt8} {c : Char} (h : c ∈ symbols bytes) :
    c ∈ alphabet := by
  obtain ⟨n, -, rfl⟩ := List.mem_map.mp h
  exact symbol_mem n

/-- How many symbols bytes have. -/
theorem length_symbols (bytes : List UInt8) :
    (symbols bytes).length = (8 * bytes.length + 4) / 5 := by
  rw [symbols, List.length_map, length_quintets, length_bitsOf]

/-- The padding is no symbol. -/
theorem ne_padding_of_mem {c : Char} (h : c ∈ alphabet) : c ≠ '=' := by
  rintro rfl
  exact absurd h (by decide)

/-- Symbols followed by padding are told apart from it. -/
theorem filter_padded {text : List Char} (h : ∀ c ∈ text, c ∈ alphabet) (k : ℕ) :
    (text ++ List.replicate k '=').filter (· != '=') = text := by
  have htext : text.filter (· != '=') = text :=
    List.filter_eq_self.mpr fun c hc => by simpa using ne_padding_of_mem (h c hc)
  have hpad : (List.replicate k '=').filter (· != '=') = [] := by simp
  rw [List.filter_append, htext, hpad, List.append_nil]

/-- The bytes are read back from their text. -/
theorem bytesOf_encode (bytes : List UInt8) : bytesOf (encode bytes) = bytes := by
  have hsymbols : (encode bytes).filter (· != '=') = symbols bytes :=
    filter_padded (fun c hc => mem_alphabet_of_mem_symbols hc) _
  have hbits : (symbols bytes).flatMap (fun c => toBits 5 (alphabet.idxOf c)) =
      (quintets (bitsOf bytes)).flatMap (toBits 5) := by
    rw [symbols, List.flatMap_map]
    refine List.flatMap_congr fun n hn => ?_
    exact congrArg (toBits 5) (idxOf_symbol (lt_of_mem_quintets hn))
  obtain ⟨k, hk, hquintets⟩ := flatMap_quintets (bitsOf bytes)
  rw [bytesOf, hsymbols, hbits, hquintets]
  exact octets_bitsOf bytes (by rw [List.length_replicate]; omega)

/-- **Strict decoding accepts the encodings and nothing else.** -/
theorem decode_eq_ok_iff {text : List Char} {bytes : List UInt8} :
    decode text = .ok bytes ↔ encode bytes = text := by
  unfold decode
  constructor
  · intro h
    split at h
    case isTrue henc =>
      rw [← Except.ok.inj h]
      exact henc
    case isFalse => cases h
  · rintro rfl
    rw [bytesOf_encode, if_pos rfl]

end Grizol.Library.Base32
