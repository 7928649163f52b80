import Grizol.Interface.DeviceIdText

/-!
# Device ids and their text form

A text of 56 symbols is four groups of 13 symbols with a check digit each. `luhnify`
writes the digits (`luhnifyLoop_checked`), `unluhnify` accepts the texts whose digits
are the ones it would write and drops them (`unluhnifyLoop_groups`), and `chunkify`
puts dashes between its eight groups of seven (`chunkify_groups`). With a strict base
32 this makes the text of an id and the normal form of what is read the same thing.
-/

set_option autoImplicit false

namespace Grizol.Analysis

open Grizol.Library Grizol.Interface
open Grizol.Model
open Grizol.Library.Base32 (alphabet)

/-! ## Characters -/

/-- What holds of the first 128 characters holds of every ASCII character. -/
theorem ascii_induction {P : Char → Prop} (h : ∀ n < 128, P (Char.ofNat n)) {c : Char}
    (hc : c.toNat < 128) : P c := by
  have hchar := h c.toNat hc
  rwa [Char.ofNat_toNat] at hchar

/-- A character of ASCII is one byte. -/
theorem utf8Size_of_ascii {c : Char} (hc : c.toNat < 128) : c.utf8Size = 1 := by
  have hle : c.toNat ≤ 127 := by omega
  rw [Char.utf8Size_eq_one_iff]
  exact UInt32.le_iff_toNat_le.mpr hle

/-- Its upper case is of ASCII too. -/
theorem toUpper_ascii {c : Char} (hc : c.toNat < 128) : c.toUpper.toNat < 128 :=
  ascii_induction (P := fun c => c.toUpper.toNat < 128) (by decide) hc

/-- And so is what a typo stands for. -/
theorem correctTypo_ascii {c : Char} (hc : c.toNat < 128) : (correctTypo c).toNat < 128 :=
  ascii_induction (P := fun c => (correctTypo c).toNat < 128) (by decide) hc

/-- The alphabet is of ASCII. -/
theorem ascii_of_alphabet {c : Char} (hc : c ∈ alphabet) : c.toNat < 128 :=
  Base32.forall_mem_alphabet (P := fun c => c.toNat < 128) (by decide) c hc

/-- Symbols are written as they are read. -/
theorem read_of_alphabet {c : Char} (hc : c ∈ alphabet) :
    c.toUpper = c ∧ c ≠ '-' ∧ c ≠ ' ' ∧ correctTypo c = c :=
  Base32.forall_mem_alphabet (P := fun c => c.toUpper = c ∧ c ≠ '-' ∧ c ≠ ' ' ∧ correctTypo c = c)
    (by decide) c hc

/-- The length of an ASCII text in bytes is its number of characters. -/
theorem byteLen_of_ascii {s : List Char} (h : ∀ c ∈ s, c.toNat < 128) : byteLen s = s.length := by
  induction s with
  | nil => rfl
  | cons c s ih =>
      have hs := ih fun c hc => h c (List.mem_cons_of_mem _ hc)
      unfold byteLen at hs ⊢
      rw [List.map_cons, List.sum_cons, utf8Size_of_ascii (h c List.mem_cons_self), hs,
        List.length_cons, Nat.add_comm]

/-! ## Check digits -/

/-- The symbols are the characters with a code point. -/
theorem codepoint32_of_alphabet {c : Char} (hc : c ∈ alphabet) :
    ∃ n < 32, codepoint32 c = .ok n :=
  Base32.forall_mem_alphabet (P := fun c => ∃ n < 32, codepoint32 c = .ok n) (by decide) c hc

/-- Only characters of the alphabet have a code point. -/
theorem alphabet_of_codepoint32 {c : Char} {n : ℕ} (h : codepoint32 c = .ok n) : c ∈ alphabet := by
  have hascii : ∀ {a b : Char}, b.toNat < 128 → a ≤ c ∧ c ≤ b → c.toNat < 128 :=
    fun hb hc => lt_of_le_of_lt (UInt32.le_iff_toNat_le.mp hc.2) hb
  unfold codepoint32 at h
  split at h
  case isTrue hupper =>
    exact ascii_induction (P := fun c => 'A' ≤ c ∧ c ≤ 'Z' → c ∈ alphabet) (by decide)
      (hascii (by decide) hupper) hupper
  case isFalse =>
    split at h
    case isTrue hdigit =>
      exact ascii_induction (P := fun c => '2' ≤ c ∧ c ≤ '7' → c ∈ alphabet) (by decide)
        (hascii (by decide) hdigit) hdigit
    case isFalse => cases h

/-- The loop of `luhn32` sums up without overflow; it gives up exactly on a character
that is no symbol. -/
theorem luhnSum_returns (s : List Char) :
    ∀ factor sum : ℕ, factor ≤ 2 → sum + 64 * s.length < 2 ^ 32 →
      ∃ r, luhnSum factor sum s = .ok r ∧ ((∃ n, r = .ok n) ↔ ∀ c ∈ s, c ∈ alphabet) := by
  induction s with
  | nil =>
      intro factor sum _ _
      exact ⟨.ok sum, rfl, by simp⟩
  | cons c s ih =>
      intro factor sum hfactor hsum
      rw [List.length_cons] at hsum
      cases hc : codepoint32 c with
      | error e =>
          refine ⟨.error e, by simp [luhnSum, hc], ?_⟩
          constructor
          · rintro ⟨n, hn⟩
            cases hn
          · intro hall
            obtain ⟨n, -, hn⟩ := codepoint32_of_alphabet (hall c List.mem_cons_self)
            rw [hc] at hn
            cases hn
      | ok codepoint =>
          have hmem := alphabet_of_codepoint32 hc
          obtain ⟨n, hlt, hn⟩ := codepoint32_of_alphabet hmem
          obtain rfl : codepoint = n := Except.ok.inj (hc.symm.trans hn)
          have hproduct : factor * codepoint ≤ 2 * 31 := Nat.mul_le_mul hfactor (by omega)
          have haddend : factor * codepoint / 32 + factor * codepoint % 32 ≤ 64 := by omega
          have hadd : Rust.add 32 sum (factor * codepoint / 32 + factor * codepoint % 32) =
              .ok (sum + (factor * codepoint / 32 + factor * codepoint % 32)) :=
            Rust.add_of_lt (by omega)
          obtain ⟨r, hr, hiff⟩ := ih (if factor = 2 then 1 else 2)
            (sum + (factor * codepoint / 32 + factor * codepoint % 32))
            (by split <;> omega) (by omega)
          refine ⟨r, by simp only [luhnSum, hc, hadd, Rust.ok_bind, hr], ?_⟩
          rw [hiff, List.forall_mem_cons]
          exact (and_iff_right hmem).symm

/-- The check digit of a group of symbols is a symbol, and only symbols have one. -/
theorem luhn32_returns {s : List Char} (hlen : s.length = 13) :
    ∃ r, luhn32 s = .ok r ∧ (∀ l, r = .ok l → l ∈ alphabet ∧ ∀ c ∈ s, c ∈ alphabet) ∧
      ((∀ c ∈ s, c ∈ alphabet) → ∃ l, r = .ok l) := by
  obtain ⟨r, hr, hiff⟩ := luhnSum_returns s 1 0 (by omega) (by omega)
  cases r with
  | error e =>
      refine ⟨.error e, by simp [luhn32, hr], by simp, ?_⟩
      intro hall
      obtain ⟨n, hn⟩ := hiff.mpr hall
      cases hn
  | ok sum =>
      have hlt : (32 - sum % 32) % 32 < luhnBase32.length := Nat.mod_lt _ (by decide)
      have hindex : Rust.index luhnBase32 ((32 - sum % 32) % 32) =
          .ok luhnBase32[(32 - sum % 32) % 32] := by
        simp [Rust.index, List.getElem?_eq_getElem hlt]
      refine ⟨.ok luhnBase32[(32 - sum % 32) % 32], ?_, ?_, fun _ => ⟨_, rfl⟩⟩
      · simp only [luhn32, hr, Rust.ok_bind, hindex, Rust.pure_eq_ok]
      · intro l hl
        obtain rfl := Except.ok.inj hl
        exact ⟨List.getElem_mem hlt, hiff.mp ⟨sum, rfl⟩⟩

/-- The symbols of groups with check digits. -/
def symbolsOf (groups : List (List Char × Char)) : List Char := (groups.map Prod.fst).flatten

/-- The text of groups with check digits. -/
def checkedOf (groups : List (List Char × Char)) : List Char :=
  (groups.map fun g => g.1 ++ [g.2]).flatten

/-- The digit of the group is the one `luhn32` computes. -/
def Checks (g : List Char × Char) : Prop := luhn32 g.1 = .ok (.ok g.2)

/-- The symbols of groups of thirteen. -/
theorem length_symbolsOf {groups : List (List Char × Char)} (h : ∀ g ∈ groups, g.1.length = 13) :
    (symbolsOf groups).length = 13 * groups.length := by
  induction groups with
  | nil => rfl
  | cons g groups ih =>
      have hrest := ih fun g hg => h g (List.mem_cons_of_mem _ hg)
      have hg := h g List.mem_cons_self
      unfold symbolsOf at hrest ⊢
      rw [List.map_cons, List.flatten_cons, List.length_append, hrest, hg, List.length_cons]
      omega

/-- With a check digit each they are fourteen. -/
theorem length_checkedOf {groups : List (List Char × Char)} (h : ∀ g ∈ groups, g.1.length = 13) :
    (checkedOf groups).length = 14 * groups.length := by
  induction groups with
  | nil => rfl
  | cons g groups ih =>
      have hrest := ih fun g hg => h g (List.mem_cons_of_mem _ hg)
      have hg := h g List.mem_cons_self
      unfold checkedOf at hrest ⊢
      rw [List.map_cons, List.flatten_cons, List.length_append, List.length_append, hrest, hg,
        List.length_singleton, List.length_cons]
      omega

/-- Checked groups consist of symbols. -/
theorem alphabet_of_checks {groups : List (List Char × Char)} (hlen : ∀ g ∈ groups, g.1.length = 13)
    (hchecks : ∀ g ∈ groups, Checks g) {c : Char} (hc : c ∈ checkedOf groups) : c ∈ alphabet := by
  obtain ⟨text, htext, hmem⟩ := List.mem_flatten.mp hc
  obtain ⟨g, hg, rfl⟩ := List.mem_map.mp htext
  obtain ⟨r, hr, hok, -⟩ := luhn32_returns (hlen g hg)
  have hdigit : r = .ok g.2 := Except.ok.inj (hr.symm.trans (hchecks g hg))
  obtain ⟨hl, hall⟩ := hok g.2 hdigit
  rcases List.mem_append.mp hmem with hsym | hcheck
  · exact hall c hsym
  · rw [List.mem_singleton.mp hcheck]
    exact hl

/-- Without the check digits no character is new. -/
theorem symbolsOf_subset (groups : List (List Char × Char)) {c : Char} (hc : c ∈ symbolsOf groups) :
    c ∈ checkedOf groups := by
  obtain ⟨text, htext, hmem⟩ := List.mem_flatten.mp hc
  obtain ⟨g, hg, rfl⟩ := List.mem_map.mp htext
  exact List.mem_flatten.mpr ⟨_, List.mem_map.mpr ⟨g, hg, rfl⟩, List.mem_append_left _ hmem⟩

/-- A text of symbols is one of checked groups. -/
theorem exists_checked (n : ℕ) : ∀ t : List Char, t.length = 13 * n → (∀ c ∈ t, c ∈ alphabet) →
    ∃ groups : List (List Char × Char), groups.length = n ∧ (∀ g ∈ groups, g.1.length = 13) ∧
      (∀ g ∈ groups, Checks g) ∧ symbolsOf groups = t := by
  induction n with
  | zero =>
      intro t hlen _
      obtain rfl : t = [] := List.length_eq_zero_iff.mp (by omega)
      exact ⟨[], rfl, by simp, by simp, rfl⟩
  | succ n ih =>
      intro t hlen hall
      obtain ⟨groups, hn, hlens, hchecks, hrest⟩ := ih (t.drop 13)
        (by rw [List.length_drop]; omega) fun c hc => hall c (List.mem_of_mem_drop hc)
      have hfirst : (t.take 13).length = 13 := by
        rw [List.length_take]
        omega
      obtain ⟨r, hr, -, hdigit⟩ := luhn32_returns hfirst
      obtain ⟨l, rfl⟩ := hdigit fun c hc => hall c (List.mem_of_mem_take hc)
      refine ⟨(t.take 13, l) :: groups, by rw [List.length_cons, hn], ?_, ?_, ?_⟩
      · exact List.forall_mem_cons.mpr ⟨hfirst, hlens⟩
      · exact List.forall_mem_cons.mpr ⟨hr, hchecks⟩
      · show t.take 13 ++ symbolsOf groups = t
        rw [hrest, List.take_append_drop]

/-- A text of the right length is one of groups, checked or not. -/
theorem exists_groups (n : ℕ) : ∀ t : List Char, t.length = 14 * n →
    ∃ groups : List (List Char × Char), groups.length = n ∧ (∀ g ∈ groups, g.1.length = 13) ∧
      checkedOf groups = t := by
  induction n with
  | zero =>
      intro t hlen
      obtain rfl : t = [] := List.length_eq_zero_iff.mp (by omega)
      exact ⟨[], rfl, by simp, rfl⟩
  | succ n ih =>
      intro t hlen
      obtain ⟨groups, hn, hlens, hrest⟩ := ih (t.drop 14) (by rw [List.length_drop]; omega)
      have hfirst : (t.take 13).length = 13 := by
        rw [List.length_take]
        omega
      obtain ⟨l, hl⟩ : ∃ l, (t.drop 13).take 1 = [l] := List.length_eq_one_iff.mp (by
        rw [List.length_take, List.length_drop]
        omega)
      refine ⟨(t.take 13, l) :: groups, by rw [List.length_cons, hn], ?_, ?_⟩
      · exact List.forall_mem_cons.mpr ⟨hfirst, hlens⟩
      · show t.take 13 ++ [l] ++ checkedOf groups = t
        have hdrop : t.drop 14 = (t.drop 13).drop 1 := by rw [List.drop_drop]
        rw [hrest, ← hl, hdrop, List.append_assoc, List.take_append_drop, List.take_append_drop]

/-- The loop of `luhnify` writes the groups that are left behind what is written. -/
theorem luhnifyLoop_checked (groups : List (List Char × Char)) :
    ∀ (i : ℕ) (before done : List Char), before.length = i * 13 → done.length = i * 14 →
      (∀ g ∈ groups, g.1.length = 13) → (∀ g ∈ groups, Checks g) →
      luhnifyLoop (before ++ symbolsOf groups) (List.range' i groups.length)
          (done ++ List.replicate (14 * groups.length) '0') =
        .ok (.ok (done ++ checkedOf groups)) := by
  induction groups with
  | nil =>
      intro i before done _ _ _ _
      rfl
  | cons g groups ih =>
      intro i before done hbefore hdone hlens hchecks
      obtain ⟨hlen, hlens'⟩ := List.forall_mem_cons.mp hlens
      obtain ⟨hcheck, hchecks'⟩ := List.forall_mem_cons.mp hchecks
      have hcheck' : luhn32 g.1 = .ok (.ok g.2) := hcheck
      have hzeros : List.replicate (14 * (g :: groups).length) '0' =
          List.replicate 13 '0' ++ '0' :: List.replicate (14 * groups.length) '0' := by
        rw [← List.replicate_succ, ← List.replicate_add, List.length_cons]
        congr 1
        omega
      have hslice : Rust.slice (before ++ g.1 ++ symbolsOf groups) (i * 13) ((i + 1) * 13) =
          .ok g.1 := Rust.slice_middle hbefore (by omega)
      have hcopy : Rust.copyFromSlice (done ++ List.replicate 13 '0' ++
            '0' :: List.replicate (14 * groups.length) '0') (i * 14) ((i + 1) * 14 - 1) g.1 =
          .ok (done ++ g.1 ++ '0' :: List.replicate (14 * groups.length) '0') :=
        Rust.copyFromSlice_middle hdone (by rw [List.length_replicate]; omega)
          (by rw [List.length_replicate, hlen])
      have hassign : Rust.assign (done ++ g.1 ++ '0' :: List.replicate (14 * groups.length) '0')
            ((i + 1) * 14 - 1) g.2 =
          .ok (done ++ g.1 ++ g.2 :: List.replicate (14 * groups.length) '0') :=
        Rust.assign_middle (by rw [List.length_append]; omega)
      have hrest := ih (i + 1) (before ++ g.1) (done ++ (g.1 ++ [g.2]))
        (by rw [List.length_append]; omega)
        (by rw [List.length_append, List.length_append, List.length_singleton]; omega)
        hlens' hchecks'
      have hsource : before ++ symbolsOf (g :: groups) = before ++ g.1 ++ symbolsOf groups := by
        rw [List.append_assoc]
        rfl
      have htarget : done ++ g.1 ++ g.2 :: List.replicate (14 * groups.length) '0' =
          done ++ (g.1 ++ [g.2]) ++ List.replicate (14 * groups.length) '0' := by simp
      rw [hsource, hzeros, ← List.append_assoc, List.length_cons, List.range'_succ, luhnifyLoop]
      simp only [hslice, Rust.ok_bind, hcopy, hcheck', hassign]
      rw [htarget, hrest]
      simp [checkedOf]

/-- The loop of `unluhnify` accepts the groups that are left exactly when they are
checked, and writes their symbols behind what is written. -/
theorem unluhnifyLoop_groups (groups : List (List Char × Char)) :
    ∀ (i : ℕ) (before done : List Char), before.length = i * 14 → done.length = i * 13 →
      (∀ g ∈ groups, g.1.length = 13) →
      ∃ r, unluhnifyLoop (before ++ checkedOf groups) (List.range' i groups.length)
          (done ++ List.replicate (13 * groups.length) '0') = .ok r ∧
        (∀ t, r = .ok t → t = done ++ symbolsOf groups ∧ ∀ g ∈ groups, Checks g) ∧
        ((∀ g ∈ groups, Checks g) → ∃ t, r = .ok t) := by
  induction groups with
  | nil =>
      intro i before done _ _ _
      refine ⟨.ok (done ++ symbolsOf []), rfl, ?_, fun _ => ⟨_, rfl⟩⟩
      intro t ht
      exact ⟨(Except.ok.inj ht).symm, by simp⟩
  | cons g groups ih =>
      intro i before done hbefore hdone hlens
      obtain ⟨hlen, hlens'⟩ := List.forall_mem_cons.mp hlens
      have hzeros : List.replicate (13 * (g :: groups).length) '0' =
          List.replicate 13 '0' ++ List.replicate (13 * groups.length) '0' := by
        rw [← List.replicate_add, List.length_cons]
        congr 1
        omega
      have hsource : before ++ checkedOf (g :: groups) =
          before ++ g.1 ++ g.2 :: checkedOf groups := by simp [checkedOf]
      have hslice : Rust.slice (before ++ g.1 ++ g.2 :: checkedOf groups) (i * (13 + 1))
          ((i + 1) * (13 + 1) - 1) = .ok g.1 := Rust.slice_middle hbefore (by omega)
      have hcopy : Rust.copyFromSlice (done ++ List.replicate 13 '0' ++
            List.replicate (13 * groups.length) '0') (i * 13) ((i + 1) * 13) g.1 =
          .ok (done ++ g.1 ++ List.replicate (13 * groups.length) '0') :=
        Rust.copyFromSlice_middle hdone (by rw [List.length_replicate]; omega)
          (by rw [List.length_replicate, hlen])
      have hindex : Rust.index (before ++ g.1 ++ g.2 :: checkedOf groups) ((i + 1) * 14 - 1) =
          .ok g.2 := Rust.index_middle (by rw [List.length_append]; omega)
      obtain ⟨digit, hdigit, -, -⟩ := luhn32_returns hlen
      rw [hsource, hzeros, ← List.append_assoc, List.length_cons, List.range'_succ, unluhnifyLoop]
      simp only [hslice, Rust.ok_bind, hcopy, hdigit, hindex]
      cases digit with
      | error e =>
          -- a character that is no symbol
          refine ⟨.error e, rfl, by simp, ?_⟩
          intro hchecks
          have hcheck : luhn32 g.1 = .ok (.ok g.2) := hchecks g List.mem_cons_self
          rw [hdigit] at hcheck
          cases hcheck
      | ok l =>
          by_cases hl : g.2 = l
          · have hcheck : Checks g := by rw [Checks, hdigit, hl]
            obtain ⟨r, hr, hok, hex⟩ := ih (i + 1) (before ++ (g.1 ++ [g.2])) (done ++ g.1)
              (by rw [List.length_append, List.length_append, List.length_singleton]; omega)
              (by rw [List.length_append]; omega) hlens'
            have hsource' : before ++ (g.1 ++ [g.2]) ++ checkedOf groups =
                before ++ g.1 ++ g.2 :: checkedOf groups := by simp
            rw [hsource'] at hr
            simp only [hl, ne_eq, not_true_eq_false, if_false]
            rw [← hl, hr]
            refine ⟨r, rfl, ?_, ?_⟩
            · intro t ht
              obtain ⟨rfl, hchecks⟩ := hok t ht
              exact ⟨by simp [symbolsOf], List.forall_mem_cons.mpr ⟨hcheck, hchecks⟩⟩
            · intro hchecks
              exact hex fun g' hg' => hchecks g' (List.mem_cons_of_mem _ hg')
          · -- another check digit
            simp only [ne_eq, hl, not_false_eq_true, if_true]
            refine ⟨_, rfl, by simp, ?_⟩
            intro hchecks
            have hcheck : luhn32 g.1 = .ok (.ok g.2) := hchecks g List.mem_cons_self
            rw [hdigit] at hcheck
            exact absurd (Except.ok.inj (Except.ok.inj hcheck)).symm hl

/-! ## Dashes -/

/-- The loop of `chunkify` after its first group. -/
theorem chunkifyLoop_groups (groups : List (List Char)) :
    ∀ (i : ℕ) (before done : List Char), before.length = (i + 1) * 7 →
      done.length = (i + 1) * 8 - 1 → (∀ g ∈ groups, g.length = 7) →
      chunkifyLoop (before ++ groups.flatten) (List.range' (i + 1) groups.length)
          (done ++ List.replicate (8 * groups.length) '0') =
        .ok (done ++ groups.flatMap ('-' :: ·)) := by
  induction groups with
  | nil =>
      intro i before done _ _ _
      rfl
  | cons g groups ih =>
      intro i before done hbefore hdone hlens
      obtain ⟨hlen, hlens'⟩ := List.forall_mem_cons.mp hlens
      have hzeros : List.replicate (8 * (g :: groups).length) '0' =
          '0' :: (List.replicate 7 '0' ++ List.replicate (8 * groups.length) '0') := by
        rw [← List.replicate_add, ← List.replicate_succ, List.length_cons]
        congr 1
        omega
      have hassign : Rust.assign (done ++
            '0' :: (List.replicate 7 '0' ++ List.replicate (8 * groups.length) '0'))
            ((i + 1) * 8 - 1) '-' =
          .ok (done ++ '-' :: (List.replicate 7 '0' ++ List.replicate (8 * groups.length) '0')) :=
        Rust.assign_middle hdone
      have hend : min ((i + 1 + 1) * 7) (before ++ g ++ groups.flatten).length =
          (i + 1 + 1) * 7 := by
        rw [List.length_append, List.length_append]
        omega
      have hslice : Rust.slice (before ++ g ++ groups.flatten) ((i + 1) * 7) ((i + 1 + 1) * 7) =
          .ok g := Rust.slice_middle hbefore (by omega)
      have hcopy : Rust.copyFromSlice (done ++ ['-'] ++ List.replicate 7 '0' ++
            List.replicate (8 * groups.length) '0') ((i + 1) * 8) ((i + 1) * 8 + g.length) g =
          .ok (done ++ ['-'] ++ g ++ List.replicate (8 * groups.length) '0') :=
        Rust.copyFromSlice_middle
          (by rw [List.length_append, List.length_singleton]; omega)
          (by rw [List.length_append, List.length_singleton, List.length_replicate]; omega)
          (by rw [List.length_replicate, hlen])
      have hrest := ih (i + 1) (before ++ g) (done ++ ['-'] ++ g)
        (by rw [List.length_append]; omega)
        (by rw [List.length_append, List.length_append, List.length_singleton]; omega) hlens'
      have hdash : done ++ '-' :: (List.replicate 7 '0' ++ List.replicate (8 * groups.length) '0') =
          done ++ ['-'] ++ List.replicate 7 '0' ++ List.replicate (8 * groups.length) '0' := by simp
      rw [List.flatten_cons, ← List.append_assoc, hzeros, List.length_cons, List.range'_succ,
        chunkifyLoop]
      simp only [Nat.succ_pos, if_true, hassign, Rust.ok_bind, hend, hslice]
      rw [hdash, hcopy, Rust.ok_bind, hrest]
      simp

/-- Groups of seven are separated by dashes. -/
theorem chunkify_groups {g : List Char} {groups : List (List Char)} (hlen : g.length = 7)
    (hlens : ∀ g ∈ groups, g.length = 7)
    (hbytes : byteLen (g ++ groups.flatten) = 7 * (groups.length + 1)) :
    chunkify (g ++ groups.flatten) = .ok (g ++ groups.flatMap ('-' :: ·)) := by
  have hchunks : byteLen (g ++ groups.flatten) / 7 = groups.length + 1 := by omega
  have hsub : Rust.sub ((groups.length + 1) * 8) 1 = .ok ((groups.length + 1) * 8 - 1) :=
    Rust.sub_of_le (by omega)
  have hzeros : List.replicate ((groups.length + 1) * 8 - 1) '0' =
      List.replicate 7 '0' ++ List.replicate (8 * groups.length) '0' := by
    rw [← List.replicate_add]
    congr 1
    omega
  have hslice : Rust.slice ([] ++ g ++ groups.flatten) (0 * 7) 7 = .ok g :=
    Rust.slice_middle rfl (by rw [List.length_nil]; omega)
  have hcopy : Rust.copyFromSlice ([] ++ List.replicate 7 '0' ++
        List.replicate (8 * groups.length) '0') (0 * 8) (0 * 8 + g.length) g =
      .ok ([] ++ g ++ List.replicate (8 * groups.length) '0') :=
    Rust.copyFromSlice_middle rfl
      (by rw [List.length_nil, List.length_replicate]; omega)
      (by rw [List.length_replicate, hlen])
  have hend : min ((0 + 1) * 7) (g ++ groups.flatten).length = 7 := by
    rw [List.length_append]
    omega
  unfold chunkify
  simp only [hchunks, hsub, Rust.ok_bind]
  rw [hzeros, List.range_eq_range', List.range'_succ, chunkifyLoop]
  simp only [Nat.lt_irrefl, if_false, Rust.pure_eq_ok, Rust.ok_bind, hend]
  rw [List.nil_append] at hslice hcopy
  rw [hslice, Rust.ok_bind, hcopy, Rust.ok_bind, List.nil_append]
  exact chunkifyLoop_groups groups 0 g g (by omega) (by omega) hlens

/-- A text of some groups of seven characters. -/
theorem exists_sevens (n : ℕ) : ∀ t : List Char, t.length = 7 * n →
    ∃ groups : List (List Char), groups.length = n ∧ (∀ g ∈ groups, g.length = 7) ∧
      groups.flatten = t := by
  induction n with
  | zero =>
      intro t hlen
      obtain rfl : t = [] := List.length_eq_zero_iff.mp (by omega)
      exact ⟨[], rfl, by simp, rfl⟩
  | succ n ih =>
      intro t hlen
      obtain ⟨groups, hn, hlens, hrest⟩ := ih (t.drop 7) (by rw [List.length_drop]; omega)
      refine ⟨t.take 7 :: groups, by rw [List.length_cons, hn], ?_, ?_⟩
      · exact List.forall_mem_cons.mpr ⟨by rw [List.length_take]; omega, hlens⟩
      · rw [List.flatten_cons, hrest, List.take_append_drop]

/-! ## Ids and texts -/

/-- The four groups of an id with their check digits. -/
structure CheckedGroups (groups : List (List Char × Char)) : Prop where
  four : groups.length = 4
  thirteen : ∀ g ∈ groups, g.1.length = 13
  checks : ∀ g ∈ groups, Checks g

/-- Checked groups are of the alphabet. -/
theorem CheckedGroups.alphabet {groups : List (List Char × Char)} (h : CheckedGroups groups)
    {c : Char} (hc : c ∈ checkedOf groups) : c ∈ Library.Base32.alphabet :=
  alphabet_of_checks h.thirteen h.checks hc

/-- And of the length that is asked for, with and without their digits. -/
theorem CheckedGroups.byteLen {groups : List (List Char × Char)} (h : CheckedGroups groups) :
    byteLen (symbolsOf groups) = 52 ∧ Model.byteLen (checkedOf groups) = 56 := by
  have hascii : ∀ c ∈ checkedOf groups, c.toNat < 128 :=
    fun c hc => ascii_of_alphabet (h.alphabet hc)
  constructor
  · rw [byteLen_of_ascii fun c hc => hascii c (symbolsOf_subset groups hc),
      length_symbolsOf h.thirteen, h.four]
  · rw [byteLen_of_ascii hascii, length_checkedOf h.thirteen, h.four]

/-- Putting the check digits in gives the checked groups. -/
theorem luhnify_checked {groups : List (List Char × Char)} (h : CheckedGroups groups) :
    luhnify (symbolsOf groups) = .ok (.ok (checkedOf groups)) := by
  have hloop := luhnifyLoop_checked groups 0 [] [] rfl rfl h.thirteen h.checks
  rw [h.four, List.nil_append, List.nil_append, List.nil_append, ← List.range_eq_range'] at hloop
  rw [luhnify, if_neg (not_not.mpr h.byteLen.1)]
  exact hloop

/-- `unluhnify` returns; what it accepts are checked groups. -/
theorem unluhnify_returns {value : List Char} (hascii : ∀ c ∈ value, c.toNat < 128) :
    ∃ r, unluhnify value = .ok r ∧ ∀ t, r = .ok t →
      ∃ groups, CheckedGroups groups ∧ checkedOf groups = value ∧ symbolsOf groups = t := by
  unfold unluhnify
  by_cases hlen : byteLen value = 56
  · rw [if_neg (not_not.mpr hlen)]
    rw [byteLen_of_ascii hascii] at hlen
    obtain ⟨groups, hfour, hlens, rfl⟩ := exists_groups 4 value (by omega)
    obtain ⟨r, hr, hok, -⟩ := unluhnifyLoop_groups groups 0 [] [] rfl rfl hlens
    rw [hfour, List.nil_append, List.nil_append, ← List.range_eq_range'] at hr
    refine ⟨r, hr, ?_⟩
    intro t ht
    obtain ⟨rfl, hchecks⟩ := hok t ht
    exact ⟨groups, ⟨hfour, hlens, hchecks⟩, rfl, rfl⟩
  · rw [if_pos hlen]
    exact ⟨_, rfl, by simp⟩

/-- Taking them out gives the symbols. -/
theorem unluhnify_checked {groups : List (List Char × Char)} (h : CheckedGroups groups) :
    unluhnify (checkedOf groups) = .ok (.ok (symbolsOf groups)) := by
  obtain ⟨r, hr, hok, hex⟩ := unluhnifyLoop_groups groups 0 [] [] rfl rfl h.thirteen
  rw [h.four, List.nil_append, List.nil_append, ← List.range_eq_range'] at hr
  obtain ⟨t, rfl⟩ := hex h.checks
  rw [unluhnify, if_neg (not_not.mpr h.byteLen.2)]
  rw [(hok t rfl).1, List.nil_append] at hr
  exact hr

/-- The dashes are the only thing `chunkify` adds. -/
theorem chunkify_checked {groups : List (List Char × Char)} (h : CheckedGroups groups) :
    ∃ text, chunkify (checkedOf groups) = .ok text ∧
      text.filter (· ≠ '-') = checkedOf groups ∧
      ∀ c ∈ text, c ∈ Library.Base32.alphabet ∨ c = '-' := by
  have hlen : (checkedOf groups).length = 7 * 8 := by rw [length_checkedOf h.thirteen, h.four]
  obtain ⟨sevens, height, hlens, hflat⟩ := exists_sevens 8 _ hlen
  obtain ⟨g, sevens, rfl⟩ : ∃ g rest, sevens = g :: rest := by
    cases sevens with
    | nil => cases height
    | cons g rest => exact ⟨g, rest, rfl⟩
  obtain ⟨hg, hlens'⟩ := List.forall_mem_cons.mp hlens
  rw [List.flatten_cons] at hflat
  rw [List.length_cons] at height
  have halphabet : ∀ c ∈ g ++ sevens.flatten, c ∈ Library.Base32.alphabet := by
    intro c hc
    rw [hflat] at hc
    exact h.alphabet hc
  refine ⟨g ++ sevens.flatMap ('-' :: ·), ?_, ?_, ?_⟩
  · rw [← hflat]
    apply chunkify_groups hg hlens'
    rw [hflat, h.byteLen.2, height]
  · have hsymbols : ∀ l : List Char, (∀ c ∈ l, c ∈ Library.Base32.alphabet) →
        l.filter (· ≠ '-') = l := by
      intro l hl
      exact List.filter_eq_self.mpr fun c hc => by simpa using (read_of_alphabet (hl c hc)).2.1
    have hdashes : ∀ rest : List (List Char),
        (∀ c ∈ rest.flatten, c ∈ Library.Base32.alphabet) →
        (rest.flatMap ('-' :: ·)).filter (· ≠ '-') = rest.flatten := by
      intro rest hrest
      induction rest with
      | nil => rfl
      | cons l rest ih =>
          rw [List.flatten_cons] at hrest ⊢
          rw [List.flatMap_cons, List.filter_append, ih fun c hc =>
            hrest c (List.mem_append_right _ hc)]
          have hl := hsymbols l fun c hc => hrest c (List.mem_append_left _ hc)
          simpa using hl
    rw [List.filter_append, hsymbols g fun c hc => halphabet c (List.mem_append_left _ hc),
      hdashes sevens fun c hc => halphabet c (List.mem_append_right _ hc), hflat]
  · intro c hc
    rcases List.mem_append.mp hc with hfirst | hrest
    · exact Or.inl (halphabet c (List.mem_append_left _ hfirst))
    · obtain ⟨l, hl, hmem⟩ := List.mem_flatMap.mp hrest
      rcases List.mem_cons.mp hmem with rfl | hmem
      · exact Or.inr rfl
      · exact Or.inl (halphabet c (List.mem_append_right _ (List.mem_flatten.mpr ⟨l, hl, hmem⟩)))

/-- An id is encoded by 52 symbols and four padding characters. -/
theorem encode_id (id : DeviceId) :
    ∃ groups, CheckedGroups groups ∧
      Library.Base32.encode id.id.toList = symbolsOf groups ++ "====".toList := by
  have hlen : (Library.Base32.symbols id.id.toList).length = 13 * 4 := by
    rw [Library.Base32.length_symbols, Vector.length_toList]
  obtain ⟨groups, hfour, hlens, hchecks, hsymbols⟩ := exists_checked 4 _ hlen
    fun c hc => Library.Base32.mem_alphabet_of_mem_symbols hc
  refine ⟨groups, ⟨hfour, hlens, hchecks⟩, ?_⟩
  rw [Library.Base32.encode, hlen, hsymbols]
  rfl

/-- What is encoded by 52 symbols and four padding characters is as long as an id. -/
theorem length_of_encode {groups : List (List Char × Char)} (h : CheckedGroups groups)
    {dec : Bytes} (henc : Library.Base32.encode dec = symbolsOf groups ++ "====".toList) :
    dec.length = 32 := by
  have hpadded := Library.Base32.filter_padded
    (fun c (hc : c ∈ Library.Base32.symbols dec) => Library.Base32.mem_alphabet_of_mem_symbols hc)
    ((8 - (Library.Base32.symbols dec).length % 8) % 8)
  have hgroups := Library.Base32.filter_padded
    (fun c (hc : c ∈ symbolsOf groups) => h.alphabet (symbolsOf_subset groups hc)) 4
  have hsymbols : Library.Base32.symbols dec = symbolsOf groups := by
    rw [← hpadded, ← hgroups]
    exact congrArg _ henc
  have hlen := Library.Base32.length_symbols dec
  rw [hsymbols, length_symbolsOf h.thirteen, h.four] at hlen
  omega

/-- What `try_from` hands to `unluhnify` is the normal form. -/
theorem toList_normalForm (s : String) :
    ((((s.toList.map Char.toUpper).filter fun c => ¬ (c = '-' ∨ c = ' ')).map
      fun c => if c = '0' then 'O' else c).map fun c => if c = '1' then 'I' else c).map
      (fun c => if c = '8' then 'B' else c) = (normalForm s).toList := by
  have htypo : ∀ c : Char, (if (if (if c = '0' then 'O' else c) = '1' then 'I' else
      if c = '0' then 'O' else c) = '8' then 'B' else
      if (if c = '0' then 'O' else c) = '1' then 'I' else if c = '0' then 'O' else c) =
      correctTypo c := by
    intro c
    unfold correctTypo
    by_cases h0 : c = '0'
    · subst h0
      decide
    · by_cases h1 : c = '1'
      · subst h1
        decide
      · simp only [h0, h1, if_false]
  rw [normalForm, String.toList_ofList, List.map_map, List.map_map]
  have hfilter : ∀ c : Char, decide (¬ (c = '-' ∨ c = ' ')) = decide (c ≠ '-' ∧ c ≠ ' ') := by
    intro c
    simp
  simp only [hfilter]
  exact List.map_congr_left fun c _ => htypo c

/-- The normal form of a text of ASCII is of ASCII. -/
theorem normalForm_ascii {s : String} (h : ∀ c ∈ s.toList, c.toNat < 128) :
    ∀ c ∈ (normalForm s).toList, c.toNat < 128 := by
  intro c hc
  rw [normalForm, String.toList_ofList] at hc
  obtain ⟨d, hd, rfl⟩ := List.mem_map.mp hc
  obtain ⟨e, he, rfl⟩ := List.mem_map.mp (List.mem_of_mem_filter hd)
  exact correctTypo_ascii (toUpper_ascii (h e he))

/-- A text of symbols and dashes is in normal form but for the dashes. -/
theorem normalForm_of_symbols {text : List Char}
    (hchars : ∀ c ∈ text, c ∈ Library.Base32.alphabet ∨ c = '-') :
    (normalForm (String.ofList text)).toList = text.filter (· ≠ '-') := by
  have hread : ∀ c ∈ text, c.toUpper = c ∧ c ≠ ' ' ∧ correctTypo c = c := by
    intro c hc
    rcases hchars c hc with hsym | rfl
    · obtain ⟨hupper, -, hblank, htypo⟩ := read_of_alphabet hsym
      exact ⟨hupper, hblank, htypo⟩
    · decide
  have hupper : text.map Char.toUpper = text :=
    (List.map_congr_left fun c hc => (hread c hc).1).trans (List.map_id text)
  have hfilter : (text.filter fun c => c ≠ '-' ∧ c ≠ ' ') = text.filter (· ≠ '-') :=
    List.filter_congr fun c hc => by simp [(hread c hc).2.1]
  rw [normalForm, String.toList_ofList, String.toList_ofList, hupper, hfilter]
  refine (List.map_congr_left fun c hc => ?_).trans (List.map_id _)
  exact (hread c (List.mem_of_mem_filter hc)).2.2

section StrictBase32

variable {base32 : Model.Base32} (hstrict : StrictRfc4648 base32)
include hstrict

/-- The text of an id whose groups are known. -/
theorem display_of_groups {groups : List (List Char × Char)} (h : CheckedGroups groups)
    {id : DeviceId}
    (henc : Library.Base32.encode id.id.toList = symbolsOf groups ++ "====".toList) :
    ∃ text : List Char, id.display base32 = .ok (String.ofList text) ∧
      text.filter (· ≠ '-') = checkedOf groups ∧
      ∀ c ∈ text, c ∈ Library.Base32.alphabet ∨ c = '-' := by
  obtain ⟨text, htext, hfilter, hchars⟩ := chunkify_checked h
  have htrim : (symbolsOf groups ++ "====".toList).rdropWhile (· == '=') = symbolsOf groups := by
    have hlast : (symbolsOf groups).rdropWhile (· == '=') = symbolsOf groups := by
      rw [List.rdropWhile_eq_self_iff]
      intro hne heq
      have hmem := List.getLast_mem hne
      exact Library.Base32.ne_padding_of_mem (h.alphabet (symbolsOf_subset groups hmem))
        (by simpa using heq)
    have hpad : symbolsOf groups ++ "====".toList =
        symbolsOf groups ++ ['='] ++ ['='] ++ ['='] ++ ['='] := by simp
    rw [hpad, List.rdropWhile_concat_pos _ _ _ rfl, List.rdropWhile_concat_pos _ _ _ rfl,
      List.rdropWhile_concat_pos _ _ _ rfl, List.rdropWhile_concat_pos _ _ _ rfl, hlast]
  refine ⟨text, ?_, hfilter, hchars⟩
  simp only [DeviceId.display, hstrict.encode_eq, henc, htrim, luhnify_checked h, Rust.ok_bind,
    htext, Rust.pure_eq_ok]

/-- Reading the text of an id gives the id. -/
theorem tryFrom_display {groups : List (List Char × Char)} (h : CheckedGroups groups)
    {id : DeviceId}
    (henc : Library.Base32.encode id.id.toList = symbolsOf groups ++ "====".toList)
    {text : List Char} (hfilter : text.filter (· ≠ '-') = checkedOf groups)
    (hchars : ∀ c ∈ text, c ∈ Library.Base32.alphabet ∨ c = '-') :
    DeviceId.tryFrom base32 (String.ofList text) = .ok (.ok id) := by
  have hascii : (String.ofList text).toList.all (·.toNat < 128) = true := by
    rw [List.all_eq_true, String.toList_ofList]
    intro c hc
    rcases hchars c hc with hsym | rfl
    · simpa using ascii_of_alphabet hsym
    · decide
  have hnormal : (normalForm (String.ofList text)).toList = checkedOf groups :=
    (normalForm_of_symbols hchars).trans hfilter
  have hdecode : base32.decode (symbolsOf groups ++ "====".toList) = .ok id.id.toList :=
    (hstrict.decode_iff _ _).mpr henc
  have hcopy : DeviceId.copyFrom id.id.toList = .ok id := by
    unfold DeviceId.copyFrom
    rw [dif_pos Vector.length_toList]
    obtain ⟨⟨bytes⟩, hsize⟩ := id
    rfl
  unfold DeviceId.tryFrom
  rw [if_neg (not_not.mpr hascii)]
  simp only [toList_normalForm, hnormal, unluhnify_checked h, Rust.ok_bind, hdecode, hcopy,
    Rust.pure_eq_ok]

/-- Reading any text returns, and what is read is written as its normal form. -/
theorem tryFrom_returns (s : String) :
    ∃ result, DeviceId.tryFrom base32 s = .ok result ∧
      ∀ id, result = .ok id → ∃ text, id.display base32 = .ok text ∧
        withoutDashes text = normalForm s := by
  unfold DeviceId.tryFrom
  by_cases hascii : s.toList.all (·.toNat < 128) = true
  · rw [if_neg (not_not.mpr hascii)]
    have hchars : ∀ c ∈ s.toList, c.toNat < 128 := by simpa using hascii
    obtain ⟨r, hr, hok⟩ := unluhnify_returns (normalForm_ascii hchars)
    simp only [toList_normalForm, hr, Rust.ok_bind]
    cases r with
    | error e => exact ⟨.error e, rfl, by simp⟩
    | ok t =>
        obtain ⟨groups, hgroups, hchecked, rfl⟩ := hok t rfl
        cases hdecode : base32.decode (symbolsOf groups ++ "====".toList) with
        | error e => exact ⟨.error e, by simp only [hdecode, Rust.pure_eq_ok], by simp⟩
        | ok dec =>
            have henc := (hstrict.decode_iff _ _).mp hdecode
            have hlen := length_of_encode hgroups henc
            have hcopy : DeviceId.copyFrom dec = .ok ⟨⟨dec.toArray, hlen⟩⟩ := dif_pos hlen
            refine ⟨.ok ⟨⟨dec.toArray, hlen⟩⟩,
              by simp only [hdecode, hcopy, Rust.ok_bind, Rust.pure_eq_ok], ?_⟩
            intro id hid
            obtain rfl := Except.ok.inj hid
            have hid : Library.Base32.encode (⟨⟨dec.toArray, hlen⟩⟩ : DeviceId).id.toList =
                symbolsOf groups ++ "====".toList := by simpa using henc
            obtain ⟨text, htext, hfilter, -⟩ := display_of_groups hstrict hgroups hid
            refine ⟨_, htext, ?_⟩
            rw [withoutDashes, String.toList_ofList, hfilter, hchecked, String.ofList_toList]
  · rw [if_pos hascii]
    exact ⟨.error _, rfl, by simp⟩

end StrictBase32

/-- **Ids and their texts are in bijection.** The text of every id is read as that id;
every text is read without a panic, and when it is accepted the text of the id is its
normal form with dashes. -/
theorem deviceId_text_bijection (base32 : Model.Base32) (hstrict : StrictRfc4648 base32) :
    (∀ id : DeviceId, ∃ text, id.display base32 = .ok text ∧
      DeviceId.tryFrom base32 text = .ok (.ok id)) ∧
    ∀ s : String, ∃ result, DeviceId.tryFrom base32 s = .ok result ∧
      ∀ id, result = .ok id → ∃ text, id.display base32 = .ok text ∧
        withoutDashes text = normalForm s := by
  refine ⟨?_, tryFrom_returns hstrict⟩
  intro id
  obtain ⟨groups, hgroups, henc⟩ := encode_id id
  obtain ⟨text, htext, hfilter, hchars⟩ := display_of_groups hstrict hgroups henc
  exact ⟨_, htext, tryFrom_display hstrict hgroups henc hfilter hchars⟩

/-- Witness: the codec by the RFC. -/
theorem deviceId_text_bijection_rfc4648 :
    (∀ id : DeviceId, ∃ text, id.display rfc4648 = .ok text ∧
      DeviceId.tryFrom rfc4648 text = .ok (.ok id)) ∧
    ∀ s : String, ∃ result, DeviceId.tryFrom rfc4648 s = .ok result ∧
      ∀ id, result = .ok id → ∃ text, id.display rfc4648 = .ok text ∧
        withoutDashes text = normalForm s :=
  deviceId_text_bijection rfc4648 strict_rfc4648

end Grizol.Analysis
