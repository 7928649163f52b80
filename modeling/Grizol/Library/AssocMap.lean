import Mathlib.Data.List.Nodup
import Mathlib.Data.List.Dedup

/-!
# Finite maps as association lists

`AssocMap κ ν` is a list of entries with pairwise different keys, carried as a
field. It stands for the hash and tree maps of the source: `get`, `insert`,
`erase` and `retain` are their operations, and each has one lemma that says what
`get` sees after it. Iteration order is the list order; ordered maps sort it.
-/

set_option autoImplicit false

namespace Grizol.Library

/-- A finite map: entries with pairwise different keys. -/
structure AssocMap (κ ν : Type) where
  entries : List (κ × ν)
  nodup : (entries.map Prod.fst).Nodup
  deriving DecidableEq

namespace AssocMap

variable {κ ν : Type}

instance [Repr κ] [Repr ν] : Repr (AssocMap κ ν) := ⟨fun m n => reprPrec m.entries n⟩

/-- The map with no entries. -/
def empty : AssocMap κ ν := ⟨[], List.nodup_nil⟩

instance : Inhabited (AssocMap κ ν) := ⟨empty⟩

/-- The keys, in iteration order. -/
def keys (m : AssocMap κ ν) : List κ := m.entries.map Prod.fst

/-- The values, in iteration order. -/
def values (m : AssocMap κ ν) : List ν := m.entries.map Prod.snd

/-- The map without the entries that fail `p`. -/
def retain (m : AssocMap κ ν) (p : κ → ν → Bool) : AssocMap κ ν where
  entries := m.entries.filter fun e => p e.1 e.2
  nodup := m.nodup.sublist (List.filter_sublist.map _)

variable [DecidableEq κ]

/-- The value at `k`, if there is one. -/
def get (m : AssocMap κ ν) (k : κ) : Option ν := (m.entries.find? fun e => e.1 = k).map Prod.snd

/-- Whether `k` has a value. -/
def contains (m : AssocMap κ ν) (k : κ) : Bool := (m.get k).isSome

/-- The map without the entry at `k`. -/
def erase (m : AssocMap κ ν) (k : κ) : AssocMap κ ν := m.retain fun k' _ => k' ≠ k

/-- The map with the value at `k` set to `v`; a new key is iterated last. -/
def insert (m : AssocMap κ ν) (k : κ) (v : ν) : AssocMap κ ν where
  entries := (m.erase k).entries ++ [(k, v)]
  nodup := by
    rw [List.map_append, List.nodup_append]
    refine ⟨(m.erase k).nodup, by simp, ?_⟩
    rintro a ha b hb rfl
    obtain rfl : a = k := by simpa using hb
    simp [erase, retain] at ha

/-- An entry of the list is what `get` finds at its key. -/
theorem mem_entries_iff {m : AssocMap κ ν} {k : κ} {v : ν} :
    (k, v) ∈ m.entries ↔ m.get k = some v := by
  obtain ⟨l, hl⟩ := m
  simp only [get]
  induction l with
  | nil => simp
  | cons e l ih =>
      obtain ⟨k', v'⟩ := e
      rw [List.map_cons, List.nodup_cons] at hl
      by_cases hk : k' = k
      · subst hk
        have hnot : (k', v) ∉ l := fun h => hl.1 (List.mem_map.mpr ⟨_, h, rfl⟩)
        simp [hnot, eq_comm]
      · have hne : ¬ (k = k' ∧ v = v') := fun h => hk h.1.symm
        simpa [hk, hne] using ih hl.2

/-- Under one key there is at most one entry. -/
theorem filter_key (m : AssocMap κ ν) (k : κ) :
    (m.entries.filter fun e => e.1 = k) = (m.get k).toList.map fun v => (k, v) := by
  obtain ⟨l, hl⟩ := m
  simp only [get]
  induction l with
  | nil => rfl
  | cons e l ih =>
      rw [List.map_cons, List.nodup_cons] at hl
      by_cases hk : e.1 = k
      · have hnone : (l.filter fun e => e.1 = k) = [] := by
          refine List.filter_eq_nil_iff.mpr fun e' he' heq => hl.1 ?_
          rw [hk, ← of_decide_eq_true heq]
          exact List.mem_map_of_mem he'
        rw [List.filter_cons_of_pos (by simpa using hk), hnone, List.find?_cons_of_pos (by simpa using hk),
          ← hk]
        rfl
      · rw [List.filter_cons_of_neg (by simpa using hk), ih hl.2,
          List.find?_cons_of_neg (by simpa using hk)]

/-- A key of the map is one that `get` finds. -/
theorem mem_keys_iff {m : AssocMap κ ν} {k : κ} : k ∈ m.keys ↔ ∃ v, m.get k = some v := by
  simp [keys, ← mem_entries_iff]

/-- A key is there when there is a value for it. -/
theorem contains_iff {m : AssocMap κ ν} {k : κ} :
    m.contains k = true ↔ ∃ v, m.get k = some v := by
  simp [contains, Option.isSome_iff_exists]

/-- A key is not there when there is no value for it. -/
theorem contains_eq_false_iff {m : AssocMap κ ν} {k : κ} :
    m.contains k = false ↔ m.get k = none := by
  simp [contains]

/-- Nothing is there at first. -/
@[simp] theorem get_empty (k : κ) : (empty : AssocMap κ ν).get k = none := rfl

/-- `retain` keeps the values that pass the test. -/
theorem get_retain (m : AssocMap κ ν) (p : κ → ν → Bool) (k : κ) :
    (m.retain p).get k = (m.get k).filter (p k) := by
  refine Option.ext fun v => ?_
  rw [← mem_entries_iff, Option.filter_eq_some_iff, ← mem_entries_iff]
  simp [retain]

/-- `erase` removes one key. -/
theorem get_erase (m : AssocMap κ ν) (k k' : κ) :
    (m.erase k).get k' = if k' = k then none else m.get k' := by
  rw [erase, get_retain]
  by_cases h : k' = k
  · simp [h]
  · cases m.get k' <;> simp [h]

/-- An erased key is not there. -/
@[simp] theorem get_erase_self (m : AssocMap κ ν) (k : κ) : (m.erase k).get k = none := by
  simp [get_erase]

/-- The other keys stay. -/
theorem get_erase_of_ne (m : AssocMap κ ν) {k k' : κ} (h : k' ≠ k) :
    (m.erase k).get k' = m.get k' := by
  simp [get_erase, h]

/-- Erasing a key that is not there changes nothing. -/
theorem erase_of_get_eq_none {m : AssocMap κ ν} {k : κ} (h : m.get k = none) : m.erase k = m := by
  have hne : ∀ e ∈ m.entries, e.1 ≠ k := by
    rintro ⟨k', v⟩ he rfl
    rw [mem_entries_iff.mp he] at h
    cases h
  obtain ⟨l, hl⟩ := m
  simp only [erase, retain, AssocMap.mk.injEq]
  exact List.filter_eq_self.mpr fun e he => by simpa using hne e he

/-- `insert` sets one key. -/
theorem get_insert (m : AssocMap κ ν) (k k' : κ) (v : ν) :
    (m.insert k v).get k' = if k' = k then some v else m.get k' := by
  refine Option.ext fun w => ?_
  rw [← mem_entries_iff]
  by_cases h : k' = k
  · subst h
    have hnot : (k', w) ∉ (m.erase k').entries := by
      rw [mem_entries_iff]; simp
    simp [insert, hnot, eq_comm]
  · have hmem : (k', w) ∈ (m.erase k).entries ↔ m.get k' = some w := by
      rw [mem_entries_iff, get_erase_of_ne m h]
    simp [insert, h, hmem]

/-- An inserted key has the value. -/
@[simp] theorem get_insert_self (m : AssocMap κ ν) (k : κ) (v : ν) :
    (m.insert k v).get k = some v := by
  simp [get_insert]

/-- The other keys keep theirs. -/
theorem get_insert_of_ne (m : AssocMap κ ν) {k k' : κ} (v : ν) (h : k' ≠ k) :
    (m.insert k v).get k' = m.get k' := by
  simp [get_insert, h]

/-- The values are the images of the keys. -/
theorem mem_values_iff {m : AssocMap κ ν} {v : ν} : v ∈ m.values ↔ ∃ k, m.get k = some v := by
  simp [values, ← mem_entries_iff]

/-- The value at `k`, with `k` bound to `v` first when it was free:
`entry(k).or_insert(v)`. -/
def entryOrInsert (m : AssocMap κ ν) (k : κ) (v : ν) : AssocMap κ ν × ν :=
  match m.get k with
  | some w => (m, w)
  | none => (m.insert k v, v)

/-- The map after `entry(k).or_insert(v)`. -/
theorem get_entryOrInsert (m : AssocMap κ ν) (k k' : κ) (v : ν) :
    (m.entryOrInsert k v).1.get k' =
      if k' = k then some ((m.get k).getD v) else m.get k' := by
  unfold entryOrInsert
  split
  · rename_i w hget
    split_ifs with hkey
    · rw [hkey, hget, Option.getD_some]
    · rfl
  · rename_i hget
    rw [get_insert, hget, Option.getD_none]

/-- The value of an entry: the one that was there, or the new one. -/
theorem snd_entryOrInsert (m : AssocMap κ ν) (k : κ) (v : ν) :
    (m.entryOrInsert k v).2 = (m.get k).getD v := by
  unfold entryOrInsert
  cases m.get k <;> rfl

/-- The value of an entry that was there, or was made, is set. -/
theorem get_insert_entryOrInsert (m : AssocMap κ ν) (k k' : κ) (v w : ν) :
    ((m.entryOrInsert k v).1.insert k w).get k' = if k' = k then some w else m.get k' := by
  rw [get_insert, get_entryOrInsert]
  split_ifs <;> rfl

/-- The map with every value replaced by its image. -/
def mapValues (m : AssocMap κ ν) (f : κ → ν → ν) : AssocMap κ ν where
  entries := m.entries.map fun e => (e.1, f e.1 e.2)
  nodup := by simpa [List.map_map, Function.comp_def] using m.nodup

/-- Every value is changed in its place. -/
theorem get_mapValues (m : AssocMap κ ν) (f : κ → ν → ν) (k : κ) :
    (m.mapValues f).get k = (m.get k).map (f k) := by
  refine Option.ext fun w => ?_
  rw [← mem_entries_iff, Option.map_eq_some_iff]
  simp only [mapValues, List.mem_map, Prod.mk.injEq, Prod.exists]
  constructor
  · rintro ⟨k', v, hmem, rfl, rfl⟩
    exact ⟨v, mem_entries_iff.mp hmem, rfl⟩
  · rintro ⟨v, hget, rfl⟩
    exact ⟨k, v, mem_entries_iff.mpr hget, rfl, rfl⟩

/-- The map with the value at `k` replaced by its image, if there is one. -/
def modify (m : AssocMap κ ν) (k : κ) (f : ν → ν) : AssocMap κ ν :=
  match m.get k with
  | some v => m.insert k (f v)
  | none => m

/-- Only the value of this key is changed. -/
theorem get_modify (m : AssocMap κ ν) (k k' : κ) (f : ν → ν) :
    (m.modify k f).get k' = if k' = k then (m.get k').map f else m.get k' := by
  unfold modify
  split
  · rename_i v hget
    rw [get_insert]
    split_ifs with hkey
    · rw [hkey, hget, Option.map_some]
    · rfl
  · rename_i hget
    split_ifs with hkey
    · rw [hkey, hget, Option.map_none]
    · rfl

/-- The map with every key renamed, unless two keys would become one. -/
def rekey (m : AssocMap κ ν) (f : κ → κ) : Option (AssocMap κ ν) :=
  if h : ((m.entries.map fun e => (f e.1, e.2)).map Prod.fst).Nodup then
    some ⟨m.entries.map fun e => (f e.1, e.2), h⟩
  else none

/-- A value is under the new key of its old one. -/
theorem get_rekey {m m' : AssocMap κ ν} {f : κ → κ} (h : m.rekey f = some m') {k : κ} {v : ν} :
    m'.get k = some v ↔ ∃ k₀, m.get k₀ = some v ∧ f k₀ = k := by
  unfold rekey at h
  split_ifs at h with hnodup
  obtain rfl := Option.some.inj h
  rw [← mem_entries_iff]
  simp only [List.mem_map, Prod.mk.injEq, Prod.exists, mem_entries_iff]
  constructor
  · rintro ⟨k₀, v', hget, rfl, rfl⟩
    exact ⟨k₀, hget, rfl⟩
  · rintro ⟨k₀, hget, rfl⟩
    exact ⟨k₀, v, hget, rfl, rfl⟩

/-- What is under the new key, when one key only is renamed to it. -/
theorem get_rekey_eq {m m' : AssocMap κ ν} {f : κ → κ} (h : m.rekey f = some m') {k k₁ : κ}
    (hk : ∀ k₀ v, m.get k₀ = some v → (f k₀ = k ↔ k₀ = k₁)) : m'.get k = m.get k₁ := by
  refine Option.ext fun v => ?_
  rw [get_rekey h]
  constructor
  · rintro ⟨k₀, hget, heq⟩
    rw [← (hk k₀ v hget).mp heq]
    exact hget
  · intro hget
    exact ⟨k₁, hget, (hk k₁ v hget).mpr rfl⟩

/-- A renaming that tells the keys of the map apart. -/
theorem exists_rekey {m : AssocMap κ ν} {f : κ → κ}
    (h : ∀ k ∈ m.keys, ∀ k' ∈ m.keys, f k = f k' → k = k') : ∃ m', m.rekey f = some m' := by
  have hnodup : ((m.entries.map fun e => (f e.1, e.2)).map Prod.fst).Nodup := by
    have hkeys : (m.entries.map fun e => (f e.1, e.2)).map Prod.fst = m.keys.map f := by
      rw [keys, List.map_map, List.map_map]
      rfl
    rw [hkeys]
    exact List.Nodup.map_on h m.nodup
  exact ⟨_, dif_pos hnodup⟩

/-- A new key goes to the end. -/
theorem entries_insert_of_get_eq_none {m : AssocMap κ ν} {k : κ} (h : m.get k = none) (v : ν) :
    (m.insert k v).entries = m.entries ++ [(k, v)] := by
  show (m.erase k).entries ++ [(k, v)] = _
  rw [erase_of_get_eq_none h]

/-- The entries under some of the keys after `entry(k).or_insert(v)`. -/
theorem filter_entryOrInsert (m : AssocMap κ ν) (k : κ) (v : ν) (p : κ → Bool) :
    ((m.entryOrInsert k v).1.entries.filter fun e => p e.1) =
      (m.entries.filter fun e => p e.1) ++
        if m.contains k = false ∧ p k = true then [(k, v)] else [] := by
  unfold entryOrInsert contains
  split
  · rename_i w hget
    simp [hget]
  · rename_i hget
    rw [entries_insert_of_get_eq_none hget, List.filter_append]
    by_cases hp : p k = true
    · simp [hget, hp]
    · simp [hp]

omit [DecidableEq κ] in
/-- The entries under keys that `retain` leaves alone. -/
theorem filter_retain (m : AssocMap κ ν) (q : κ → ν → Bool) (p : κ → Bool)
    (h : ∀ k v, p k = true → q k v = true) :
    ((m.retain q).entries.filter fun e => p e.1) = m.entries.filter fun e => p e.1 := by
  simp only [retain, List.filter_filter]
  apply List.filter_congr
  rintro ⟨k, v⟩ -
  by_cases hp : p k = true
  · simp [hp, h k v hp]
  · simp [hp]

/-- The entries under keys that `rekey` leaves alone. -/
theorem filter_rekey {m m' : AssocMap κ ν} {f : κ → κ} (h : m.rekey f = some m') (p : κ → Bool)
    (hmoved : ∀ k, k ∈ m.keys → f k = k ∨ p k = false ∧ p (f k) = false) :
    (m'.entries.filter fun e => p e.1) = m.entries.filter fun e => p e.1 := by
  unfold rekey at h
  split_ifs at h
  obtain rfl := Option.some.inj h
  have hlist : ∀ l : List (κ × ν), (∀ e ∈ l, f e.1 = e.1 ∨ p e.1 = false ∧ p (f e.1) = false) →
      ((l.map fun e => (f e.1, e.2)).filter fun e => p e.1) = l.filter fun e => p e.1 := by
    intro l
    induction l with
    | nil =>
        intro _
        rfl
    | cons e l ih =>
        intro hkeys
        have htail := ih fun e' he' => hkeys e' (List.mem_cons_of_mem e he')
        rw [List.map_cons, List.filter_cons, List.filter_cons, htail]
        rcases hkeys e List.mem_cons_self with hsame | ⟨hp, hp'⟩
        · rw [hsame]
        · simp [hp, hp']
  exact hlist m.entries fun e he => hmoved e.1 (List.mem_map_of_mem he)

/-- Two maps with related values under every key have, up to order, related values. -/
theorem values_rel {ν' : Type} {R : ν → ν' → Prop} {m : AssocMap κ ν} {m' : AssocMap κ ν'}
    (h : ∀ k, Option.Rel R (m.get k) (m'.get k)) :
    ∃ l, List.Forall₂ R m.values l ∧ l.Perm m'.values := by
  have hkeys : ∀ k, k ∈ m.keys ↔ k ∈ m'.keys := by
    intro k
    rw [mem_keys_iff, mem_keys_iff]
    have hk := h k
    revert hk
    cases m.get k <;> cases m'.get k <;> intro hk <;> cases hk <;> simp
  have hperm : m.keys.Perm m'.keys := (List.perm_ext_iff_of_nodup m.nodup m'.nodup).mpr hkeys
  have hvalues : m'.values = m'.keys.filterMap m'.get := by
    rw [values, keys, List.filterMap_map]
    have hall : ∀ e ∈ m'.entries, m'.get e.1 = some e.2 := fun e he => mem_entries_iff.mp he
    rw [← List.filterMap_eq_map]
    apply List.filterMap_congr
    intro e he
    exact (hall e he).symm
  refine ⟨m.keys.filterMap m'.get, ?_, ?_⟩
  · have hentries : ∀ entries : List (κ × ν), (∀ e ∈ entries, m.get e.1 = some e.2) →
        List.Forall₂ R (entries.map Prod.snd) ((entries.map Prod.fst).filterMap m'.get) := by
      intro entries
      induction entries with
      | nil =>
          intro _
          exact List.Forall₂.nil
      | cons e entries ih =>
          intro hget
          have hrel := h e.1
          rw [hget e List.mem_cons_self] at hrel
          have hrest := ih fun e' he' => hget e' (List.mem_cons_of_mem e he')
          cases hget' : m'.get e.1 with
          | none =>
              rw [hget'] at hrel
              cases hrel
          | some v' =>
              rw [hget'] at hrel
              cases hrel with
              | some hv =>
                  rw [List.map_cons, List.map_cons, List.filterMap_cons_some hget']
                  exact List.Forall₂.cons hv hrest
    exact hentries m.entries fun e he => mem_entries_iff.mp he
  · rw [hvalues]
    exact hperm.filterMap _

end AssocMap

end Grizol.Library
