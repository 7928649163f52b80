import Grizol.Analysis.NewerFiles
import Grizol.Interface.VersionOrder

/-!
# What the comparison of versions decides

`partial_cmp_file_version` looks at one greatest counter of each version. The comment in
front of it refers to the version vectors of the protocol, whose order that is only for
some versions. `diff_indices` asks for the time where the answer is a conflict, and panics
if that is the same.
-/

set_option autoImplicit false

namespace Grizol.Analysis

open Grizol.Library
open Grizol.Model Grizol.Model.Syncthing Grizol.Interface

/-! ## Versions -/

section Versions

variable {a b file : FileInfo}

/-- A counter has the value of its id. -/
theorem versionOf_of_mem (h : Versioned file) {c : Counter} (hc : c ∈ countersOf file) :
    versionOf file c.id = c.value.toNat := by
  cases hfind : (countersOf file).find? fun d => d.id = c.id with
  | none =>
      have hnone := List.find?_eq_none.mp hfind c hc
      simp at hnone
  | some d =>
      have hd : d ∈ countersOf file := List.mem_of_find?_eq_some hfind
      have hid : d.id = c.id := by simpa using List.find?_some hfind
      have hsame : d = c := List.inj_on_of_nodup_map h.distinct hd hc hid
      rw [versionOf, hfind, hsame]
      rfl

/-- No value is greater than that of the counter `max_by_key` gives. -/
theorem greatest_maxCounter (h : Versioned file) {c : Counter}
    (hc : maxCounter (countersOf file) = some c) :
    VersionOrder.Greatest (versionOf file) c.id := by
  obtain ⟨hmem, hall⟩ := maxCounter_spec hc
  intro id
  rw [versionOf_of_mem h hmem]
  unfold versionOf
  cases hfind : (countersOf file).find? fun d => d.id = id with
  | none => exact Nat.zero_le _
  | some d => exact UInt64.le_iff_toNat_le.mp (hall d (List.mem_of_find?_eq_some hfind))

/-- A version with counters has a greatest one. -/
theorem exists_maxCounter (h : countersOf file ≠ []) :
    ∃ c, maxCounter (countersOf file) = some c := by
  cases hlist : countersOf file with
  | nil => exact absurd hlist h
  | cons c cs => exact ⟨_, rfl⟩

/-- The answer of the comparison, from the greatest counters. -/
theorem partialCmpFileVersion_eq {c d : Counter} (hc : maxCounter (countersOf a) = some c)
    (hd : maxCounter (countersOf b) = some d) :
    partialCmpFileVersion a b =
      .ok (VersionOrder.byGreatest c.id c.value.toNat d.id d.value.toNat) := by
  rw [partialCmpFileVersion, decidingCounter_eq, decidingCounter_eq, hc, hd, Rust.unwrap_some,
    Rust.ok_bind, Rust.unwrap_some, Rust.ok_bind, Rust.pure_eq_ok, VersionOrder.byGreatest]
  simp only [UInt64.lt_iff_toNat_lt]
  split_ifs with hlt hgt hboth hid hid
  · rfl
  · rfl
  · rfl
  · exact absurd hboth.2 hid
  · have hvalue : c.value = d.value := UInt64.toNat_inj.mp (by omega)
    exact absurd ⟨hvalue, hid⟩ hboth
  · rfl

/-- **When the comparison is that of version vectors.** For versions with counters of
different ids it is if and only if the greatest counters decide. -/
theorem ordersVersions_iff (ha : Versioned a) (hb : Versioned b) :
    OrdersVersions a b ↔ DecidedByGreatest a b := by
  obtain ⟨c, hc⟩ := exists_maxCounter ha.counters
  obtain ⟨d, hd⟩ := exists_maxCounter hb.counters
  have hcvalue := versionOf_of_mem ha (maxCounter_spec hc).1
  have hdvalue := versionOf_of_mem hb (maxCounter_spec hd).1
  have horders := VersionOrder.orders_byGreatest_iff (greatest_maxCounter ha hc)
    (greatest_maxCounter hb hd)
  rw [hcvalue, hdvalue] at horders
  have hleft : OrdersVersions a b ↔ VersionOrder.Orders (versionOf a) (versionOf b)
      (VersionOrder.byGreatest c.id c.value.toNat d.id d.value.toNat) := by
    rw [OrdersVersions, partialCmpFileVersion_eq hc hd]
    constructor
    · rintro ⟨answer, hanswer, h⟩
      rw [Except.ok.inj hanswer]
      exact h
    · exact fun h => ⟨_, rfl, h⟩
  rw [hleft, horders, DecidedByGreatest, hc, hd]
  simp [UInt64.toNat_inj]

/-- A file with these counters. -/
def versionedFile (counters : List Counter) : FileInfo := { name := "a", version := some ⟨counters⟩ }

/-- Witness: a version with one more counter, which is greater. -/
theorem ordersVersions_newer :
    OrdersVersions (versionedFile [⟨1, 1⟩]) (versionedFile [⟨1, 1⟩, ⟨2, 2⟩]) := by
  refine (ordersVersions_iff ⟨by decide, by decide⟩ ⟨by decide, by decide⟩).mpr ?_
  intro c d hc hd
  obtain rfl : ⟨1, 1⟩ = c := Option.some.inj hc
  obtain rfl : ⟨2, 2⟩ = d := Option.some.inj hd
  refine ⟨fun heq => absurd (congrFun heq 2) (by decide), fun _ => by decide, ?_⟩
  intro hnot
  refine absurd ?_ hnot
  intro id
  by_cases hid : (1 : UInt64) = id
  · rw [← hid]
    decide
  · have hzero : versionOf (versionedFile [⟨1, 1⟩]) id = 0 := by
      simp [versionOf, versionedFile, countersOf, hid]
    exact hzero.trans_le (Nat.zero_le _)

/-- Two devices that both change a file, one of them twice: the changes are in conflict, and the
comparison says that the second is newer. -/
theorem concurrent_taken_for_newer :
    ¬ OrdersVersions (versionedFile [⟨1, 1⟩]) (versionedFile [⟨2, 2⟩]) := by
  rintro ⟨answer, hanswer, horders⟩
  obtain rfl : some .lt = answer := Except.ok.inj hanswer
  have hless : versionOf (versionedFile [⟨1, 1⟩]) 1 ≤ versionOf (versionedFile [⟨2, 2⟩]) 1 :=
    (horders.less.mp rfl).le 1
  exact absurd hless (by decide)

end Versions

/-! ## Differences -/

section Differences

variable {old new : FileInfo}

/-- Times are compared by seconds first. -/
theorem modified_lt_iff : modified old < modified new ↔
    old.modifiedS < new.modifiedS ∨
      old.modifiedS = new.modifiedS ∧ old.modifiedNs < new.modifiedNs := by
  rw [modified, modified, Prod.Lex.toLex_lt_toLex, Int64.lt_iff_toInt_lt, Int32.lt_iff_toInt_lt,
    ← Int64.toInt_inj]

/-- A conflict is decided by the time; without a later file the comparison panics. -/
theorem diffFile_of_conflict (hconflict : Conflicts old new) :
    diffFile (some old) new =
      if modified old < modified new then .ok .newlyAddedConflicting
      else if modified new < modified old then .ok .existingConflicting
      else .error (.explicit
        "It should mean we are comparing the same file, which should not happen") := by
  have hanswer : partialCmpFileVersion old new = .ok none := hconflict
  -- both files have a deciding counter, of the same value
  obtain ⟨c, hc, hrest⟩ := Rust.bind_eq_ok.mp hanswer
  obtain ⟨d, hd, hpure⟩ := Rust.bind_eq_ok.mp hrest
  have hvalue : c.value = d.value := by
    have hpure := Except.ok.inj hpure
    split_ifs at hpure with hlt hgt
    rw [UInt64.lt_iff_toNat_lt] at hlt hgt
    exact UInt64.toNat_inj.mp (by omega)
  rw [diffFile, hanswer, Rust.ok_bind]
  dsimp only
  rw [partialCmpFileTimestamp]
  have hbefore := @modified_lt_iff old new
  have hafter := @modified_lt_iff new old
  rw [@eq_comm _ new.modifiedS] at hafter
  by_cases hlt : modified old < modified new
  · rw [if_pos hlt, if_pos (hbefore.mp hlt)]
    rfl
  by_cases hgt : modified new < modified old
  · rw [if_neg hlt, if_neg (mt hbefore.mpr hlt), if_pos hgt, if_pos (hafter.mp hgt)]
    rfl
  rw [if_neg hlt, if_neg (mt hbefore.mpr hlt), if_neg hgt, if_neg (mt hafter.mpr hgt), hc,
    Rust.ok_bind, hd, Rust.ok_bind, hvalue, Nat.compare_eq_eq.mpr rfl]
  rfl

/-- Where the versions are not in conflict, the comparison decides. -/
theorem diffFile_of_answer {answer : Ordering}
    (hanswer : partialCmpFileVersion old new = .ok (some answer)) :
    diffFile (some old) new = .ok (if answer = .lt then .newlyAdded else .nowhere) := by
  rw [diffFile, hanswer, Rust.ok_bind]
  cases answer <;> rfl

/-- A file goes to its place, or it has the time of the one it is in conflict with. -/
theorem diffFile_place {existing : Option FileInfo}
    (hexisting : ∀ old, existing = some old → countersOf old ≠ []) (hnew : countersOf new ≠ []) :
    (∀ old, existing = some old → Conflicts old new → modified old ≠ modified new) ∧
        (∀ tie, diffFile existing new = .ok (placeOf tie existing new)) ∨
      (∃ old, existing = some old ∧ Conflicts old new ∧ modified old = modified new) ∧
        ∃ e, diffFile existing new = .error e := by
  cases existing with
  | none =>
      refine Or.inl ⟨?_, fun tie => rfl⟩
      rintro old hold
      cases hold
  | some old =>
      obtain ⟨c, hc⟩ := exists_maxCounter (hexisting old rfl)
      obtain ⟨d, hd⟩ := exists_maxCounter hnew
      have hanswer := partialCmpFileVersion_eq hc hd
      generalize VersionOrder.byGreatest c.id c.value.toNat d.id d.value.toNat = answer at hanswer
      cases answer with
      | some answer =>
          refine Or.inl ⟨?_, fun tie => ?_⟩
          · rintro old' heq hconflict
            obtain rfl := Option.some.inj heq
            rw [Conflicts, hanswer] at hconflict
            cases hconflict
          · rw [diffFile_of_answer hanswer, placeOf, hanswer]
            cases answer <;> rfl
      | none =>
          rw [diffFile_of_conflict hanswer]
          by_cases htime : modified old = modified new
          · refine Or.inr ⟨⟨old, rfl, hanswer, htime⟩, ?_⟩
            rw [htime, if_neg (lt_irrefl _), if_neg (lt_irrefl _)]
            exact ⟨_, rfl⟩
          · refine Or.inl ⟨?_, fun tie => ?_⟩
            · rintro old' heq -
              obtain rfl := Option.some.inj heq
              exact htime
            · rw [placeOf, hanswer]
              dsimp only
              by_cases hlt : modified old < modified new
              · rw [if_pos hlt, if_pos (Or.inl hlt)]
              · have hgt : modified new < modified old :=
                  lt_of_le_of_ne (not_lt.mp hlt) (Ne.symm htime)
                rw [if_neg hlt, if_pos hgt, if_neg]
                rintro (hless | hsame)
                · exact hlt hless
                · exact htime hsame.1

variable {existing : AssocMap String FileInfo} {known added : List FileInfo}

/-- The loop of `diff_indices` returns if no file has the time of one it is in conflict with, and
puts every file in the list of its place. -/
theorem diffFiles_classifies (hknown : ∀ name, existing.get name = lastNamed known name)
    (hexisting : ∀ old ∈ known, countersOf old ≠ []) (hadded : ∀ f ∈ added, countersOf f ≠ []) :
    NoTie known added ∧
        (∃ diff, diffFiles existing added = .ok diff ∧ ∀ tie, Classifies tie known added diff) ∨
      ¬ NoTie known added ∧ ∃ e, diffFiles existing added = .error e := by
  induction added with
  | nil =>
      refine Or.inl ⟨by simp [NoTie], _, rfl, ?_⟩
      exact fun tie => ⟨rfl, rfl, rfl⟩
  | cons file added ih =>
      obtain ⟨hfile, hadded⟩ := List.forall_mem_cons.mp hadded
      have hfirst := @diffFile_place file (existing.get file.name) (fun old hold => by
        rw [hknown] at hold
        exact hexisting old (lastNamed_eq_some hold).1) hfile
      rw [hknown] at hfirst
      rw [diffFiles, hknown]
      rcases hfirst with ⟨hnoTie, hplace⟩ | ⟨⟨old, hold, hconflict, htime⟩, e, herror⟩
      · rcases ih hadded with ⟨hrest, diff, hdiff, hclassifies⟩ | ⟨htie, e, herror⟩
        · refine Or.inl ⟨List.forall_mem_cons.mpr ⟨hnoTie, hrest⟩, ?_⟩
          rw [hdiff]
          refine ⟨_, Rust.bind_eq_ok.mpr ⟨_, hplace fun _ _ => true, rfl⟩, ?_⟩
          intro tie
          have hsame : placeOf tie (lastNamed known file.name) file =
              placeOf (fun _ _ => true) (lastNamed known file.name) file :=
            Except.ok.inj ((hplace tie).symm.trans (hplace _))
          obtain ⟨hnewly, hnewlyConflicting, hexistingConflicting⟩ := hclassifies tie
          rw [← hsame]
          generalize hp : placeOf tie (lastNamed known file.name) file = place
          constructor <;> rw [List.filter_cons, hp] <;> cases place <;>
            simp [hnewly, hnewlyConflicting, hexistingConflicting]
        · refine Or.inr ⟨fun h => htie (List.forall_mem_cons.mp h).2, e, ?_⟩
          rw [hplace fun _ _ => true, Rust.ok_bind, herror]
          rfl
      · refine Or.inr ⟨fun h => ?_, e, ?_⟩
        · exact (List.forall_mem_cons.mp h).1 old hold hconflict htime
        · rw [herror]
          rfl

/-- **When the difference of two indices classifies.** For two indices of a folder whose files
have counters, `diff_indices` returns and puts every added file in the list of its place if
and only if no added file is in conflict with the existing one of its name at the same time. -/
theorem diffIndices_classifies_iff {folder : String} {added existing : Index}
    (hexisting : existing.folder = folder)
    (haddedVersions : ∀ f ∈ added.files, countersOf f ≠ [])
    (hexistingVersions : ∀ f ∈ existing.files, countersOf f ≠ []) :
    (∃ diff, diffIndices folder added existing = .ok (.ok diff) ∧
        ∃ tie, Classifies tie existing.files added.files diff) ↔
      NoTie existing.files added.files := by
  have hfolders : ¬ (added.folder ≠ folder ∧ existing.folder ≠ folder) :=
    fun h => h.2 hexisting
  rw [diffIndices, if_neg hfolders]
  dsimp only
  have hknown : ∀ name, (GrizolIndex.insertAll .empty existing.files).get name =
      lastNamed existing.files name := by
    intro name
    rw [get_insertAll, AssocMap.get_empty, Option.or_none]
  rcases diffFiles_classifies hknown hexistingVersions haddedVersions with
    ⟨hnoTie, diff, hdiff, hclassifies⟩ | ⟨htie, e, herror⟩
  · rw [hdiff]
    exact iff_of_true ⟨diff, rfl, fun _ _ => true, hclassifies _⟩ hnoTie
  · rw [herror]
    refine iff_of_false ?_ htie
    rintro ⟨diff, hdiff, -⟩
    cases hdiff

/-- An index with one file. -/
def indexOf (file : FileInfo) : Index := { folder := "default", files := [file] }

/-- Witness: a newer file, and one in conflict that was changed later. -/
theorem diffIndices_classifies_newer :
    (∃ diff, diffIndices "default" (indexOf (versionedFile [⟨1, 2⟩]))
        (indexOf (versionedFile [⟨1, 1⟩])) = .ok (.ok diff) ∧
      ∃ tie, Classifies tie (indexOf (versionedFile [⟨1, 1⟩])).files
        (indexOf (versionedFile [⟨1, 2⟩])).files diff) ∧
    Conflicts (versionedFile [⟨2, 1⟩]) { versionedFile [⟨1, 1⟩] with modifiedS := 5 } ∧
    ∃ diff, diffIndices "default" (indexOf { versionedFile [⟨1, 1⟩] with modifiedS := 5 })
        (indexOf (versionedFile [⟨2, 1⟩])) = .ok (.ok diff) ∧
      ∃ tie, Classifies tie (indexOf (versionedFile [⟨2, 1⟩])).files
        (indexOf { versionedFile [⟨1, 1⟩] with modifiedS := 5 }).files diff := by
  have hversions : ∀ i n, ∀ f ∈ (indexOf (versionedFile [⟨i, n⟩])).files,
      countersOf f ≠ [] := by
    simp [indexOf, versionedFile, countersOf]
  refine ⟨?_, rfl, ?_⟩
  · refine (diffIndices_classifies_iff rfl (hversions 1 2) (hversions 1 1)).mpr ?_
    intro file hfile old hold hconflict
    obtain rfl := List.mem_singleton.mp hfile
    obtain rfl : versionedFile [⟨1, 1⟩] = old := Option.some.inj hold
    cases hconflict
  · refine (diffIndices_classifies_iff rfl ?_ (hversions 2 1)).mpr ?_
    · intro file hfile
      obtain rfl := List.mem_singleton.mp hfile
      exact List.cons_ne_nil _ _
    · intro file hfile old hold _
      obtain rfl := List.mem_singleton.mp hfile
      obtain rfl : versionedFile [⟨2, 1⟩] = old := Option.some.inj hold
      decide

/-- Two devices that change a file in the same moment: the difference of their indices panics. -/
theorem simultaneous_changes_panic :
    ¬ ∃ diff, diffIndices "default" (indexOf (versionedFile [⟨1, 1⟩]))
        (indexOf (versionedFile [⟨2, 1⟩])) = .ok (.ok diff) ∧
      ∃ tie, Classifies tie (indexOf (versionedFile [⟨2, 1⟩])).files
        (indexOf (versionedFile [⟨1, 1⟩])).files diff := by
  rintro ⟨diff, hdiff, -⟩
  have hpanics : diffIndices "default" (indexOf (versionedFile [⟨1, 1⟩]))
      (indexOf (versionedFile [⟨2, 1⟩])) = .error (.explicit
        "It should mean we are comparing the same file, which should not happen") := by
    decide +kernel
  rw [hpanics] at hdiff
  cases hdiff

end Differences

end Grizol.Analysis
