import Mathlib.Data.Prod.Lex
import Grizol.Interface.NewerFiles
import Grizol.Library.VersionOrder

/-!
# The order of file versions

Versions are vectors of counters, of which the pointwise greater one is the newer
(`OrdersVersions`). `diff_indices` puts the files of an index into lists by what its
comparison answers (`Classifies`); the time decides between versions that are in conflict.
-/

set_option autoImplicit false

namespace Grizol.Interface

open Grizol.Library
open Grizol.Model Grizol.Model.Syncthing

/-! ## Versions -/

/-- The version of a file: the value of the counter of an id, 0 where there is none. -/
def versionOf (file : FileInfo) (id : UInt64) : ℕ :=
  (((countersOf file).find? fun c => c.id = id).map fun c => c.value.toNat).getD 0

/-- A version with counters, of which no two have the same id. -/
structure Versioned (file : FileInfo) : Prop where
  counters : countersOf file ≠ []
  distinct : ((countersOf file).map Counter.id).Nodup

/-- **The comparison is that of version vectors.** -/
def OrdersVersions (a b : FileInfo) : Prop :=
  ∃ answer, partialCmpFileVersion a b = .ok answer ∧
    VersionOrder.Orders (versionOf a) (versionOf b) answer

/-- Versions whose order is that of their greatest counters, of several the last: equal ones
have the same, one that is below the other has a smaller one, and where neither is below the
other they have the same value at different ids. -/
def DecidedByGreatest (a b : FileInfo) : Prop :=
  ∀ c d, maxCounter (countersOf a) = some c → maxCounter (countersOf b) = some d →
    (versionOf a = versionOf b → c.id = d.id) ∧
      (versionOf a < versionOf b ∨ versionOf b < versionOf a → c.value ≠ d.value) ∧
        (¬ versionOf a ≤ versionOf b → ¬ versionOf b ≤ versionOf a →
          c.value = d.value ∧ c.id ≠ d.id)

/-! ## Differences -/

/-- When a file was modified. -/
def modified (file : FileInfo) : ℤ ×ₗ ℤ := toLex (file.modifiedS.toInt, file.modifiedNs.toInt)

/-- Neither version is the newer one. -/
def Conflicts (old new : FileInfo) : Prop := partialCmpFileVersion old new = .ok none

/-- The place of an added file: with the new ones if none of its name exists or the existing
one is older, and with the files of one side if the versions are in conflict; `tie` tells of
files with the same time whether the added one counts as the later. -/
def placeOf (tie : FileInfo → FileInfo → Bool) (existing : Option FileInfo) (file : FileInfo) :
    DiffPlace :=
  match existing with
  | none => .newlyAdded
  | some old =>
      match partialCmpFileVersion old file with
      | .ok (some .lt) => .newlyAdded
      | .ok none =>
          if modified old < modified file ∨ modified old = modified file ∧ tie old file = true
          then .newlyAddedConflicting
          else .existingConflicting
      | _ => .nowhere

/-- Every added file is in the list of its place, once, and in no other. -/
structure Classifies (tie : FileInfo → FileInfo → Bool) (existing added : List FileInfo)
    (diff : IndexDiff) : Prop where
  newlyAdded : diff.newlyAddedFiles =
    added.filter fun f => placeOf tie (lastNamed existing f.name) f = .newlyAdded
  newlyAddedConflicting : diff.newlyAddedConflictingFiles =
    added.filter fun f => placeOf tie (lastNamed existing f.name) f = .newlyAddedConflicting
  existingConflicting : diff.existingConflictingFiles =
    added.filter fun f => placeOf tie (lastNamed existing f.name) f = .existingConflicting

/-- No added file is in conflict with the existing one of its name and has its time. -/
def NoTie (existing added : List FileInfo) : Prop :=
  ∀ file ∈ added, ∀ old, lastNamed existing file.name = some old → Conflicts old file →
    modified old ≠ modified file

end Grizol.Interface
