import Grizol.Model.CachedFile

/-!
# What is read of a cached file

A read asks for a range of a file and should get the bytes of the file in it, however the
operating system delivers them.
-/

set_option autoImplicit false

namespace Grizol.Interface

open Grizol.Library Grizol.Model

/-- Nothing fails, and the reads return up to these numbers of bytes, and one. -/
def allReturn (reads : ℕ → ℕ) : CachedReadOutcomes where
  openFile := .ok ()
  seek _ := true
  read n := .ok (reads n)

/-- **The bytes of the range are read**, of every cached file of this length. -/
def ReadsExactly (length : ℕ) (baseOffset : Int64) (size : UInt32) (reads : ℕ → ℕ) : Prop :=
  ∀ readCache files (file : GrizolFileInfo) content,
    files.get (GrizolFS.cachePath readCache file.folder file.fileInfo.name) = some content →
      content.length = length →
        StorageManager.readCached readCache files file baseOffset size (allReturn reads) =
          .ok (.ok ((content.drop baseOffset.toInt.toNat).take size.toNat))

/-- **What is needed of a read**: nothing is asked for, or the range is in the file and the first
read delivers all of it. -/
def FirstReadFills (length : ℕ) (baseOffset : Int64) (size : UInt32) (reads : ℕ → ℕ) : Prop :=
  size = 0 ∨
    baseOffset.toInt.toNat + size.toNat ≤ length ∧ size.toNat ≤ reads 0 + 1

end Grizol.Interface
