import Grizol.Interface.StoredFiles
import Grizol.Library.Transition

/-!
# The indices in memory and those in the database

The entry of a folder and device is there to save the query of `index`, so it should
hold what the query would load (`Coherent`). `IndexEvent` lists the calls that read or
write files; a restart keeps the database and nothing else. `KeepsEntry` is the
condition under which a call changes the entry as it changes the tables.
-/

set_option autoImplicit false

namespace Grizol.Interface

open Grizol.Library
open Grizol.Model Grizol.Model.Syncthing

/-! ## Coherence -/

/-- The same file, up to the order of its counters and of its blocks. -/
structure SameFile (f g : FileInfo) : Prop where
  fields : withParts f [] [] = withParts g [] []
  version : f.version.isSome = g.version.isSome
  counters : (countersOf f).Perm (countersOf g)
  blocks : f.blocks.Perm g.blocks

/-- The same files, up to their order. -/
def SameFiles (fs gs : List FileInfo) : Prop := ∃ hs, List.Forall₂ SameFile fs hs ∧ hs.Perm gs

/-- Every entry is the index of its key, as the database has it. -/
def Coherent (s : BepState) : Prop :=
  ∀ key entry, s.indices.indices.get key = some entry →
    entry.folder = key.folder ∧
      SameFiles entry.files.values (BepState.loadIndex s.db key.folder key.deviceId).files

/-- The index the state has of a folder and device. -/
def known (s : BepState) (folder : String) (deviceId : DeviceId) : Index :=
  (s.indices.index ⟨folder, deviceId⟩).getD (BepState.loadIndex s.db folder deviceId)

/-! ## Calls -/

/-- The calls on the indices of a node, and a restart. -/
inductive IndexEvent where
  | replaceIndex (index : Index) (deviceId : DeviceId)
  | index (folder : String) (deviceId : DeviceId)
  | insertFileInfo (folder : String) (deviceId : DeviceId) (fileInfo : List FileInfo)
  | rmReplaceFileInfo (folder : String) (deviceId : DeviceId) (fileInfo : List FileInfo)
  | mvFileInfo (folder : String) (deviceId : DeviceId) (origFileInfo : FileInfo)
      (destFileName : String) (destFileLocations : List FileLocation)
  | rmFileInfo (folder : String) (deviceId : DeviceId) (fileName : String)
  | restart

/-- The state a call leaves, whether it returns or panics. -/
def indexStep (s : BepState) : IndexEvent → Option BepState
  | .replaceIndex index deviceId =>
      some (RustM.endState ((BepState.replaceIndex index deviceId).run s))
  | .index folder deviceId => some (RustM.endState ((BepState.index folder deviceId).run s))
  | .insertFileInfo folder deviceId fileInfo =>
      some (RustM.endState ((BepState.insertFileInfo folder deviceId fileInfo).run s))
  | .rmReplaceFileInfo folder deviceId fileInfo =>
      some (RustM.endState ((BepState.rmReplaceFileInfo folder deviceId fileInfo).run s))
  | .mvFileInfo folder deviceId origFileInfo destFileName destFileLocations =>
      some (RustM.endState ((BepState.mvFileInfo folder deviceId origFileInfo destFileName
        destFileLocations).run s))
  | .rmFileInfo folder deviceId fileName =>
      some (RustM.endState ((BepState.rmFileInfo folder deviceId fileName).run s))
  | .restart => some (BepState.new s.db)

/-! ## When the entry follows the tables -/

/-- A file the database takes. -/
def Accepted (db : Database) (folder : String) (deviceId : DeviceId) (file : FileInfo) : Prop :=
  (folder, deviceId) ∈ db.bepIndex ∧ (0 ≤ file.type ∧ file.type ≤ 4) ∧
    file.version.isSome = true ∧ ∀ counter ∈ countersOf file, counter.value.toNat < 2 ^ 63

/-- A file the database takes in place of another: the blocks go in with one statement. -/
def Replaceable (db : Database) (folder : String) (deviceId : DeviceId) (file : FileInfo) :
    Prop :=
  Accepted db folder deviceId file ∧ 8 * file.blocks.length ≤ BepState.maxVariables ∧
    file.blocks.Pairwise fun a b => sameBlock a b = false

/-- The next sequence number, if there is one left. -/
def nextSequence (s : BepState) : Option Int64 :=
  match s.sequence <|> BepState.maxSequence s.db with
  | some n => if n = Int64.maxValue then none else some (n + 1)
  | none => some 1

/-- The counters under a name after the files of a list were put over `old`. -/
def keptCounters (old : Option FileInfo) (files : List FileInfo) (name : String) :
    List Counter :=
  addCounters ((old.map countersOf).getD [])
    ((files.filter fun f => f.name = name).flatMap countersOf)

/-- The blocks under a name after the files of a list were put over `old`. -/
def keptBlocks (old : Option FileInfo) (files : List FileInfo) (name : String) :
    List BlockInfo :=
  addBlocks ((old.map FileInfo.blocks).getD [])
    ((files.filter fun f => f.name = name).flatMap FileInfo.blocks)

/-- The last file of a name has all the counters and blocks that are kept under it. -/
def KeptByLast (old : Option FileInfo) (files : List FileInfo) (name : String) : Prop :=
  ∀ file, lastNamed files name = some file →
    (countersOf file).Perm (keptCounters old files name) ∧
      file.blocks.Perm (keptBlocks old files name)

/-- There is an entry, or the empty one a call makes lacks nothing but the files of that
call: it is for the folder `""`. -/
def EntryKnown (s : BepState) (folder : String) (deviceId : DeviceId) (names : List String) :
    Prop :=
  s.indices.indices.contains ⟨folder, deviceId⟩ = true ∨
    folder = "" ∧ ∀ name, s.db.bepFileInfo.contains ⟨folder, deviceId, name⟩ = true → name ∈ names

/-- The call changes the entry as it changes the tables, or changes neither. -/
def KeepsEntry (s : BepState) : IndexEvent → Prop
  | .replaceIndex index deviceId =>
      (∀ file ∈ index.files, Accepted s.db index.folder deviceId file) →
        ∀ name, KeptByLast none index.files name
  | .index _ _ => True
  | .insertFileInfo folder deviceId fileInfo =>
      (∀ file ∈ fileInfo, Accepted s.db folder deviceId file) →
        EntryKnown s folder deviceId (fileInfo.map FileInfo.name) ∧
          ∀ name, KeptByLast (stored s.db ⟨folder, deviceId, name⟩) fileInfo name
  | .rmReplaceFileInfo folder deviceId fileInfo =>
      (∀ file ∈ fileInfo.filter fun f => !f.deleted, Replaceable s.db folder deviceId file) →
        EntryKnown s folder deviceId ((fileInfo.filter fun f => !f.deleted).map FileInfo.name) ∧
          ∀ name file, lastNamed (fileInfo.filter fun f => !f.deleted) name = some file →
            (countersOf file).Nodup
  | .mvFileInfo folder deviceId origFileInfo destFileName _ =>
      s.indices.indices.contains ⟨folder, deviceId⟩ = false ∨
        s.db.bepFileInfo.contains ⟨folder, deviceId, origFileInfo.name⟩ = false ∨
          destFileName ≠ origFileInfo.name ∧
            s.db.bepFileInfo.contains ⟨folder, deviceId, destFileName⟩ = true
  | .rmFileInfo folder deviceId fileName => EntryKnown s folder deviceId [fileName]
  | .restart => True

end Grizol.Interface
