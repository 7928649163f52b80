import Grizol.Model.StorageManager

/-!
# Calls on the storage manager

`store_block_concurrently` and `conclude_block_storage` as the calls of one sequence on
one manager. Both look their writer up in the registry, which keeps the first writer
made for a key; `performedBy` is the writer a call goes to.

`Agreement` and `Delivery` say what the callers count on, `FirstStored` when they get
it.
-/

set_option autoImplicit false

namespace Grizol.Interface

open Grizol.Library
open Grizol.Model Grizol.Model.Syncthing

/-- A call on the storage manager, with the outcomes of its operations on the disk. -/
inductive StorageCall where
  | store (data : Bytes) (request : Request) (fileSize chunkSize : ℕ) (outcomes : StorageOutcomes)
  | conclude (request : Request) (fileSize chunkSize : ℕ) (outcomes : StorageOutcomes)

namespace StorageCall

/-- The request whose block the call is about. -/
def request : StorageCall → Request
  | .store _ r _ _ _ | .conclude r _ _ _ => r

/-- The size of the file that the call passes on. -/
def fileSize : StorageCall → ℕ
  | .store _ _ n _ _ | .conclude _ n _ _ => n

/-- The size of a chunk that the call passes on. -/
def chunkSize : StorageCall → ℕ
  | .store _ _ _ n _ | .conclude _ _ n _ => n

/-- The call stores a block. -/
def isStore : StorageCall → Bool
  | .store _ _ _ _ _ => true
  | .conclude _ _ _ _ => false

/-- The key of the file of a call. -/
def key (c : StorageCall) : String := StorageManager.fileRelPath c.request

/-- Whether the directory a call writes to is there: only storing makes it. -/
def hasDir (config : GrizolConfig) (c : StorageCall) : Bool :=
  match c with
  | .store _ _ _ _ outcomes =>
      StorageManager.hasParent (config.localBaseDir ++ "/" ++ c.key) && outcomes.createDir = .ok
  | .conclude _ _ _ _ => true

/-- Whether a call gets to its writer: it has its directory, and the number of chunks can be
computed. -/
def reaches (config : GrizolConfig) (c : StorageCall) : Bool :=
  c.hasDir config && (0 < c.chunkSize ∧ c.fileSize + c.chunkSize < 2 ^ 64)

/-- A call reaches the table of writers when it has a directory to make and its sizes can be
divided. -/
theorem reaches_iff {config : GrizolConfig} {c : StorageCall} :
    c.reaches config = true ↔
      c.hasDir config = true ∧ 0 < c.chunkSize ∧ c.fileSize + c.chunkSize < 2 ^ 64 := by
  rw [reaches, Bool.and_eq_true, decide_eq_true_eq]

/-- The call stores block `i` of a version with this content. -/
def storesBlock (key : String) (content : Bytes) (chunkSize i : ℕ) : StorageCall → Prop
  | .store data request fileSize chunkSize' _ =>
      StorageManager.fileRelPath request = key ∧ request.offset.toInt = (i * chunkSize : ℕ) ∧
        data = chunkAt chunkSize content i ∧ fileSize = content.length ∧ chunkSize' = chunkSize
  | .conclude _ _ _ _ => False

end StorageCall

/-- A path a writer uses: that of its file or of one of its chunks. -/
def Uses (w : FileWriter) (path : String) : Prop := path = w.filePath ∨ ∃ i, path = w.chunkPath i

variable (hash : String → ℕ → ℕ → UInt64)

/-- The call on the manager. -/
def performCall : StorageCall → RustM StorageManager (Except IoError Unit)
  | .store data request fileSize chunkSize outcomes =>
      StorageManager.storeBlockConcurrently hash data request fileSize chunkSize outcomes
  | .conclude request fileSize chunkSize outcomes =>
      StorageManager.concludeBlockStorage hash request fileSize chunkSize outcomes

/-- The manager after a call; a call that panics leaves it as far as it got. -/
def callStep (m : StorageManager) (c : StorageCall) : StorageManager :=
  RustM.endState ((performCall hash c).run m)

/-- The manager after a sequence of calls. -/
def afterCalls (m : StorageManager) (calls : List StorageCall) : StorageManager :=
  calls.foldl (callStep hash) m

/-- In this state of the manager the call returns `Ok`. -/
def ReturnsOk (m : StorageManager) (c : StorageCall) : Prop :=
  ∃ m', (performCall hash c).run m = .ok (.ok ()) m'

instance (m : StorageManager) (c : StorageCall) : Decidable (ReturnsOk hash m c) :=
  match h : (performCall hash c).run m with
  | .ok (.ok ()) m' => isTrue ⟨m', h⟩
  | .ok (.error _) _ => isFalse fun ⟨_, h'⟩ => by rw [h] at h'; cases h'
  | .error _ _ => isFalse fun ⟨_, h'⟩ => by rw [h] at h'; cases h'

/-- The part of a call up to its writer. -/
def openWriter : StorageCall → RustM StorageManager (Except IoError FileWriter)
  | .store _ request fileSize chunkSize outcomes => do
      let fileRelPath := StorageManager.fileRelPath request
      let absPath := (← getThe StorageManager).absPath fileRelPath
      let _ ← Rust.unwrap (if StorageManager.hasParent absPath then some () else none)
      match outcomes.createDir with
      | .fails _ => pure (.error FileWriter.osError)
      | .ok => do
          let w ← StorageManager.entryWriter hash fileRelPath absPath fileSize chunkSize
          pure (.ok w)
  | .conclude request fileSize chunkSize _ => do
      let fileRelPath := StorageManager.fileRelPath request
      let w ← StorageManager.entryWriter hash fileRelPath fileRelPath fileSize chunkSize
      pure (.ok w)

/-- The writer that performs a call. -/
def performedBy (m : StorageManager) (c : StorageCall) : Option FileWriter :=
  match (openWriter hash c).run m with
  | .ok (.ok w) _ => some w
  | _ => none

/-- **The writers agree with the calls.** A call goes to a writer for the file under the
base directory and of the sizes the call names. -/
def Agreement (m : StorageManager) (calls : List StorageCall) : Prop :=
  ∀ pre c post, calls = pre ++ c :: post →
    ∀ w, performedBy hash (afterCalls hash m pre) c = some w →
      w.filePath = m.absPath c.key ∧ w.fileSize = c.fileSize ∧ w.chunkSize = c.chunkSize

/-- In a sequence of calls that starts at `m` every block of a version was stored, no call on
the file did anything else, and no other file uses the paths of this one. -/
structure StoredVersion (m : StorageManager) (calls : List StorageCall) (key : String)
    (content : Bytes) (chunkSize : ℕ) : Prop where
  blocks : ∀ i < chunkCount content.length chunkSize, ∃ pre c post, calls = pre ++ c :: post ∧
    c.storesBlock key content chunkSize i ∧ ReturnsOk hash (afterCalls hash m pre) c
  own : ∀ pre c post, calls = pre ++ c :: post → c.key = key → c.isStore = true ∧
    (ReturnsOk hash (afterCalls hash m pre) c → ∃ i, c.storesBlock key content chunkSize i)
  apart : ∀ pre c post, calls = pre ++ c :: post → c.key ≠ key →
    ∀ w, performedBy hash (afterCalls hash m pre) c = some w →
      ∀ w', (afterCalls hash m calls).fileWriters.get key = some w' →
        ∀ path, Uses w path → ¬ Uses w' path

/-- **Stored versions arrive.** When every block of a version is stored and then the file is
concluded, the file holds that version. -/
def Delivery (m : StorageManager) (calls : List StorageCall) : Prop :=
  ∀ pre seg c post, calls = pre ++ seg ++ c :: post → c.isStore = false →
    ∀ content, c.fileSize = content.length →
      StoredVersion hash (afterCalls hash m pre) seg c.key content c.chunkSize →
      ReturnsOk hash (afterCalls hash m (pre ++ seg)) c →
      (afterCalls hash m (pre ++ seg ++ [c])).disk.get (m.absPath c.key) = some content

/-- Every call has the sizes of the first call on its key that got to a writer, and that
one stores. -/
def FirstStored (config : GrizolConfig) (calls : List StorageCall) : Prop :=
  ∀ pre c post, calls = pre ++ c :: post → c.reaches config = true →
    ∃ first, (pre ++ [c]).find? (fun d => d.reaches config && d.key = c.key) = some first ∧
      first.isStore = true ∧ first.fileSize = c.fileSize ∧ first.chunkSize = c.chunkSize

end Grizol.Interface
