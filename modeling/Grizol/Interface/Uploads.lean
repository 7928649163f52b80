import Grizol.Model.BepProcessor

/-!
# What becomes of a file once all its blocks are stored

With the strategy `Remote` a complete file is copied to every backend, its locations
are recorded and the local file is removed. Nothing is lost (`NothingLost`) when the
local file is removed only after a copy succeeded and a location is recorded only for
a copy that did.
-/

set_option autoImplicit false

namespace Grizol.Interface

open Grizol.Library
open Grizol.Model Grizol.Model.Syncthing

variable (hash : String → ℕ → ℕ → UInt64) (sha256 : Bytes → Bytes)
  (debugRequest : Request → String)

end Grizol.Interface
