import Grizol.Library.Transition
import Grizol.Model.Syncthing

/-!
# Concurrent handshakes

How `main.rs` and `connectivity.rs` give an accepted connection its device id: one
slot, `client_device_id`, shared by all connections; `verify_client_cert` writes it
during the TLS handshake and `handle_incoming_data` reads it after `accept`. The
steps of any number of connections interleave.

`let _ = device_id_assigner.lock().await` drops its guard at the end of the
statement, so the lock is free again before `accept` starts.
-/

set_option autoImplicit false

namespace Grizol.Model

/-- Where a connection stands in `handle_incoming_data`. -/
inductive HandshakePhase where
  | start
  | locked
  | accepting
  | verified
  | rejected
  | accepted
  | failed
  | processing (cdid : DeviceId)
  deriving DecidableEq, Repr

/-- One step of the connection it names. -/
inductive HandshakeEvent where
  /-- `device_id_assigner.lock().await` returns its guard. -/
  | lockAssigner (connection : ℕ)
  /-- The pattern `_` binds nothing: the guard is dropped with its statement. -/
  | dropGuard (connection : ℕ)
  /-- `verify_client_cert` runs inside `accept`. -/
  | verifyClientCert (connection : ℕ)
  /-- `accept` returns an error. -/
  | acceptFails (connection : ℕ)
  /-- `accept` returns the TLS stream. -/
  | acceptReturns (connection : ℕ)
  /-- The slot is read and unwrapped; messages are processed from here on. -/
  | readSlot (connection : ℕ)
  deriving DecidableEq, Repr

/-- The shared slot, the holder of the assigner lock and the phase of each
connection. -/
structure Handshakes where
  clientDeviceId : Option DeviceId
  deviceIdAssigner : Option ℕ
  phase : ℕ → HandshakePhase

namespace Handshakes

/-- The server before any connection. -/
def init : Handshakes := ⟨none, none, fun _ => .start⟩

/-- The server with one connection in another phase. -/
def setPhase (s : Handshakes) (c : ℕ) (phase : HandshakePhase) : Handshakes :=
  { s with phase := Function.update s.phase c phase }

@[simp] theorem setPhase_clientDeviceId (s : Handshakes) (c : ℕ) (p : HandshakePhase) :
    (s.setPhase c p).clientDeviceId = s.clientDeviceId := rfl

@[simp] theorem setPhase_phase (s : Handshakes) (c : ℕ) (p : HandshakePhase) :
    (s.setPhase c p).phase = Function.update s.phase c p := rfl

variable (certificate : ℕ → DeviceId) (trustedPeers : List DeviceId)

/-- `PresharedAuth::verify_client_cert`: the slot is written before the trust check. -/
def verifyClientCert (s : Handshakes) (c : ℕ) : Handshakes :=
  let clientId := certificate c
  let s := { s with clientDeviceId := some clientId }
  if trustedPeers.any (· = clientId) then s.setPhase c .verified else s.setPhase c .rejected

/-- One step; `certificate` gives the device of the certificate each connection
presents. -/
def step (s : Handshakes) : HandshakeEvent → Option Handshakes
  | .lockAssigner c =>
      match s.phase c, s.deviceIdAssigner with
      | .start, none => some { s.setPhase c .locked with deviceIdAssigner := some c }
      | _, _ => none
  | .dropGuard c =>
      match s.phase c with
      | .locked => some { s.setPhase c .accepting with deviceIdAssigner := none }
      | _ => none
  | .verifyClientCert c =>
      match s.phase c with
      | .accepting => some (s.verifyClientCert certificate trustedPeers c)
      | _ => none
  | .acceptFails c =>
      match s.phase c with
      | .accepting | .verified | .rejected => some (s.setPhase c .failed)
      | _ => none
  | .acceptReturns c =>
      match s.phase c with
      | .verified => some (s.setPhase c .accepted)
      | _ => none
  | .readSlot c =>
      match s.phase c, s.clientDeviceId with
      | .accepted, some cdid => some (s.setPhase c (.processing cdid))
      | .accepted, none => some (s.setPhase c .failed)
      | _, _ => none

end Handshakes

end Grizol.Model
