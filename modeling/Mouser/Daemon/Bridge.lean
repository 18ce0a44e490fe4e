import Mathlib.Data.List.Sort
import Mouser.Daemon.Pairing
import Mouser.Daemon.Trust

/-!
# The state behind the UI

The bridge holds the connection as the user sees it. The serve loop reports it through the setters
below, and `command_loop` through `publish_connect_error`; the snapshot that UIs receive is built
from it, the pairing prompt, the settings, the discovered peers and the trust store.

The log tail and the diagnostics of a snapshot are left out: they are read from the clock, the
network interfaces and the log, and from fields that are here.
-/

namespace Mouser

inductive ConnectionStateDto where
  /-- No connection and none in progress. -/
  | idle
  | connecting
  | connected
deriving DecidableEq

structure ConnectionDto where
  state : ConnectionStateDto
  peerId : Option String
  owner : Option String
  epoch : Option UInt64
  error : Option String
deriving DecidableEq

namespace ConnectionDto

/-- `ConnectionDto::default`, which `set_idle` stores. -/
def idle : ConnectionDto where
  state := .idle
  peerId := none
  owner := none
  epoch := none
  error := none

/-- `set_connected` -/
def connected (peerId ownerId : String) : ConnectionDto where
  state := .connected
  peerId := some peerId
  owner := some ownerId
  epoch := none
  error := none

/-- `set_connecting` -/
def connecting (peerId : String) : ConnectionDto where
  state := .connecting
  peerId := some peerId
  owner := none
  epoch := none
  error := none

/-- `set_connect_error` and `publish_connect_error` -/
def connectError (reason : String) : ConnectionDto where
  state := .idle
  peerId := none
  owner := none
  epoch := none
  error := some reason

/-- `set_owner_epoch`; `none` where it returns without a report. -/
def setOwnerEpoch (conn : ConnectionDto) (ownerId : String) (epoch : UInt64) :
    Option ConnectionDto :=
  if conn.state = .connected then some { conn with owner := some ownerId, epoch := some epoch }
  else none

end ConnectionDto

/-- `connect_request`: whether a UI may have the daemon dial the peer. `live` is whether the
registry has it, `trusted` what the trust store answers. -/
def connectRequest (live : Bool) (trusted : Except String Bool) : Except String Unit :=
  if !live then .error "peer is not in the live discovery registry"
  else
    match trusted with
    | .ok true => .ok ()
    | .ok false => .error "peer is not trusted"
    | .error e => .error ("trust check failed: " ++ e)

/-! ## Snapshots -/

/-- What the snapshot shows of a peer's advertisement. -/
structure PeerAdvert where
  id : String
  name : String
  os : String
  /-- The resolved addresses, as text. -/
  addrs : List String
  iport : UInt16
deriving DecidableEq

structure PeerDto where
  id : String
  name : String
  os : String
  host : String
  port : UInt16
  trusted : Bool
deriving DecidableEq

structure DeviceDto where
  id : String
  name : String
  os : String
deriving DecidableEq

/-- What `build_snapshot` reads. -/
structure Shared (Settings : Type) where
  localDevice : DeviceDto
  /-- The registry's adverts, in the order in which its map lists them. -/
  registry : List PeerAdvert
  /-- The file of trusted peers. -/
  trustedPeers : Option String
  connection : ConnectionDto
  pairing : Option PairingDto
  settings : Settings

structure Snapshot (Settings : Type) where
  localDevice : DeviceDto
  peers : List PeerDto
  connection : ConnectionDto
  pairing : Option PairingDto
  settings : Settings
deriving DecidableEq

section

variable [ToUppercase]

/-- `store.is_peer_trusted(..).unwrap_or(false)` for the id of the advert. -/
def Shared.trusts {Settings : Type} (s : Shared Settings) (advert : PeerAdvert) : Bool :=
  match decodeDeviceId advert.id.toList, loadTrustedPeers s.trustedPeers with
  | some id, .ok peers => decide (id ∈ peers)
  | _, _ => false

def PeerDto.ofAdvert (advert : PeerAdvert) (trusted : Bool) : PeerDto :=
  let host := advert.addrs.headD ""
  { name := if advert.name.isEmpty then host else advert.name
    id := advert.id
    os := advert.os
    host
    port := advert.iport
    trusted }

def buildSnapshot {Settings : Type} (s : Shared Settings) : Snapshot Settings where
  localDevice := s.localDevice
  peers := ((s.registry.filter fun advert => advert.id ≠ s.localDevice.id).map fun advert =>
    PeerDto.ofAdvert advert (s.trusts advert)).mergeSort fun a b => a.id ≤ b.id
  connection := s.connection
  pairing := s.pairing
  settings := s.settings

end

end Mouser
