import Mouser.Net.Handshake

/-!
# The binding of a bulk connection

The dialer of a bulk connection sends a `BulkHello` with a signature over keying material of that
connection, for its device id and the session of the interactive connection; the acceptor verifies
it for the session it expects. `Build.verifyBulkHello_eq_ok` says what it accepts.
-/

namespace Mouser

open Framing

/-- `"mouser-bulk-v1"` -/
def bulkLabel : List UInt8 := Cbor.ascii "mouser-bulk-v1"

def bulkExportLen : ℕ := 64

/-- `to_be_bytes` -/
def u64ToBeBytes (n : UInt64) : List UInt8 := (leBytes 8 n.toNat).reverse

/-- The context of the keying material: the device, and the session. -/
def bulkContext (deviceId : DeviceId) (interactiveSessionId : UInt64) : List UInt8 :=
  deviceId.bytes ++ u64ToBeBytes interactiveSessionId

def bulkExporter (connection : Connection) (deviceId : DeviceId) (interactiveSessionId : UInt64) :
    Except LinkError (List UInt8) :=
  match connection.exportKeyingMaterial bulkLabel (bulkContext deviceId interactiveSessionId)
      bulkExportLen with
  | none => .error (.tls "bulk exporter unavailable")
  | some out => .ok out

/-- An end of a bulk connection: the dialer's session, or the one the acceptor expects. -/
structure BulkEnd where
  identity : DeviceIdentity
  connection : Connection
  sessionId : UInt64

namespace Build

variable (B : Build)

def buildBulkHello (e : BulkEnd) : Except LinkError BulkHello := do
  let deviceId := e.identity.deviceId B.crypto
  let toSign ← bulkExporter e.connection deviceId e.sessionId
  return {
    deviceId := deviceId.bytes
    interactiveSessionId := e.sessionId
    channelSig := e.identity.sign B.crypto toSign }

def verifyBulkHello (hello : BulkHello) (connection : Connection) (expectedSessionId : UInt64) :
    Except LinkError Unit :=
  if hello.interactiveSessionId ≠ expectedSessionId then
    .error (.connect "BulkHello binds to a different interactive session")
  else do
    let leaf ← connection.peerLeafCert
    let pinnedId ← B.crypto.deviceIdFromCert leaf
    match toId hello.deviceId with
    | none => .error (.connect "BulkHello device_id is not 32 bytes")
    | some claimed =>
      if claimed ≠ pinnedId then
        .error (.connect "BulkHello device_id does not match the pinned cert")
      else
        let verifying ← B.crypto.verifyingKeyFromCert leaf
        let expected ← bulkExporter connection pinnedId expectedSessionId
        B.verifySignature verifying expected hello.channelSig "bulk channel_sig verification failed"

end Build

/-- **What `verify_bulk_hello` accepts**: a `BulkHello` for the session that is expected, with the
signature of the key that the certificate is of, over the keying material of the connection for that
session and the id of that key, which is the id in the `BulkHello`. -/
theorem Build.verifyBulkHello_eq_ok {B : Build} {hello : BulkHello} {connection : Connection}
    {expectedSessionId : UInt64} :
    B.verifyBulkHello hello connection expectedSessionId = .ok () ↔
      hello.interactiveSessionId = expectedSessionId ∧ hello.channelSig.length = 64 ∧
        ∃ key expected, connection.HasLeaf B.crypto key ∧
          hello.deviceId = (B.crypto.deviceIdFromPublicKey key).bytes ∧
          bulkExporter connection (B.crypto.deviceIdFromPublicKey key) expectedSessionId =
            .ok expected ∧
          B.crypto.verify key expected hello.channelSig = true := by
  rw [verifyBulkHello]
  by_cases hsession : hello.interactiveSessionId = expectedSessionId
  · rw [if_neg (not_not.2 hsession)]
    refine pinned_eq_ok.trans ?_
    simp only [Except.bind_eq_ok, verifySignature_eq_ok]
    refine ⟨?_, ?_⟩
    · rintro ⟨key, hleaf, hdevice, expected, hexport, hlength, hverify⟩
      exact ⟨hsession, hlength, key, expected, hleaf, hdevice, hexport, hverify⟩
    · rintro ⟨-, hlength, key, expected, hleaf, hdevice, hexport, hverify⟩
      exact ⟨key, hleaf, hdevice, expected, hexport, hlength, hverify⟩
  · rw [if_pos hsession]
    refine ⟨nofun, ?_⟩
    rintro ⟨h, -⟩
    exact absurd h hsession

/-- Where `connect_bulk` stands, once the connection is there. -/
inductive BulkDial where
  | sendingHello (payload : List UInt8)
  | returned (result : Except LinkError Unit)

/-- Where `accept_bulk_binding` stands. -/
inductive BulkAccept where
  | awaitingHello
  | returned (result : Except LinkError Unit)

namespace BulkDial

def start (B : Build) (e : BulkEnd) : BulkDial :=
  match do Build.payloadOf B.bulkHello (← B.buildBulkHello e) with
  | .error error => .returned (.error error)
  | .ok payload => .sendingHello payload

def act : BulkDial → Act BulkDial StreamMessage StreamMessage LinkError
  | .sendingHello payload => .send ⟨typeBulkHello, payload⟩ .returned
  | .returned _ => .done

end BulkDial

/-- The acceptor has read the first frame, or an error. -/
def Build.bindBulk (B : Build) (e : BulkEnd) (received : Except LinkError StreamMessage) :
    Except LinkError Unit := do
  let m ← received
  if m.msgType ≠ typeBulkHello then
    .error (.connect ("expected BulkHello (0x04), got type " ++ hexOfType m.msgType))
  else
    let hello ← valueOf B.bulkHello m.payload
    B.verifyBulkHello hello e.connection e.sessionId

/-- The id that a bulk connection gives of its peer. -/
def Connection.peerDeviceId (C : Crypto) (connection : Connection) : Option DeviceId :=
  match connection.peerLeafCert with
  | .error _ => none
  | .ok leaf => (C.deviceIdFromCert leaf).toOption

namespace BulkAccept

def act (B : Build) (e : BulkEnd) : BulkAccept → Act BulkAccept StreamMessage StreamMessage LinkError
  | .awaitingHello => .recv fun received => .returned (B.bindBulk e received)
  | .returned _ => .done

end BulkAccept

end Mouser
