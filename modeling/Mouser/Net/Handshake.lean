import Mouser.Daemon.Store
import Mouser.Lib.Dialogue
import Mouser.Net.Identity
import Mouser.Protocol.Wire

/-!
# The handshake of the interactive plane

Both ends of a connection send a `Hello` with a signature over keying material of the connection,
verify the peer's, and answer it. `Exchange` is where `exchange` stands, and `Exchange.act` what it
does next; nothing of a peer reaches the daemon before it has returned. `handshake_agrees` says that
two ends of one connection that are what they say come through, in whatever order they run, and end
with each other's identity and session.
-/

namespace Mouser

/-- What an end is told of its connection. -/
structure Connection where
  /-- The certificates that the peer has presented. -/
  peerIdentity : Option (List (List UInt8))
  /-- Keying material for a label and a context, of a length. -/
  exportKeyingMaterial : List UInt8 → List UInt8 → ℕ → Option (List UInt8)

def Connection.peerLeafCert (connection : Connection) : Except LinkError (List UInt8) :=
  match connection.peerIdentity with
  | none => .error (.connect "peer presented no certificate")
  | some [] => .error (.connect "empty peer certificate chain")
  | some (leaf :: _) => .ok leaf

/-- A frame of the control stream, with what it carries. -/
structure StreamMessage where
  msgType : UInt16
  payload : List UInt8
deriving DecidableEq

/-- `"mouser-channel-v1"` -/
def channelLabel : List UInt8 := Cbor.ascii "mouser-channel-v1"

def channelExportLen : ℕ := 64

def lowerHexDigit (n : ℕ) : Char := if n < 10 then .ofNat (48 + n) else .ofNat (87 + n)

/-- `{ty:#06x}` -/
def hexOfType (ty : UInt16) : String :=
  .ofList ['0', 'x', lowerHexDigit (ty.toNat / 4096), lowerHexDigit (ty.toNat / 256 % 16),
    lowerHexDigit (ty.toNat / 16 % 16), lowerHexDigit (ty.toNat % 16)]

def CodecError.toString : CodecError → String
  | .encode m => "cbor encode: " ++ m
  | .decode m => "cbor decode: " ++ m

/-- What the ends of all connections share: the libraries, and what this build says of itself. -/
structure Build where
  crypto : Crypto
  hello : Ciborium Hello
  helloAck : Ciborium HelloAck
  bulkHello : Ciborium BulkHello
  localOs : Os
  pkgVersion : String

/-- An end of an interactive connection, with the session id it has drawn. -/
structure InteractiveEnd where
  identity : DeviceIdentity
  connection : Connection
  localSessionId : UInt64

structure VerifiedHello where
  peerId : DeviceId
  peerName : Option String
  localSessionId : UInt64
  peerSessionId : UInt64
deriving DecidableEq

/-- Where `exchange` stands. -/
inductive Exchange where
  | sendingHello (payload : List UInt8)
  | awaitingHello
  /-- The `Hello` is refused, and the peer is told. -/
  | rejecting (e : LinkError) (payload : List UInt8)
  | accepting (peer : Hello) (peerId : DeviceId) (payload : List UInt8)
  | awaitingAck (peer : Hello) (peerId : DeviceId)
  | returned (result : Except LinkError VerifiedHello)

def localCapabilities : CapabilitySet where
  members := [.keyboard, .mouse, .clipboard, .fileTransfer]
  ascending := by decide

def nonEmpty (value : String) : Option String :=
  let trimmed := trim value.toList
  if trimmed.isEmpty then none else some (.ofList trimmed)

namespace Build

variable (B : Build)

def channelExporter (connection : Connection) (deviceId : DeviceId) :
    Except LinkError (List UInt8) :=
  match connection.exportKeyingMaterial channelLabel deviceId.bytes channelExportLen with
  | none => .error (.tls "interactive channel exporter unavailable")
  | some out => .ok out

def buildHello (e : InteractiveEnd) : Except LinkError Hello := do
  let deviceId := e.identity.deviceId B.crypto
  let toSign ← channelExporter e.connection deviceId
  return {
    deviceId := deviceId.bytes
    name := ""
    os := B.localOs
    engineVersion := B.pkgVersion
    capabilities := localCapabilities
    role := .eligible
    sessionId := e.localSessionId
    channelSig := e.identity.sign B.crypto toSign }

/-- `to_cbor`, with the error of a frame. -/
def payloadOf {T : Type} (c : Ciborium T) (value : T) : Except LinkError (List UInt8) :=
  (toCbor c value).mapError fun e => .frame e.toString

def valueOf {T : Type} (c : Ciborium T) (payload : List UInt8) : Except LinkError T :=
  (fromCbor c payload).mapError fun e => .frame e.toString

def recvHello (received : Except LinkError StreamMessage) : Except LinkError Hello := do
  let m ← received
  if m.msgType ≠ typeHello then
    .error (.connect ("expected Hello (0x01), got type " ++ hexOfType m.msgType))
  else valueOf B.hello m.payload

def recvAck (received : Except LinkError StreamMessage) : Except LinkError HelloAck := do
  let m ← received
  if m.msgType ≠ typeHelloAck then
    .error (.connect ("expected HelloAck (0x02), got type " ++ hexOfType m.msgType))
  else valueOf B.helloAck m.payload

/-- `Signature::from_slice`, and `verify`. -/
def verifySignature (key expected signature : List UInt8) (failed : String) :
    Except LinkError Unit :=
  if signature.length ≠ 64 then
    .error (.connect ("malformed channel_sig: " ++ B.crypto.signatureError))
  else if B.crypto.verify key expected signature then .ok ()
  else .error (.connect failed)

def verifyHello (hello : Hello) (connection : Connection) : Except LinkError DeviceId := do
  let leaf ← connection.peerLeafCert
  let pinnedId ← B.crypto.deviceIdFromCert leaf
  match toId hello.deviceId with
  | none => .error (.connect "Hello device_id is not 32 bytes")
  | some claimed =>
    if claimed ≠ pinnedId then
      .error (.connect "Hello device_id does not match the pinned cert")
    else
      let verifying ← B.crypto.verifyingKeyFromCert leaf
      let expected ← channelExporter connection pinnedId
      B.verifySignature verifying expected hello.channelSig
        "interactive channel_sig verification failed"
      return pinnedId

end Build

/-! ## What is verified -/

/-- The certificate that the peer has presented is of the key. -/
def Connection.HasLeaf (C : Crypto) (connection : Connection) (key : List UInt8) : Prop :=
  C.isKey key = true ∧ ∃ leaf, connection.peerLeafCert = .ok leaf ∧ IsCertificate leaf key

theorem toId_eq_some {bytes : List UInt8} {id : DeviceId} :
    toId bytes = some id ↔ bytes = id.bytes := by
  refine ⟨?_, ?_⟩
  · intro h
    unfold toId at h
    split at h
    · cases h
      rfl
    · cases h
  · rintro rfl
    exact toId_bytes id

namespace Build

variable {B : Build}

theorem verifySignature_eq_ok {key expected signature : List UInt8} {failed : String}
    {done : Unit} :
    B.verifySignature key expected signature failed = .ok done ↔
      signature.length = 64 ∧ B.crypto.verify key expected signature = true := by
  rw [verifySignature]
  split
  · next hlength =>
    refine ⟨nofun, ?_⟩
    rintro ⟨h, -⟩
    exact absurd h hlength
  · next hlength =>
    split
    · next hverify => exact ⟨fun _ => ⟨not_not.1 hlength, hverify⟩, fun _ => rfl⟩
    · next hverify =>
      refine ⟨nofun, ?_⟩
      rintro ⟨-, h⟩
      exact absurd h hverify

/-- What comes of the key of the peer's certificate, once the id that the peer claims is found to be
the one of that key. -/
theorem pinned_eq_ok {connection : Connection} {device : List UInt8} {notId mismatch : LinkError}
    {β : Type} {f : DeviceId → List UInt8 → Except LinkError β} {b : β} :
    (do
      let leaf ← connection.peerLeafCert
      let pinnedId ← B.crypto.deviceIdFromCert leaf
      match toId device with
      | none => .error notId
      | some claimed =>
        if claimed ≠ pinnedId then .error mismatch
        else
          let verifying ← B.crypto.verifyingKeyFromCert leaf
          f pinnedId verifying) = Except.ok b ↔
      ∃ key, connection.HasLeaf B.crypto key ∧
        device = (B.crypto.deviceIdFromPublicKey key).bytes ∧
        f (B.crypto.deviceIdFromPublicKey key) key = .ok b := by
  simp only [Except.bind_eq_ok]
  refine ⟨?_, ?_⟩
  · rintro ⟨leaf, hleaf, id, hid, h⟩
    obtain ⟨key, hcert, hvalid, rfl⟩ := B.crypto.deviceIdFromCert_eq_ok.1 hid
    have hverifying := B.crypto.verifyingKeyFromCert_eq_ok.2 ⟨hcert, hvalid⟩
    cases hclaimed : toId device with
    | none =>
      rw [hclaimed] at h
      cases h
    | some claimed =>
      rw [hclaimed] at h
      dsimp only at h
      split at h
      · cases h
      · next hsame =>
        obtain rfl := not_not.1 hsame
        obtain ⟨key', hkey', hf⟩ := Except.bind_eq_ok.1 h
        obtain rfl := Except.ok.inj (hverifying.symm.trans hkey')
        exact ⟨key, ⟨hvalid, leaf, hleaf, hcert⟩, toId_eq_some.1 hclaimed, hf⟩
  · rintro ⟨key, ⟨hvalid, leaf, hleaf, hcert⟩, hdevice, hf⟩
    refine ⟨leaf, hleaf, _, B.crypto.deviceIdFromCert_eq_ok.2 ⟨key, hcert, hvalid, rfl⟩, ?_⟩
    rw [toId_eq_some.2 hdevice]
    dsimp only
    rw [if_neg (not_not.2 rfl), B.crypto.verifyingKeyFromCert_eq_ok.2 ⟨hcert, hvalid⟩]
    exact hf

/-- **What `verify_hello` accepts**: the signature of the key that the certificate is of, over the
keying material of the connection for the id of that key, which is the id in the `Hello`. -/
theorem verifyHello_eq_ok {hello : Hello} {connection : Connection} {id : DeviceId} :
    B.verifyHello hello connection = .ok id ↔
      hello.deviceId = id.bytes ∧ hello.channelSig.length = 64 ∧
        ∃ key expected, connection.HasLeaf B.crypto key ∧
          B.crypto.deviceIdFromPublicKey key = id ∧
          channelExporter connection id = .ok expected ∧
          B.crypto.verify key expected hello.channelSig = true := by
  rw [verifyHello, pinned_eq_ok]
  simp only [Except.bind_eq_ok, verifySignature_eq_ok, Except.pure_eq_ok]
  refine ⟨?_, ?_⟩
  · rintro ⟨key, hleaf, hdevice, expected, hexport, -, ⟨hlength, hverify⟩, rfl⟩
    exact ⟨hdevice, hlength, key, expected, hleaf, rfl, hexport, hverify⟩
  · rintro ⟨hdevice, hlength, key, expected, hleaf, rfl, hexport, hverify⟩
    exact ⟨key, hleaf, hdevice, expected, hexport, (), ⟨hlength, hverify⟩, rfl⟩

end Build

namespace Exchange

variable (B : Build) (e : InteractiveEnd)

/-- `exchange` is called. -/
def start : Exchange :=
  match do Build.payloadOf B.hello (← B.buildHello e) with
  | .error error => .returned (.error error)
  | .ok payload => .sendingHello payload

/-- The peer is told why; if that cannot be written, it is not. -/
def reject (error : LinkError) : Exchange :=
  match Build.payloadOf B.helloAck { status := .rejected, reason := some error.toString } with
  | .error _ => .returned (.error error)
  | .ok payload => .rejecting error payload

def accept (peer : Hello) (peerId : DeviceId) : Exchange :=
  match Build.payloadOf B.helloAck { status := .accepted, reason := none } with
  | .error error => .returned (.error error)
  | .ok payload => .accepting peer peerId payload

/-- The end has read what it takes for the peer's `Hello`. -/
def onHello (received : Except LinkError StreamMessage) : Exchange :=
  match B.recvHello received with
  | .error error => reject B error
  | .ok peer =>
    match B.verifyHello peer e.connection with
    | .error error => reject B error
    | .ok peerId => accept B peer peerId

def onAck (peer : Hello) (peerId : DeviceId) (received : Except LinkError StreamMessage) :
    Except LinkError VerifiedHello := do
  let ack ← B.recvAck received
  if ack.status ≠ .accepted then .error (.connect (ack.reason.getD "peer rejected Hello"))
  else
    return {
      peerId
      peerName := nonEmpty peer.name
      localSessionId := e.localSessionId
      peerSessionId := peer.sessionId }

/-- What `exchange` does next. -/
def act : Exchange → Act Exchange StreamMessage StreamMessage LinkError
  | .sendingHello payload => .send ⟨typeHello, payload⟩ fun
    | .error error => .returned (.error error)
    | .ok () => .awaitingHello
  | .awaitingHello => .recv fun received => onHello B e received
  | .rejecting error payload => .send ⟨typeHelloAck, payload⟩ fun _ => .returned (.error error)
  | .accepting peer peerId payload => .send ⟨typeHelloAck, payload⟩ fun
    | .error error => .returned (.error error)
    | .ok () => .awaitingAck peer peerId
  | .awaitingAck peer peerId => .recv fun received => .returned (onAck B e peer peerId received)
  | .returned _ => .done

end Exchange

/-! ## Two ends that are what they say -/

/-- What is relied on of Ed25519. -/
structure Crypto.Lawful (C : Crypto) : Prop where
  isKey_verifyingKey (seed : List UInt8) : C.isKey (C.verifyingKey seed) = true
  verify_sign (seed message : List UInt8) :
    C.verify (C.verifyingKey seed) message (C.sign seed message) = true
  length_sign (seed message : List UInt8) : (C.sign seed message).length = 64

/-- The libraries do what is relied on. -/
structure Build.Lawful (B : Build) : Prop where
  crypto : B.crypto.Lawful
  hello (hello : Hello) (h : Hello.schema.codec.Small hello) : B.hello.RoundTrips hello
  helloAck (ack : HelloAck) (h : HelloAck.schema.codec.Small ack) : B.helloAck.RoundTrips ack
  length_pkgVersion : (Utf8.encode B.pkgVersion.toList).length < 2 ^ 64

/-- The peer at the other end has presented the certificate of `identity`. -/
def Connection.Presents (C : Crypto) (connection : Connection) (identity : DeviceIdentity) : Prop :=
  ∃ leaf, connection.peerLeafCert = .ok leaf ∧ IsCertificate leaf (identity.publicKey C)

/-- The two are the ends of one connection: each has presented its certificate to the other, and
both get the same keying material. -/
structure InteractiveEnd.Connected (B : Build) (a b : InteractiveEnd) : Prop where
  presents_left : b.connection.Presents B.crypto a.identity
  presents_right : a.connection.Presents B.crypto b.identity
  exporter_eq : a.connection.exportKeyingMaterial = b.connection.exportKeyingMaterial
  available (id : DeviceId) :
    (a.connection.exportKeyingMaterial channelLabel id.bytes channelExportLen).isSome

namespace Exchange

variable {B : Build} {a b e : InteractiveEnd}

/-- The `Hello` that an end sends, when it gets its keying material. -/
def helloOf (B : Build) (e : InteractiveEnd) (toSign : List UInt8) : Hello where
  deviceId := (e.identity.deviceId B.crypto).bytes
  name := ""
  os := B.localOs
  engineVersion := B.pkgVersion
  capabilities := localCapabilities
  role := .eligible
  sessionId := e.localSessionId
  channelSig := e.identity.sign B.crypto toSign

theorem small_helloOf (hB : B.Lawful) (e : InteractiveEnd) (toSign : List UInt8) :
    Hello.schema.codec.Small (helloOf B e toSign) := by
  have hid : (e.identity.deviceId B.crypto).bytes.length < 2 ^ 64 := by
    rw [DeviceId.length_eq]
    decide
  have hsignature : (e.identity.sign B.crypto toSign).length < 2 ^ 64 := by
    rw [DeviceIdentity.sign, hB.crypto.length_sign]
    decide
  have hname : (Utf8.encode "".toList).length < 2 ^ 64 := by decide
  exact ⟨hid, hname, trivial, hB.length_pkgVersion, trivial, trivial, trivial, hsignature, trivial⟩

theorem small_accepted : HelloAck.schema.codec.Small { status := .accepted, reason := none } :=
  ⟨trivial, nofun, trivial⟩

/-- What the end `a` comes back with from an exchange with `b`. -/
def verifiedOf (B : Build) (a b : InteractiveEnd) : VerifiedHello where
  peerId := b.identity.deviceId B.crypto
  peerName := none
  localSessionId := a.localSessionId
  peerSessionId := b.localSessionId

theorem start_eq (hB : B.Lawful) {toSign : List UInt8}
    (hexport : Build.channelExporter e.connection (e.identity.deviceId B.crypto) = .ok toSign) :
    ∃ payload, fromCbor B.hello payload = .ok (helloOf B e toSign) ∧
      start B e = .sendingHello payload := by
  obtain ⟨payload, hwrite, hread⟩ := hB.hello (helloOf B e toSign) (small_helloOf hB e toSign)
  refine ⟨payload, hread, ?_⟩
  have hhello : B.buildHello e = .ok (helloOf B e toSign) := by
    rw [Build.buildHello, hexport]
    rfl
  have hpayload : Build.payloadOf B.hello (helloOf B e toSign) = .ok payload := by
    rw [Build.payloadOf, hwrite]
    rfl
  rw [start, hhello]
  change (match Build.payloadOf B.hello (helloOf B e toSign) with
    | .error error => returned (.error error)
    | .ok payload => sendingHello payload) = _
  rw [hpayload]

/-- **The `Hello` of the peer at the other end is verified.** -/
theorem verifyHello_eq (hB : B.Lawful) {toSign : List UInt8}
    (hpresents : e.connection.Presents B.crypto a.identity)
    (hexport : Build.channelExporter e.connection (a.identity.deviceId B.crypto) = .ok toSign) :
    B.verifyHello (helloOf B a toSign) e.connection = .ok (a.identity.deviceId B.crypto) := by
  obtain ⟨leaf, hleaf, hcert⟩ := hpresents
  have hkey : B.crypto.isKey (a.identity.publicKey B.crypto) = true :=
    hB.crypto.isKey_verifyingKey _
  have hid : B.crypto.deviceIdFromCert leaf = .ok (a.identity.deviceId B.crypto) :=
    B.crypto.deviceIdFromCert_eq_ok.2 ⟨_, hcert, hkey, rfl⟩
  have hverifying := B.crypto.verifyingKeyFromCert_eq_ok.2 ⟨hcert, hkey⟩
  have hclaimed : toId (helloOf B a toSign).deviceId = some (a.identity.deviceId B.crypto) :=
    toId_bytes _
  have hsignature : B.verifySignature (a.identity.publicKey B.crypto) toSign
      (helloOf B a toSign).channelSig "interactive channel_sig verification failed" = .ok () := by
    have hlength : (helloOf B a toSign).channelSig.length = 64 := hB.crypto.length_sign _ _
    have hverify : B.crypto.verify (a.identity.publicKey B.crypto) toSign
        (helloOf B a toSign).channelSig = true := hB.crypto.verify_sign _ _
    rw [Build.verifySignature, if_neg (not_not.2 hlength), if_pos hverify]
  simp only [Build.verifyHello, hleaf, hid, hclaimed, hverifying, hexport, hsignature, bind,
    Except.bind, pure, Except.pure, ne_eq, not_true_eq_false, if_false]

/-- The exchange of two ends over the control streams, from its start. -/
def talk (B : Build) (a b : InteractiveEnd) :
    Talk Exchange Exchange StreamMessage StreamMessage where
  left := start B a
  right := start B b
  toRight := []
  toLeft := []

/-- The exchange at its end: both have come back with the other's identity and session, and nothing
is left in the streams. -/
def agreed (B : Build) (a b : InteractiveEnd) :
    Talk Exchange Exchange StreamMessage StreamMessage where
  left := .returned (.ok (verifiedOf B a b))
  right := .returned (.ok (verifiedOf B b a))
  toRight := []
  toLeft := []

theorem onHello_eq (hB : B.Lawful) {toSign payload : List UInt8}
    (hpayload : fromCbor B.hello payload = .ok (helloOf B a toSign))
    (hpresents : e.connection.Presents B.crypto a.identity)
    (hexport : Build.channelExporter e.connection (a.identity.deviceId B.crypto) = .ok toSign) :
    ∃ ack, fromCbor B.helloAck ack = .ok { status := .accepted, reason := none } ∧
      onHello B e (.ok ⟨typeHello, payload⟩) =
        .accepting (helloOf B a toSign) (a.identity.deviceId B.crypto) ack := by
  obtain ⟨ack, hwrite, hread⟩ := hB.helloAck _ small_accepted
  refine ⟨ack, hread, ?_⟩
  have hrecv : B.recvHello (.ok ⟨typeHello, payload⟩) = .ok (helloOf B a toSign) := by
    simp only [Build.recvHello, Build.valueOf, hpayload, bind, Except.bind, Except.mapError, ne_eq,
      not_true_eq_false, if_false]
  have hack : Build.payloadOf B.helloAck { status := .accepted, reason := none } = .ok ack := by
    rw [Build.payloadOf, hwrite]
    rfl
  rw [onHello, hrecv]
  dsimp only
  rw [verifyHello_eq hB hpresents hexport]
  dsimp only
  rw [accept, hack]

theorem onAck_eq (toSign : List UInt8) {ack : List UInt8}
    (hack : fromCbor B.helloAck ack = .ok { status := .accepted, reason := none }) :
    onAck B e (helloOf B a toSign) (a.identity.deviceId B.crypto) (.ok ⟨typeHelloAck, ack⟩) =
      .ok (verifiedOf B e a) := by
  have hrecv : B.recvAck (.ok ⟨typeHelloAck, ack⟩) =
      .ok { status := .accepted, reason := none } := by
    simp only [Build.recvAck, Build.valueOf, hack, bind, Except.bind, Except.mapError, ne_eq,
      not_true_eq_false, if_false]
  rw [onAck, hrecv]
  rfl

/-- Each step is made by the one and then by the other. -/
def inTurn : List Side := [.left, .right, .left, .right, .left, .right, .left, .right]

/-- One run that comes through. -/
theorem inTurn_agreed (hB : B.Lawful) (h : a.Connected B b) :
    Steps (Talk.Step (act B a) (act B b)) 8 (talk B a b) (agreed B a b) ∧
      (talk B a b).exec (act B a) (act B b) inTurn = agreed B a b := by
  have hexport : ∀ id : DeviceId, ∃ out, Build.channelExporter a.connection id = .ok out ∧
      Build.channelExporter b.connection id = .ok out := by
    intro id
    obtain ⟨out, hout⟩ := Option.isSome_iff_exists.1 (h.available id)
    refine ⟨out, ?_, ?_⟩
    · rw [Build.channelExporter, hout]
    · rw [Build.channelExporter, ← h.exporter_eq, hout]
  obtain ⟨outA, haA, hbA⟩ := hexport (a.identity.deviceId B.crypto)
  obtain ⟨outB, haB, hbB⟩ := hexport (b.identity.deviceId B.crypto)
  obtain ⟨helloA, hreadA, hstartA⟩ := start_eq hB haA
  obtain ⟨helloB, hreadB, hstartB⟩ := start_eq hB hbB
  obtain ⟨ackA, hackA, honA⟩ := onHello_eq (e := a) hB hreadB h.presents_right haB
  obtain ⟨ackB, hackB, honB⟩ := onHello_eq (e := b) hB hreadA h.presents_left hbA
  have hdoneA := onAck_eq (e := a) (a := b) outB hackB
  have hdoneB := onAck_eq (e := b) (a := a) outA hackA
  rw [talk, hstartA, hstartB]
  refine ⟨?_, ?_⟩
  · refine .succ ⟨.left, rfl⟩ (.succ ⟨.right, rfl⟩ (.succ ⟨.left, rfl⟩ (.succ ⟨.right, rfl⟩ ?_)))
    dsimp only
    rw [honA, honB, agreed, ← hdoneA, ← hdoneB]
    exact .succ ⟨.left, rfl⟩ (.succ ⟨.right, rfl⟩ (.succ ⟨.left, rfl⟩ (.one ⟨.right, rfl⟩)))
  · change Talk.exec (act B a) (act B b) ⟨onHello B a (.ok ⟨typeHello, helloB⟩),
      onHello B b (.ok ⟨typeHello, helloA⟩), [], []⟩ [.left, .right, .left, .right] = _
    rw [honA, honB, agreed, ← hdoneA, ← hdoneB]
    rfl

theorem agreed_stuck : (agreed B a b).Stuck (act B a) (act B b) := by
  intro side
  cases side <;> rfl

end Exchange

/-- **The handshake agrees.** Two ends of one connection that have presented their own certificates
run `exchange` in any order: they make at most eight moves, one of them can move until they have,
and then both have come back, each with the other's verified identity, its own session id and the
other's, and both streams are empty. -/
theorem handshake_agrees {B : Build} (hB : B.Lawful) {a b : InteractiveEnd}
    (h : a.Connected B b) (sides : List Side) :
    let p := Exchange.act B a
    let q := Exchange.act B b
    let s := (Exchange.talk B a b).exec p q sides
    ∃ moves ≤ 8, Steps (Talk.Step p q) moves (Exchange.talk B a b) s ∧
      (moves < 8 → ∃ side t, s.move p q side = some t) ∧
      (moves = 8 → s = Exchange.agreed B a b) :=
  Talk.outcome (Exchange.inTurn_agreed hB h).1 Exchange.agreed_stuck sides

/-! ## Two ends -/

/-- The first `n` bytes, with zeros where there are fewer. -/
def fitTo (n : ℕ) (bytes : List UInt8) : List UInt8 := (bytes ++ List.replicate n 0).take n

theorem length_fitTo (n : ℕ) (bytes : List UInt8) : (fitTo n bytes).length = n := by
  rw [fitTo, List.length_take, List.length_append, List.length_replicate]
  omega

/-- The message, under the key, in clear. -/
def plainSignature (key message : List UInt8) : List UInt8 :=
  List.zipWith (· ^^^ ·) (fitTo 64 message) (fitTo 64 (key ++ key))

/-- What the libraries compute, with no secret to it: keys are seeds, and everybody can sign. -/
def plainCrypto : Crypto where
  verifyingKey := fitTo 32
  sign seed message := plainSignature (fitTo 32 seed) message
  isKey key := key.length == 32
  verify key message signature := signature == plainSignature key message
  sha256 spki := ⟨fitTo 32 (spki.drop 12), length_fitTo _ _⟩
  keyError := "Cannot decompress Edwards point"
  signatureError := "signature error"

theorem plainCrypto_lawful : plainCrypto.Lawful where
  isKey_verifyingKey seed := beq_iff_eq.2 (length_fitTo 32 seed)
  verify_sign _ _ := beq_self_eq_true _
  length_sign seed message := by
    change (List.zipWith _ _ _).length = 64
    rw [List.length_zipWith, length_fitTo, length_fitTo]
    rfl

def plainBuild : Build where
  crypto := plainCrypto
  hello := ciborium Hello.schema
  helloAck := ciborium HelloAck.schema
  bulkHello := ciborium BulkHello.schema
  localOs := .macos
  pkgVersion := "0.1.0"

theorem plainBuild_lawful : plainBuild.Lawful where
  crypto := plainCrypto_lawful
  hello _ h := ciborium_roundTrips (MessageType.depth_le .hello) h
  helloAck _ h := ciborium_roundTrips (MessageType.depth_le .helloAck) h
  length_pkgVersion := by decide

open Tlv in
/-- A certificate with a key and hardly anything else. -/
def bareCertificate (key : List UInt8) : List UInt8 :=
  let empty := element 4 0x30 []
  let spki := element 4 0x30 (element 4 0x30 [0x06, 0x03, 0x2B, 0x65, 0x70] ++
    element 4 0x03 (0 :: key))
  element 4 0x30 (element 4 0x30 (element 4 0x02 [1] ++ empty ++ empty ++ empty ++ empty ++ spki))

/-- The keying material of one connection: the context, how long it is, and the label. -/
def plainExporter (label context : List UInt8) (length : ℕ) : Option (List UInt8) :=
  some (fitTo length (fitTo 40 context ++
    [UInt8.ofNat context.length, if label = channelLabel then 0 else 1]))

def deskIdentity : DeviceIdentity := ⟨List.replicate 32 1⟩

def laptopIdentity : DeviceIdentity := ⟨List.replicate 32 2⟩

/-- The end of the one whose peer is `peer`. -/
def plainConnection (peer : DeviceIdentity) : Connection where
  peerIdentity := some [bareCertificate (peer.publicKey plainCrypto)]
  exportKeyingMaterial := plainExporter

def deskEnd : InteractiveEnd := ⟨deskIdentity, plainConnection laptopIdentity, 7⟩

def laptopEnd : InteractiveEnd := ⟨laptopIdentity, plainConnection deskIdentity, 9⟩

theorem isCertificate_desk :
    IsCertificate (bareCertificate (deskIdentity.publicKey plainCrypto))
      (deskIdentity.publicKey plainCrypto) :=
  ed25519PublicKeyFromCert_eq_ok.1 (by rfl)

theorem isCertificate_laptop :
    IsCertificate (bareCertificate (laptopIdentity.publicKey plainCrypto))
      (laptopIdentity.publicKey plainCrypto) :=
  ed25519PublicKeyFromCert_eq_ok.1 (by rfl)

theorem connected_desk_laptop : deskEnd.Connected plainBuild laptopEnd where
  presents_left := ⟨_, rfl, isCertificate_desk⟩
  presents_right := ⟨_, rfl, isCertificate_laptop⟩
  exporter_eq := rfl
  available _ := rfl

/-- The desk has sent its `Hello`, and answers the laptop's before the laptop has read it. -/
theorem handshake_agrees_desk :
    let p := Exchange.act plainBuild deskEnd
    let q := Exchange.act plainBuild laptopEnd
    let s := (Exchange.talk plainBuild deskEnd laptopEnd).exec p q [.left, .right, .left, .left]
    ∃ moves ≤ 8, Steps (Talk.Step p q) moves (Exchange.talk plainBuild deskEnd laptopEnd) s ∧
      (moves < 8 → ∃ side t, s.move p q side = some t) ∧
      (moves = 8 → s = Exchange.agreed plainBuild deskEnd laptopEnd) :=
  handshake_agrees plainBuild_lawful connected_desk_laptop [.left, .right, .left, .left]

end Mouser
