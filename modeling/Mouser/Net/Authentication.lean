import Mathlib.Logic.Function.Basic
import Mouser.Lib.Machine
import Mouser.Net.BulkBinding

/-!
# Who is at the other end

Any number of connections are open at once, between devices and whoever else is on the network, and
what an end receives is up to the network. All that is asked of it is that it makes no signature of
a device itself (`Network.Unforged`): keying material that verifies under a device's key was signed
by the device, at an end that has begun. `interactive_authentic` and `bulk_authentic` say that an
end that comes back with a device's identity shares its connection with that device.
-/

namespace Mouser

open Cbor

/-- Which part an end has in a handshake. -/
inductive Plane where
  | interactive (localSessionId : UInt64)
  | bulkDial (interactiveSessionId : UInt64)
  | bulkAccept (expectedSessionId : UInt64)

/-- An end of a connection at a device. -/
structure End where
  identity : DeviceIdentity
  connection : Connection
  policy : PinPolicy
  plane : Plane

inductive EndState where
  | idle
  | exchange (s : Exchange)
  | bulkDial (s : BulkDial)
  | bulkAccept (s : BulkAccept)

inductive EndInput where
  | begin
  /-- What has come of a send. -/
  | sent (outcome : Except LinkError Unit)
  | received (outcome : Except LinkError StreamMessage)

namespace End

variable (B : Build) (e : End)

def interactiveEnd (localSessionId : UInt64) : InteractiveEnd where
  identity := e.identity
  connection := e.connection
  localSessionId := localSessionId

def bulkEnd (sessionId : UInt64) : BulkEnd where
  identity := e.identity
  connection := e.connection
  sessionId := sessionId

/-- The state after an input; one that the process does not wait for leaves it alone. -/
def resume {σ : Type} (act : Act σ StreamMessage StreamMessage LinkError) (s : σ) : EndInput → σ
  | .begin => s
  | .sent outcome =>
    match act with
    | .send _ next => next outcome
    | _ => s
  | .received outcome =>
    match act with
    | .recv next => next outcome
    | _ => s

def next (s : EndState) (input : EndInput) : EndState :=
  match e.plane, s with
  | .interactive id, .idle =>
    match input with
    | .begin => .exchange (.start B (e.interactiveEnd id))
    | _ => .idle
  | .bulkDial id, .idle =>
    match input with
    | .begin => .bulkDial (.start B (e.bulkEnd id))
    | _ => .idle
  | .bulkAccept _, .idle =>
    match input with
    | .begin => .bulkAccept .awaitingHello
    | _ => .idle
  | .interactive id, .exchange s =>
    .exchange (resume (Exchange.act B (e.interactiveEnd id) s) s input)
  | .bulkDial _, .bulkDial s => .bulkDial (resume s.act s input)
  | .bulkAccept id, .bulkAccept s =>
    .bulkAccept (resume (BulkAccept.act B (e.bulkEnd id) s) s input)
  | _, s => s

/-- The message that the end signs when it begins. -/
def toSign : Option (List UInt8) :=
  match e.plane with
  | .interactive _ =>
    e.connection.exportKeyingMaterial channelLabel (e.identity.deviceId B.crypto).bytes
      channelExportLen
  | .bulkDial id =>
    e.connection.exportKeyingMaterial bulkLabel (bulkContext (e.identity.deviceId B.crypto) id)
      bulkExportLen
  | .bulkAccept _ => none

end End

/-- The ends at the devices, and which of them are of one connection. -/
structure Network (ι κ : Type) where
  build : Build
  ends : ι → End
  session : ι → κ
  /-- The keying material of a connection. -/
  exporter : κ → List UInt8 → List UInt8 → ℕ → Option (List UInt8)
  /-- Only the device has its key. -/
  honest : DeviceIdentity → Prop
  /-- What a device signs besides: its certificate, and its part in the handshakes of TLS. -/
  alsoSigned : DeviceIdentity → List UInt8 → Prop

namespace Network

variable {ι κ : Type} (N : Network ι κ)

/-- What is relied on of TLS and of the hash. -/
structure Sound : Prop where
  exporter_eq (i : ι) : (N.ends i).connection.exportKeyingMaterial = N.exporter (N.session i)
  /-- Keying material tells the connection, the label and the context. -/
  exporter_inj {s s' : κ} {label label' context context' out : List UInt8}
    (hlabel : label ∈ [channelLabel, bulkLabel]) (hlabel' : label' ∈ [channelLabel, bulkLabel])
    (hcontext : context.length ≤ 40) (hcontext' : context'.length ≤ 40)
    (h : N.exporter s label context 64 = some out)
    (h' : N.exporter s' label' context' 64 = some out) :
    s = s' ∧ label = label' ∧ context = context'
  length_exporter {s : κ} {label context out : List UInt8}
    (h : N.exporter s label context 64 = some out) : out.length = 64
  length_verifyingKey (seed : List UInt8) : (N.build.crypto.verifyingKey seed).length = 32
  deviceId_inj {key key' : List UInt8} (hkey : key.length = 32) (hkey' : key'.length = 32)
    (h : N.build.crypto.deviceIdFromPublicKey key = N.build.crypto.deviceIdFromPublicKey key') :
    key = key'
  length_alsoSigned {d : DeviceIdentity} {message : List UInt8} (h : N.alsoSigned d message) :
    message.length ≠ 64
  /-- A connection whose certificate the verifier has refused does not come about. -/
  pinned {i : ι} {leaf : List UInt8} (h : (N.ends i).connection.peerLeafCert = .ok leaf) :
    N.build.crypto.checkPin (N.ends i).policy leaf = .ok ()

/-- The device has signed the message. -/
def Signed (s : ι → EndState) (d : DeviceIdentity) (message : List UInt8) : Prop :=
  (∃ j, (N.ends j).identity = d ∧ s j ≠ .idle ∧ (N.ends j).toSign N.build = some message) ∨
    N.alsoSigned d message

/-- The signatures that a message can be read to carry. -/
def signatures (m : StreamMessage) : List (List UInt8) :=
  ((Build.valueOf N.build.hello m.payload).toOption.map Hello.channelSig).toList ++
    ((Build.valueOf N.build.bulkHello m.payload).toOption.map BulkHello.channelSig).toList

/-- **No signature is forged**: one that comes in, and that verifies under a device's key over
keying material of this connection, the device has made. -/
def Unforged (entry : Machine.Entry (ι → EndState) (ι × EndInput) Unit) : Prop :=
  ∀ i m, entry.input = (i, .received (.ok m)) → ∀ signature ∈ N.signatures m,
    ∀ label ∈ [channelLabel, bulkLabel], ∀ context : List UInt8, context.length ≤ 40 →
    ∀ message, (N.ends i).connection.exportKeyingMaterial label context 64 = some message →
    ∀ d, N.honest d → N.build.crypto.verify (d.publicKey N.build.crypto) message signature = true →
      N.Signed entry.pre d message

variable [DecidableEq ι]

/-- The ends, with whatever they are told. -/
def machine : Machine (ι → EndState) (ι × EndInput) Unit where
  step s input :=
    (Function.update s input.1 ((N.ends input.1).next N.build (s input.1) input.2), ())

def init : ι → EndState := fun _ => .idle

end Network

/-! ## What has been verified -/

/-- The identity that has been verified. -/
def Exchange.peer : Exchange → Option DeviceId
  | .accepting _ peerId _ => some peerId
  | .awaitingAck _ peerId => some peerId
  | .returned (.ok verified) => some verified.peerId
  | _ => none

/-- The message carries a `Hello` that is verified as that of `id`. -/
def Build.Verifies (B : Build) (connection : Connection) (input : EndInput) (id : DeviceId) : Prop :=
  ∃ m hello, input = .received (.ok m) ∧ Build.valueOf B.hello m.payload = .ok hello ∧
    B.verifyHello hello connection = .ok id

namespace Exchange

variable {B : Build} {e : InteractiveEnd} {id : DeviceId}

theorem peer_start : (start B e).peer = none := by
  unfold start
  split <;> rfl

theorem peer_reject (error : LinkError) : (reject B error).peer = none := by
  unfold reject
  split <;> rfl

/-- An identity comes out of a `Hello` that was verified as its. -/
theorem peer_onHello {received : Except LinkError StreamMessage}
    (h : (onHello B e received).peer = some id) :
    B.Verifies e.connection (.received received) id := by
  unfold onHello at h
  split at h
  · rw [peer_reject] at h
    cases h
  · next hello hhello =>
    split at h
    · rw [peer_reject] at h
      cases h
    · next peerId hverified =>
      obtain ⟨m, rfl, hm⟩ := Except.bind_eq_ok.1 hhello
      have hid : peerId = id := by
        unfold accept at h
        split at h
        · cases h
        · exact Option.some.inj h
      subst hid
      split at hm
      · cases hm
      · exact ⟨m, hello, rfl, hm, hverified⟩

theorem peer_onAck {peer : Hello} {peerId : DeviceId} {received : Except LinkError StreamMessage}
    (h : (returned (onAck B e peer peerId received)).peer = some id) : peerId = id := by
  cases hack : onAck B e peer peerId received with
  | error error =>
    rw [hack] at h
    cases h
  | ok verified =>
    rw [hack] at h
    obtain ⟨ack, -, hack⟩ := Except.bind_eq_ok.1 hack
    split at hack
    · cases hack
    · obtain rfl := Except.pure_eq_ok.1 hack
      exact Option.some.inj h

/-- **What a step verifies**: no identity but that of a verified `Hello` comes up. -/
theorem peer_resume {s : Exchange} {input : EndInput}
    (h : (End.resume (act B e s) s input).peer = some id) :
    s.peer = some id ∨ B.Verifies e.connection input id := by
  cases input with
  | begin => exact .inl h
  | sent outcome =>
    cases s with
    | sendingHello payload => cases outcome <;> cases h
    | awaitingHello => cases h
    | rejecting error payload => cases h
    | accepting peer peerId payload =>
      cases outcome with
      | error error => cases h
      | ok _ => exact .inl h
    | awaitingAck peer peerId => exact .inl h
    | returned result => exact .inl h
  | received outcome =>
    cases s with
    | sendingHello payload => cases h
    | awaitingHello => exact .inr (peer_onHello h)
    | rejecting error payload => cases h
    | accepting peer peerId payload => exact .inl h
    | awaitingAck peer peerId => exact .inl (congrArg some (peer_onAck h))
    | returned result => exact .inl h

end Exchange

namespace End

variable {B : Build} {e : End} {s : EndState} {input : EndInput}

/-- The identity that is verified after a step was so before, or has been verified in it. -/
theorem peer_next {st : Exchange} {id : DeviceId} (h : e.next B s input = .exchange st)
    (hid : st.peer = some id) :
    (∃ st₀, s = .exchange st₀ ∧ st₀.peer = some id) ∨ B.Verifies e.connection input id := by
  unfold next at h
  split at h
  · split at h
    · cases h
      rw [Exchange.peer_start] at hid
      cases hid
    · cases h
  · split at h <;> cases h
  · split at h <;> cases h
  · next st₀ _ =>
    cases h
    exact (Exchange.peer_resume hid).imp_left fun hpeer => ⟨st₀, rfl, hpeer⟩
  · cases h
  · cases h
  · subst h
    exact .inl ⟨st, rfl, hid⟩

/-- The same for the acceptor of a bulk connection. -/
theorem accepted_next {expected : UInt64} (hplane : e.plane = .bulkAccept expected)
    (h : e.next B s input = .bulkAccept (.returned (.ok ()))) :
    s = .bulkAccept (.returned (.ok ())) ∨
      ∃ received, input = .received received ∧
        B.bindBulk (e.bulkEnd expected) received = .ok () := by
  unfold next at h
  rw [hplane] at h
  cases s with
  | idle => cases input <;> cases h
  | exchange st => cases h
  | bulkDial st => cases h
  | bulkAccept st =>
    have hst := EndState.bulkAccept.inj h
    cases st with
    | awaitingHello =>
      cases input with
      | begin => cases hst
      | sent outcome => cases hst
      | received outcome => exact .inr ⟨outcome, rfl, BulkAccept.returned.inj hst⟩
    | returned result => exact .inl (by cases input <;> exact congrArg _ hst)

end End

/-! ## Who has signed -/

/-- The id that a connection gives is that of the key of the certificate. -/
theorem Connection.HasLeaf.peerDeviceId {C : Crypto} {connection : Connection} {key : List UInt8}
    (h : connection.HasLeaf C key) :
    connection.peerDeviceId C = some (C.deviceIdFromPublicKey key) := by
  obtain ⟨hvalid, leaf, hleaf, hcert⟩ := h
  rw [Connection.peerDeviceId, hleaf]
  dsimp only
  rw [C.deviceIdFromCert_eq_ok.2 ⟨key, hcert, hvalid, rfl⟩]
  rfl

theorem End.next_ne_idle {B : Build} {e : End} {s : EndState} (h : s ≠ .idle) (input : EndInput) :
    e.next B s input ≠ .idle := by
  unfold End.next
  split <;> simp_all

theorem u64ToBeBytes_injective : Function.Injective u64ToBeBytes := by
  intro m n h
  have hm : m.toNat < 256 ^ 8 := m.toNat_lt
  have hn : n.toNat < 256 ^ 8 := n.toNat_lt
  exact UInt64.toNat_inj.1 (Framing.leBytes_injOn hm hn (List.reverse_injective h))

theorem length_u64ToBeBytes (n : UInt64) : (u64ToBeBytes n).length = 8 := by
  rw [u64ToBeBytes, List.length_reverse, Framing.length_leBytes]

theorem length_bulkContext (id : DeviceId) (sessionId : UInt64) :
    (bulkContext id sessionId).length = 40 := by
  rw [bulkContext, List.length_append, id.length_eq, length_u64ToBeBytes]

/-- The context tells the device and the session. -/
theorem bulkContext_inj {id id' : DeviceId} {sessionId sessionId' : UInt64}
    (h : bulkContext id sessionId = bulkContext id' sessionId') :
    id = id' ∧ sessionId = sessionId' := by
  obtain ⟨hid, hsession⟩ := List.append_inj h (id.length_eq.trans id'.length_eq.symm)
  exact ⟨DeviceId.bytes_injective hid, u64ToBeBytes_injective hsession⟩

theorem channelLabel_ne_bulkLabel : channelLabel ≠ bulkLabel := by decide

namespace Network

variable {ι κ : Type} {N : Network ι κ}

/-- At the connection of end `i`, the device `d` has begun an end with a part of the given kind. -/
def Met (N : Network ι κ) (s : ι → EndState) (i : ι) (d : DeviceIdentity) (part : Plane → Prop) :
    Prop :=
  ∃ j, (N.ends j).identity = d ∧ N.session j = N.session i ∧ s j ≠ .idle ∧ part (N.ends j).plane

/-- **Who has signed keying material of a connection**: the device, at an end of that connection
whose part it is to sign just that. -/
theorem Signed.met (hN : N.Sound) {s : ι → EndState} {i : ι} {d : DeviceIdentity}
    {label context message : List UInt8} (hlabel : label ∈ [channelLabel, bulkLabel])
    (hcontext : context.length ≤ 40)
    (hexport : (N.ends i).connection.exportKeyingMaterial label context 64 = some message)
    (h : N.Signed s d message) :
    N.Met s i d fun plane =>
      (∃ id, plane = .interactive id ∧ label = channelLabel ∧
        context = (d.deviceId N.build.crypto).bytes) ∨
      ∃ id, plane = .bulkDial id ∧ label = bulkLabel ∧
        context = bulkContext (d.deviceId N.build.crypto) id := by
  rw [hN.exporter_eq] at hexport
  rcases h with ⟨j, rfl, hbegun, hsign⟩ | hother
  · have hdeviceLength := ((N.ends j).identity.deviceId N.build.crypto).length_eq
    unfold End.toSign at hsign
    split at hsign
    · next id hplane =>
      rw [hN.exporter_eq] at hsign
      obtain ⟨hsession, rfl, rfl⟩ :=
        hN.exporter_inj (.head _) hlabel (by omega) hcontext hsign hexport
      exact ⟨j, rfl, hsession, hbegun, .inl ⟨id, hplane, rfl, rfl⟩⟩
    · next id hplane =>
      rw [hN.exporter_eq] at hsign
      obtain ⟨hsession, rfl, rfl⟩ := hN.exporter_inj (.tail _ (.head _)) hlabel
        (length_bulkContext _ _).le hcontext hsign hexport
      exact ⟨j, rfl, hsession, hbegun, .inr ⟨id, hplane, rfl, rfl⟩⟩
    · cases hsign
  · exact absurd (hN.length_exporter hexport) (hN.length_alsoSigned hother)

/-- The key of the certificate is that of the device whose id it gives. -/
theorem Sound.key_eq (hN : N.Sound) {connection : Connection} {key : List UInt8}
    {d : DeviceIdentity} (hleaf : connection.HasLeaf N.build.crypto key)
    (hid : N.build.crypto.deviceIdFromPublicKey key = d.deviceId N.build.crypto) :
    key = d.publicKey N.build.crypto := by
  obtain ⟨-, leaf, -, hcert⟩ := hleaf
  exact hN.deviceId_inj hcert.length_eq (hN.length_verifyingKey _) hid

/-- A pinned certificate is of the device that it is pinned to. -/
theorem Sound.pinned_eq (hN : N.Sound) {i : ι} {key : List UInt8} {id : DeviceId}
    (hleaf : (N.ends i).connection.HasLeaf N.build.crypto key)
    (hpolicy : (N.ends i).policy = .pinned id) :
    N.build.crypto.deviceIdFromPublicKey key = id := by
  obtain ⟨hvalid, leaf, hleaf, hcert⟩ := hleaf
  have hpinned := hN.pinned hleaf
  rw [Crypto.checkPin, N.build.crypto.deviceIdFromCert_eq_ok.2 ⟨key, hcert, hvalid, rfl⟩,
    hpolicy] at hpinned
  dsimp only at hpinned
  split at hpinned
  · cases hpinned
  · next hsame => exact (not_not.1 hsame).symm

variable [DecidableEq ι]

theorem Met.step {s : ι → EndState} {i : ι} {d : DeviceIdentity} {part : Plane → Prop}
    (h : N.Met s i d part) (input : ι × EndInput) : N.Met (N.machine.step s input).1 i d part := by
  obtain ⟨j, hd, hsession, hbegun, hpart⟩ := h
  refine ⟨j, hd, hsession, ?_, hpart⟩
  by_cases hj : j = input.1
  · subst hj
    simp only [machine, Function.update_self]
    exact End.next_ne_idle hbegun _
  · simp only [machine, Function.update_of_ne hj]
    exact hbegun

/-- What is known of the identity that end `i` has verified: it is that of the certificate, and when
a device has it, the device is at the other end. -/
structure Known (N : Network ι κ) (s : ι → EndState) (i : ι) (id : DeviceId) (part : Plane → Prop) :
    Prop where
  leaf : ∃ key, (N.ends i).connection.HasLeaf N.build.crypto key ∧
    N.build.crypto.deviceIdFromPublicKey key = id
  met (d : DeviceIdentity) (hd : N.honest d) (hid : d.deviceId N.build.crypto = id) : N.Met s i d part

theorem Known.step {s : ι → EndState} {i : ι} {id : DeviceId} {part : Plane → Prop}
    (h : N.Known s i id part) (input : ι × EndInput) :
    N.Known (N.machine.step s input).1 i id part :=
  ⟨h.leaf, fun d hd hid => (h.met d hd hid).step input⟩

def isInteractive : Plane → Prop
  | .interactive _ => True
  | _ => False

/-- Everything that has been verified is known. -/
structure Inv (N : Network ι κ) (s : ι → EndState) : Prop where
  exchange (i : ι) (st : Exchange) (hst : s i = .exchange st) (id : DeviceId)
    (hid : st.peer = some id) : N.Known s i id isInteractive
  bulk (i : ι) (expected : UInt64) (hplane : (N.ends i).plane = .bulkAccept expected)
    (hst : s i = .bulkAccept (.returned (.ok ()))) :
    ∃ id, N.Known s i id (· = .bulkDial expected)

/-- **A verified `Hello` is known**, when its signature is not forged. -/
theorem Known.of_verifies (hN : N.Sound) {s : ι → EndState} {i : ι} {input : EndInput}
    {id : DeviceId} (hunforged : N.Unforged (N.machine.entry s (i, input)))
    (h : N.build.Verifies (N.ends i).connection input id) : N.Known s i id isInteractive := by
  obtain ⟨m, hello, rfl, hhello, hverified⟩ := h
  obtain ⟨-, -, key, expected, hleaf, rfl, hexport, hverify⟩ := Build.verifyHello_eq_ok.1 hverified
  refine ⟨⟨key, hleaf, rfl⟩, fun d hd hid => ?_⟩
  obtain rfl := hN.key_eq hleaf hid.symm
  have hmaterial : (N.ends i).connection.exportKeyingMaterial channelLabel
      (d.deviceId N.build.crypto).bytes 64 = some expected := by
    rw [Build.channelExporter] at hexport
    split at hexport
    · cases hexport
    · next out hout =>
      obtain rfl := Except.ok.inj hexport
      exact hout
  have hcontext : (d.deviceId N.build.crypto).bytes.length ≤ 40 := by
    rw [DeviceId.length_eq]
    decide
  have hsignature : hello.channelSig ∈ N.signatures m := by
    rw [signatures, hhello]
    exact List.mem_append_left _ (.head _)
  have hsigned := hunforged i m rfl _ hsignature _ (.head _) _ hcontext _ hmaterial d hd hverify
  obtain ⟨j, hj, hsession, hbegun, hpart⟩ :=
    Signed.met hN (.head _) hcontext hmaterial hsigned
  refine ⟨j, hj, hsession, hbegun, ?_⟩
  rcases hpart with ⟨_, hplane, -, -⟩ | ⟨_, -, hlabel, -⟩
  · rw [hplane]
    trivial
  · exact absurd hlabel channelLabel_ne_bulkLabel

/-- The same for a bulk connection. -/
theorem Known.of_bindBulk (hN : N.Sound) {s : ι → EndState} {i : ι}
    {received : Except LinkError StreamMessage} {expected : UInt64}
    (hunforged : N.Unforged (N.machine.entry s (i, .received received)))
    (h : N.build.bindBulk ((N.ends i).bulkEnd expected) received = .ok ()) :
    ∃ id, N.Known s i id (· = .bulkDial expected) := by
  obtain ⟨m, rfl, hm⟩ := Except.bind_eq_ok.1 h
  split at hm
  · cases hm
  obtain ⟨hello, hhello, hverified⟩ := Except.bind_eq_ok.1 hm
  obtain ⟨-, -, key, message, hleaf, -, hexport, hverify⟩ := Build.verifyBulkHello_eq_ok.1 hverified
  refine ⟨_, ⟨key, hleaf, rfl⟩, fun d hd hid => ?_⟩
  obtain rfl := hN.key_eq hleaf hid.symm
  have hmaterial : (N.ends i).connection.exportKeyingMaterial bulkLabel
      (bulkContext (d.deviceId N.build.crypto) expected) 64 = some message := by
    rw [bulkExporter] at hexport
    split at hexport
    · cases hexport
    · next out hout =>
      obtain rfl := Except.ok.inj hexport
      exact hout
  have hcontext := (length_bulkContext (d.deviceId N.build.crypto) expected).le
  have hsignature : hello.channelSig ∈ N.signatures m := by
    rw [signatures, hhello]
    exact List.mem_append_right _ (.head _)
  have hsigned :=
    hunforged i m rfl _ hsignature _ (.tail _ (.head _)) _ hcontext _ hmaterial d hd hverify
  obtain ⟨j, hj, hsession, hbegun, hpart⟩ :=
    Signed.met hN (.tail _ (.head _)) hcontext hmaterial hsigned
  refine ⟨j, hj, hsession, hbegun, ?_⟩
  rcases hpart with ⟨_, -, hlabel, -⟩ | ⟨sessionId, hplane, -, hsame⟩
  · exact absurd hlabel.symm channelLabel_ne_bulkLabel
  · rw [hplane, (bulkContext_inj hsame).2]

omit [DecidableEq ι] in
theorem inv_init : N.Inv init := ⟨nofun, nofun⟩

/-- Every step keeps it that no signature is forged in. -/
theorem Inv.step (hN : N.Sound) {s : ι → EndState} (h : N.Inv s) (input : ι × EndInput)
    (hunforged : N.Unforged (N.machine.entry s input)) : N.Inv (N.machine.step s input).1 := by
  obtain ⟨k, input⟩ := input
  have hself : (N.machine.step s (k, input)).1 k = (N.ends k).next N.build (s k) input :=
    Function.update_self ..
  have hother : ∀ i, i ≠ k → (N.machine.step s (k, input)).1 i = s i := fun i hi =>
    Function.update_of_ne hi ..
  refine ⟨fun i st hst id hid => ?_, fun i expected hplane hst => ?_⟩
  · refine Known.step ?_ (k, input)
    by_cases hi : i = k
    · subst hi
      rw [hself] at hst
      rcases End.peer_next hst hid with ⟨st₀, hst₀, hpeer⟩ | hverifies
      · exact h.exchange i st₀ hst₀ id hpeer
      · exact Known.of_verifies hN hunforged hverifies
    · rw [hother i hi] at hst
      exact h.exchange i st hst id hid
  · have hknown : ∃ id, N.Known s i id (· = .bulkDial expected) := by
      by_cases hi : i = k
      · subst hi
        rw [hself] at hst
        rcases End.accepted_next hplane hst with hbefore | ⟨received, rfl, hbind⟩
        · exact h.bulk i expected hplane hbefore
        · exact Known.of_bindBulk hN hunforged hbind
      · rw [hother i hi] at hst
        exact h.bulk i expected hplane hst
    obtain ⟨id, hid⟩ := hknown
    exact ⟨id, hid.step (k, input)⟩

theorem inv_exec (hN : N.Sound) (inputs : List (ι × EndInput))
    (hunforged : ∀ entry ∈ N.machine.trace init inputs, N.Unforged entry) :
    N.Inv (N.machine.exec init inputs) :=
  N.machine.inv_exec_of inv_init (fun _ input h hG => h.step hN input hG) inputs hunforged

end Network

/-- **Nobody is in the middle of an interactive connection.** In every run in which no signature is
forged, an end that comes back with a device's identity, or that is pinned to it, has that device at
the other end: the device has begun an interactive end of the same connection. -/
theorem interactive_authentic {ι κ : Type} [DecidableEq ι] {N : Network ι κ} (hN : N.Sound)
    (inputs : List (ι × EndInput))
    (hunforged : ∀ entry ∈ N.machine.trace Network.init inputs, N.Unforged entry)
    {i : ι} {verified : VerifiedHello}
    (hi : N.machine.exec Network.init inputs i = .exchange (.returned (.ok verified)))
    {d : DeviceIdentity} (hd : N.honest d)
    (hid : verified.peerId = d.deviceId N.build.crypto ∨
      (N.ends i).policy = .pinned (d.deviceId N.build.crypto)) :
    verified.peerId = d.deviceId N.build.crypto ∧
      N.Met (N.machine.exec Network.init inputs) i d Network.isInteractive := by
  have hknown := (Network.inv_exec hN inputs hunforged).exchange i _ hi verified.peerId rfl
  have hpeer : verified.peerId = d.deviceId N.build.crypto := by
    rcases hid with hid | hpolicy
    · exact hid
    · obtain ⟨key, hleaf, hkey⟩ := hknown.leaf
      rw [← hkey]
      exact hN.pinned_eq hleaf hpolicy
  exact ⟨hpeer, hknown.met d hd hpeer.symm⟩

/-- **A bulk connection belongs to its session.** In every run in which no signature is forged, a
bulk connection is accepted from a device, by the id that it gives of its peer or by what it is
pinned to, only when the device has dialed that connection for the session that is expected. -/
theorem bulk_authentic {ι κ : Type} [DecidableEq ι] {N : Network ι κ} (hN : N.Sound)
    (inputs : List (ι × EndInput))
    (hunforged : ∀ entry ∈ N.machine.trace Network.init inputs, N.Unforged entry)
    {i : ι} {expected : UInt64} (hplane : (N.ends i).plane = .bulkAccept expected)
    (hi : N.machine.exec Network.init inputs i = .bulkAccept (.returned (.ok ())))
    {d : DeviceIdentity} (hd : N.honest d)
    (hid : (N.ends i).connection.peerDeviceId N.build.crypto = some (d.deviceId N.build.crypto) ∨
      (N.ends i).policy = .pinned (d.deviceId N.build.crypto)) :
    N.Met (N.machine.exec Network.init inputs) i d (· = .bulkDial expected) := by
  obtain ⟨id, hknown⟩ := (Network.inv_exec hN inputs hunforged).bulk i expected hplane hi
  obtain ⟨key, hleaf, rfl⟩ := hknown.leaf
  have hkey : N.build.crypto.deviceIdFromPublicKey key = d.deviceId N.build.crypto := by
    rcases hid with hid | hpolicy
    · rw [hleaf.peerDeviceId] at hid
      exact Option.some.inj hid
    · exact hN.pinned_eq hleaf hpolicy
  exact hknown.met d hd hkey.symm

/-! ## One connection -/

/-- The desk and the laptop at the two ends of one connection. The laptop is taken by whoever has
its seed; the desk has its own. -/
def plainNetwork (desk laptop : Plane) : Network Bool Unit where
  build := plainBuild
  ends
    | false => ⟨deskIdentity, plainConnection laptopIdentity, .trustOnFirstUse, desk⟩
    | true => ⟨laptopIdentity, plainConnection deskIdentity, .trustOnFirstUse, laptop⟩
  session _ := ()
  exporter _ := plainExporter
  honest d := d = deskIdentity
  alsoSigned _ _ := False

theorem fitTo_append_take {n : ℕ} {bytes : List UInt8} (h : bytes.length ≤ n) :
    (fitTo n bytes).take bytes.length = bytes := by
  rw [fitTo, List.take_take, min_eq_left h, List.take_left]

theorem plainExporter_inj {label label' context context' out : List UInt8}
    (hlabel : label ∈ [channelLabel, bulkLabel]) (hlabel' : label' ∈ [channelLabel, bulkLabel])
    (hcontext : context.length ≤ 40) (hcontext' : context'.length ≤ 40)
    (h : plainExporter label context 64 = some out)
    (h' : plainExporter label' context' 64 = some out) : label = label' ∧ context = context' := by
  have hparts : ∀ (c : List UInt8) (x y : UInt8),
      fitTo 64 (fitTo 40 c ++ [x, y]) = fitTo 40 c ++ ([x, y] ++ List.replicate 22 0) := by
    intro c x y
    have hlength : (fitTo 40 c ++ [x, y]).length = 42 := by
      rw [List.length_append, length_fitTo]
      rfl
    rw [fitTo, List.take_append, hlength, List.take_of_length_le (by omega), List.append_assoc]
    rfl
  have heq := (Option.some.inj h).trans (Option.some.inj h').symm
  rw [hparts, hparts] at heq
  obtain ⟨hbytes, hrest⟩ :=
    List.append_inj heq ((length_fitTo _ _).trans (length_fitTo _ _).symm)
  obtain ⟨hlen, hrest⟩ := List.cons.inj hrest
  obtain ⟨hwhich, -⟩ := List.cons.inj hrest
  have hlength : context.length = context'.length := by
    have hnat := congrArg UInt8.toNat hlen
    rw [UInt8.toNat_ofNat', UInt8.toNat_ofNat'] at hnat
    omega
  refine ⟨?_, ?_⟩
  · simp only [List.mem_cons, List.not_mem_nil, or_false] at hlabel hlabel'
    rcases hlabel with rfl | rfl <;> rcases hlabel' with rfl | rfl
    · rfl
    · exact absurd hwhich (by decide)
    · exact absurd hwhich (by decide)
    · rfl
  · rw [← fitTo_append_take hcontext, ← fitTo_append_take hcontext', hbytes, hlength]

theorem plainNetwork_sound (desk laptop : Plane) : (plainNetwork desk laptop).Sound where
  exporter_eq i := by cases i <;> rfl
  exporter_inj hlabel hlabel' hcontext hcontext' h h' :=
    ⟨rfl, plainExporter_inj hlabel hlabel' hcontext hcontext' h h'⟩
  length_exporter h := by
    rw [← Option.some.inj h]
    exact length_fitTo 64 _
  length_verifyingKey seed := length_fitTo 32 seed
  deviceId_inj {key key'} hkey hkey' h := by
    have hid : ∀ k : List UInt8, k.length = 32 →
        (plainCrypto.deviceIdFromPublicKey k).bytes = k := by
      intro k hk
      change ((ed25519SpkiPrefix ++ k).drop 12 ++ List.replicate 32 0).take 32 = k
      have hdrop : (ed25519SpkiPrefix ++ k).drop 12 = k := rfl
      rw [hdrop, List.take_left' hk]
    rw [← hid key hkey, ← hid key' hkey']
    exact congrArg DeviceId.bytes h
  length_alsoSigned := nofun
  pinned {i leaf} h := by
    cases i with
    | false =>
      obtain rfl := Except.ok.inj h
      rfl
    | true =>
      obtain rfl := Except.ok.inj h
      rfl

/-- The key and the signature tell the message. -/
theorem plainSignature_inj {key message message' : List UInt8} (hlength : message.length = 64)
    (hlength' : message'.length = 64)
    (h : plainSignature key message = plainSignature key message') : message = message' := by
  have hfit : ∀ {m : List UInt8}, m.length = 64 → fitTo 64 m = m := fun hm => by
    rw [fitTo, List.take_left' hm]
  have hundo : ∀ {m : List UInt8}, m.length = 64 →
      List.zipWith (· ^^^ ·) (plainSignature key m) (fitTo 64 (key ++ key)) = m := by
    intro m hm
    have hkeyLength := length_fitTo 64 (key ++ key)
    rw [plainSignature, hfit hm]
    refine List.ext_getElem (by simp [hm, hkeyLength]) fun i h₁ h₂ => ?_
    rw [List.getElem_zipWith, List.getElem_zipWith, UInt8.xor_assoc, UInt8.xor_self, UInt8.xor_zero]
  rw [← hundo hlength, ← hundo hlength', h]

/-- A message that carries no signature but the one that the desk makes when it begins. -/
theorem plainNetwork_unforged {desk laptop : Plane}
    {entry : Machine.Entry (Bool → EndState) (Bool × EndInput) Unit}
    (h : ∀ i m, entry.input = (i, .received (.ok m)) →
      ∀ signature ∈ (plainNetwork desk laptop).signatures m, entry.pre false ≠ .idle ∧
        ∃ material, material.length = 64 ∧
          ((plainNetwork desk laptop).ends false).toSign plainBuild = some material ∧
          signature = deskIdentity.sign plainCrypto material) :
    (plainNetwork desk laptop).Unforged entry := by
  rintro i m hinput signature hsignature label hlabel context hcontext message hmessage d rfl
    hverify
  obtain ⟨hbegun, material, hlength, hsign, rfl⟩ := h i m hinput signature hsignature
  have hmessageLength : message.length = 64 := by
    rw [(plainNetwork_sound desk laptop).exporter_eq] at hmessage
    exact (plainNetwork_sound desk laptop).length_exporter hmessage
  obtain rfl : message = material :=
    plainSignature_inj hmessageLength hlength (beq_iff_eq.1 hverify).symm
  exact .inl ⟨false, rfl, hbegun, hsign⟩

def deskMaterial : List UInt8 :=
  fitTo 64 (fitTo 40 (deskIdentity.deviceId plainCrypto).bytes ++ [32, 0])

def laptopMaterial : List UInt8 :=
  fitTo 64 (fitTo 40 (laptopIdentity.deviceId plainCrypto).bytes ++ [32, 0])

def deskHello : Hello := Exchange.helloOf plainBuild deskEnd deskMaterial

def acceptedAck : HelloAck := { status := .accepted, reason := none }

def deskHelloMessage : StreamMessage := ⟨typeHello, (Hello.schema.codec.toValue deskHello).encode⟩

def acceptedMessage : StreamMessage :=
  ⟨typeHelloAck, (HelloAck.schema.codec.toValue acceptedAck).encode⟩

/-- The laptop takes the desk's `Hello`, and then its answer. -/
def helloInputs : List (Bool × EndInput) :=
  [(false, .begin), (true, .begin), (true, .sent (.ok ())), (true, .received (.ok deskHelloMessage)),
    (true, .sent (.ok ())), (true, .received (.ok acceptedMessage))]

theorem fits_deskHello : (Hello.schema.codec.toValue deskHello).Fits recursionLimit :=
  (Hello.schema.codec.fits _ (Exchange.small_helloOf plainBuild_lawful _ _)).mono
    (MessageType.depth_le .hello)

theorem fits_acceptedAck : (HelloAck.schema.codec.toValue acceptedAck).Fits recursionLimit :=
  (HelloAck.schema.codec.fits _ Exchange.small_accepted).mono (MessageType.depth_le .helloAck)

theorem fromCbor_deskHello :
    fromCbor plainBuild.hello deskHelloMessage.payload = .ok deskHello := by
  have hread := fromCbor_encode fits_deskHello (Hello.schema.codec.ofValue_toValue deskHello) []
  rwa [List.append_nil, if_pos rfl] at hread

theorem fromCbor_acceptedAck :
    fromCbor plainBuild.helloAck acceptedMessage.payload = .ok acceptedAck := by
  have hread :=
    fromCbor_encode fits_acceptedAck (HelloAck.schema.codec.ofValue_toValue acceptedAck) []
  rwa [List.append_nil, if_pos rfl] at hread

theorem valueOf_of_none {T : Type} {s : Schema T} {item : Value}
    (hfits : item.Fits recursionLimit) (hvalue : s.codec.ofValue item = none) :
    Build.valueOf (ciborium s) item.encode = .error (.frame "cbor decode: invalid value") := by
  rw [Build.valueOf, fromCbor_encode_of_none hfits hvalue]
  rfl

theorem signatures_deskHello (desk laptop : Plane) :
    (plainNetwork desk laptop).signatures deskHelloMessage =
      [deskIdentity.sign plainCrypto deskMaterial] := by
  have hbulk : Build.valueOf plainBuild.bulkHello deskHelloMessage.payload =
      .error (.frame "cbor decode: invalid value") := valueOf_of_none fits_deskHello rfl
  have hhello : Build.valueOf plainBuild.hello deskHelloMessage.payload = .ok deskHello :=
    congrArg (Except.mapError _) fromCbor_deskHello
  rw [Network.signatures, plainNetwork]
  dsimp only
  rw [hbulk, hhello]
  rfl

theorem signatures_acceptedAck (desk laptop : Plane) :
    (plainNetwork desk laptop).signatures acceptedMessage = [] := by
  have hhello : Build.valueOf plainBuild.hello acceptedMessage.payload =
      .error (.frame "cbor decode: invalid value") := valueOf_of_none fits_acceptedAck rfl
  have hbulk : Build.valueOf plainBuild.bulkHello acceptedMessage.payload =
      .error (.frame "cbor decode: invalid value") := valueOf_of_none fits_acceptedAck rfl
  rw [Network.signatures, plainNetwork]
  dsimp only
  rw [hbulk, hhello]
  rfl

def helloNetwork : Network Bool Unit := plainNetwork (.interactive 7) (.interactive 9)

theorem helloNetwork_unforged :
    ∀ entry ∈ helloNetwork.machine.trace Network.init helloInputs, helloNetwork.Unforged entry := by
  intro entry hentry
  simp only [helloInputs, Machine.trace_cons, Machine.trace_nil, List.mem_cons, List.not_mem_nil,
    or_false] at hentry
  refine plainNetwork_unforged fun i m hinput signature hsignature => ?_
  rcases hentry with rfl | rfl | rfl | rfl | rfl | rfl <;> cases hinput
  · rw [signatures_deskHello, List.mem_singleton] at hsignature
    exact ⟨nofun, deskMaterial, length_fitTo _ _, rfl, hsignature⟩
  · rw [signatures_acceptedAck] at hsignature
    cases hsignature

theorem exec_helloInputs :
    helloNetwork.machine.exec Network.init helloInputs true =
      .exchange (.returned (.ok (Exchange.verifiedOf plainBuild laptopEnd deskEnd))) := by
  let next := (helloNetwork.ends true).next plainBuild
  have hexec : helloNetwork.machine.exec Network.init helloInputs true =
      next (next (next (next (.exchange (Exchange.start plainBuild laptopEnd)) (.sent (.ok ())))
        (.received (.ok deskHelloMessage))) (.sent (.ok ()))) (.received (.ok acceptedMessage)) :=
    rfl
  have hlaptop : Build.channelExporter laptopEnd.connection
      (laptopIdentity.deviceId plainBuild.crypto) = .ok laptopMaterial := rfl
  obtain ⟨payload, -, hstart⟩ := Exchange.start_eq plainBuild_lawful hlaptop
  have hsent : ∀ payload, next (.exchange (.sendingHello payload)) (.sent (.ok ())) =
      .exchange .awaitingHello := fun _ => rfl
  have hreceived : ∀ received, next (.exchange .awaitingHello) (.received received) =
      .exchange (Exchange.onHello plainBuild laptopEnd received) := fun _ => rfl
  obtain ⟨ack, -, honHello⟩ := Exchange.onHello_eq plainBuild_lawful fromCbor_deskHello
    connected_desk_laptop.presents_left rfl
  have haccepting : Exchange.onHello plainBuild laptopEnd (.ok deskHelloMessage) =
      .accepting deskHello (deskIdentity.deviceId plainCrypto) ack := honHello
  have hanswered : ∀ peer peerId payload, next (.exchange (.accepting peer peerId payload))
      (.sent (.ok ())) = .exchange (.awaitingAck peer peerId) := fun _ _ _ => rfl
  have hdone : ∀ peer peerId received, next (.exchange (.awaitingAck peer peerId))
      (.received received) = .exchange (.returned (Exchange.onAck plainBuild laptopEnd peer peerId
        received)) := fun _ _ _ => rfl
  have honAck : Exchange.onAck plainBuild laptopEnd deskHello
      (deskIdentity.deviceId plainCrypto) (.ok acceptedMessage) = _ :=
    Exchange.onAck_eq _ fromCbor_acceptedAck
  rw [hexec, hstart, hsent, hreceived, haccepting, hanswered, hdone, honAck]

/-- The laptop comes back with the desk's identity, and the desk has begun. -/
theorem interactive_authentic_desk :
    (Exchange.verifiedOf plainBuild laptopEnd deskEnd).peerId = deskIdentity.deviceId plainCrypto ∧
      helloNetwork.Met (helloNetwork.machine.exec Network.init helloInputs) true deskIdentity
        Network.isInteractive :=
  interactive_authentic (plainNetwork_sound _ _) helloInputs helloNetwork_unforged exec_helloInputs
    rfl (.inl rfl)

/-! ## One bulk connection -/

def bulkMaterial : List UInt8 :=
  fitTo 64 (fitTo 40 (bulkContext (deskIdentity.deviceId plainCrypto) 5) ++ [40, 1])

def deskBulkHello : BulkHello where
  deviceId := (deskIdentity.deviceId plainCrypto).bytes
  interactiveSessionId := 5
  channelSig := deskIdentity.sign plainCrypto bulkMaterial

def deskBulkHelloMessage : StreamMessage :=
  ⟨typeBulkHello, (BulkHello.schema.codec.toValue deskBulkHello).encode⟩

def bulkInputs : List (Bool × EndInput) :=
  [(false, .begin), (true, .begin), (true, .received (.ok deskBulkHelloMessage))]

def bulkNetwork : Network Bool Unit := plainNetwork (.bulkDial 5) (.bulkAccept 5)

theorem fits_deskBulkHello :
    (BulkHello.schema.codec.toValue deskBulkHello).Fits recursionLimit := by
  have hid : (deskIdentity.deviceId plainCrypto).bytes.length < 2 ^ 64 := by
    rw [DeviceId.length_eq]
    decide
  have hsignature : (deskIdentity.sign plainCrypto bulkMaterial).length < 2 ^ 64 := by
    rw [DeviceIdentity.sign, plainCrypto_lawful.length_sign]
    decide
  have hsmall : BulkHello.schema.codec.Small deskBulkHello := ⟨hid, trivial, hsignature, trivial⟩
  exact (BulkHello.schema.codec.fits _ hsmall).mono (MessageType.depth_le .bulkHello)

theorem valueOf_deskBulkHello :
    Build.valueOf plainBuild.bulkHello deskBulkHelloMessage.payload = .ok deskBulkHello := by
  have hread :=
    fromCbor_encode fits_deskBulkHello (BulkHello.schema.codec.ofValue_toValue deskBulkHello) []
  rw [List.append_nil, if_pos rfl] at hread
  exact congrArg (Except.mapError _) hread

theorem bulkNetwork_unforged :
    ∀ entry ∈ bulkNetwork.machine.trace Network.init bulkInputs, bulkNetwork.Unforged entry := by
  have hhello : Build.valueOf plainBuild.hello deskBulkHelloMessage.payload =
      .error (.frame "cbor decode: invalid value") := valueOf_of_none fits_deskBulkHello rfl
  have hsignatures : bulkNetwork.signatures deskBulkHelloMessage =
      [deskIdentity.sign plainCrypto bulkMaterial] := by
    have hbulk := valueOf_deskBulkHello
    rw [Network.signatures, bulkNetwork, plainNetwork]
    dsimp only
    rw [hbulk, hhello]
    rfl
  intro entry hentry
  simp only [bulkInputs, Machine.trace_cons, Machine.trace_nil, List.mem_cons, List.not_mem_nil,
    or_false] at hentry
  refine plainNetwork_unforged fun i m hinput signature hsignature => ?_
  rcases hentry with rfl | rfl | rfl <;> cases hinput
  rw [← bulkNetwork, hsignatures, List.mem_singleton] at hsignature
  exact ⟨nofun, bulkMaterial, length_fitTo _ _, rfl, hsignature⟩

theorem exec_bulkInputs :
    bulkNetwork.machine.exec Network.init bulkInputs true = .bulkAccept (.returned (.ok ())) := by
  let laptop : BulkEnd := ⟨laptopIdentity, plainConnection deskIdentity, 5⟩
  have hexec : bulkNetwork.machine.exec Network.init bulkInputs true =
      .bulkAccept (.returned (plainBuild.bindBulk laptop (.ok deskBulkHelloMessage))) := rfl
  have hleaf : laptop.connection.HasLeaf plainCrypto (deskIdentity.publicKey plainCrypto) :=
    ⟨plainCrypto_lawful.isKey_verifyingKey _, _, rfl, isCertificate_desk⟩
  have hverified : plainBuild.verifyBulkHello deskBulkHello laptop.connection 5 = .ok () :=
    Build.verifyBulkHello_eq_ok.2 ⟨rfl, plainCrypto_lawful.length_sign _ _, _, bulkMaterial, hleaf,
      rfl, rfl, plainCrypto_lawful.verify_sign _ _⟩
  have hbind : plainBuild.bindBulk laptop (.ok deskBulkHelloMessage) = .ok () := by
    rw [Build.bindBulk]
    refine Except.bind_eq_ok.2 ⟨deskBulkHelloMessage, rfl, ?_⟩
    have htype : ¬ deskBulkHelloMessage.msgType ≠ typeBulkHello := not_not.2 rfl
    rw [if_neg htype, valueOf_deskBulkHello]
    exact Except.bind_eq_ok.2 ⟨deskBulkHello, rfl, hverified⟩
  rw [hexec, hbind]

/-- The laptop accepts the bulk connection of session 5, which the desk has dialed. -/
theorem bulk_authentic_desk :
    bulkNetwork.Met (bulkNetwork.machine.exec Network.init bulkInputs) true deskIdentity
      (· = .bulkDial 5) :=
  bulk_authentic (plainNetwork_sound _ _) bulkInputs bulkNetwork_unforged rfl exec_bulkInputs rfl
    (.inl rfl)

end Mouser
