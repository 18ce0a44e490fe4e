import Mouser.Daemon.Bulk
import Mouser.Daemon.Reconnect
import Mouser.Daemon.Requests

/-!
# A whole daemon

`ServeLoop` goes from phase to phase. Here it is run by what it waits for in each phase: the select
of `next_connection`, whose arms are an automatic dial, a Connect and `accept_trusted`; the dial of
a Connect; and a redial. `command_loop` runs beside it, and other processes write the trust store.

An arm of a select is gone when another one is taken. The flow of `accept_trusted` is the state of
`PairingFlow`, which holds the trust store as well, so that a peer that is approved on a prompt is
trusted by a dial. A write of the store is one step here.
-/

namespace Mouser

open Discovery (SocketAddr peerSocketAddrs)

/-- `connect_interactive_any`: the address that it tries since that time, and the next ones. -/
structure CandidateDial where
  peer : DeviceId
  since : ℕ
  addr : SocketAddr
  rest : List SocketAddr
deriving DecidableEq

/-- What has become of a dial. -/
inductive DialOutcome where
  | trying (dial : CandidateDial)
  | connected
  | failed
deriving DecidableEq

namespace CandidateDial

def start (now : ℕ) (peer : DeviceId) : List SocketAddr → DialOutcome
  | [] => .failed
  | addr :: rest => .trying ⟨peer, now, addr, rest⟩

/-- The next candidate. -/
def next (d : CandidateDial) (now : ℕ) : DialOutcome := start now d.peer d.rest

/-- The attempt has failed, or has a connection on which this certificate was presented. -/
def onResult (C : Crypto) (d : CandidateDial) (now : ℕ) :
    Except LinkError (List UInt8) → DialOutcome
  | .error _ => d.next now
  | .ok leaf =>
    match C.checkPin (.pinned d.peer) leaf with
    | .ok () => .connected
    | .error _ => d.next now

def onTimeout (d : CandidateDial) (now : ℕ) : DialOutcome :=
  if d.since + Redial.dialAttemptTimeout ≤ now then d.next now else .trying d

end CandidateDial

/-- `dial_discovered_backoff` -/
inductive AutoDial where
  /-- No peer of the registry is to be dialed. -/
  | scanning
  | dialing (dial : CandidateDial)
  | sleeping (wake : ℕ)
deriving DecidableEq

/-- `dial_connect_request` -/
inductive RequestedDial where
  /-- `registry_addrs_for` -/
  | resolving (since : ℕ)
  | dialing (dial : CandidateDial)
deriving DecidableEq

/-- What the loop waits for. -/
inductive ServeFuture where
  /-- The select of `next_connection`, after that many dials that have failed. -/
  | select (dialFailures : UInt32) (dial : AutoDial)
  /-- The arm of the Connect has been taken. -/
  | request (dialFailures : UInt32) (dial : RequestedDial)
  | redial (redial : Redial)
  /-- The phase tells it: a session, or nothing any more. -/
  | none
deriving DecidableEq

structure Serving where
  now : ℕ
  loop : ServeLoop
  future : ServeFuture
  /-- `accept_trusted`, and the trust store. -/
  flow : PairingFlow
  /-- The last value of `bulk_session_tx`. -/
  bulk : Option ActiveBulkSession

inductive ServingEvent (Settings : Type) where
  | elapse (millis : ℕ)
  /-- `command_loop` processes a command. `failure` is the error of a read of the trust store, and a
  reset removes the file of the trusted peers and then the file of the settings. -/
  | command (live : DeviceId → Bool) (failure : Option String) (writable cleared reset : Bool)
    (c : Command Settings)
  /-- `mouserd trust`, in a process of its own -/
  | trustPeer (peer : DeviceId)
  | takeConnect (failure : Option String)
  | takeDisconnect
  /-- `dial_discovered` goes through the registry. -/
  | scan (peers : List Discovery.PeerAdvert) (failure : Option String)
  | registryClosed
  /-- The address of one peer is looked up in the registry. -/
  | look (advert : Option Discovery.PeerAdvert)
  | expired
  /-- A dial has failed, or has a connection, with the certificate that the peer has presented and
  the session id that it has sent. `reason` is the text of the errors if no address is left. -/
  | dialed (result : Except LinkError (List UInt8 × UInt64)) (reason : String)
  | timeout (reason : String)
  | wake
  /-- A redial reads the trust store. -/
  | check (failure : Option String)
  /-- `accept_trusted` goes on, with a connection of this session id. -/
  | inbound (event : PairingEvent) (sessionId : UInt64)
  | ownerUpdate (ownerId : String) (epoch : UInt64)
  | lost (reason : String)
  | resume
  | ctrlC

/-- The events that `accept_trusted` waits for. -/
def PairingEvent.isAwaited : PairingEvent → Bool
  | .accept .. | .acceptError | .named _ | .decide _ | .giveUp => true
  | .start | .cancel | .command .. | .trust _ | .resetData => false

namespace PairingFlow

def isReturned : PairingOutput → Bool
  | .returned _ => true
  | _ => false

/-- What `accept_trusted` returns in a step: the peer of the connection, or an error. -/
def result (s : PairingFlow) (event : PairingEvent) : Option (Except Unit DeviceId) :=
  if .failed ∈ (s.step event).2 then some (.error ())
  else if (s.step event).2.any isReturned then
    match event, s.phase with
    | .accept (some peer) _ _, _ => some (.ok peer)
    | _, .prompting _ peer => some (.ok peer)
    | _, _ => none
  else none

end PairingFlow

/-- The peer of an advertisement and its addresses, if `dial_discovered` dials it. -/
def dialable [ToUppercase] (id : DeviceId) (force : Bool) (trusts : DeviceId → Bool)
    (advert : Discovery.PeerAdvert) : Option (DeviceId × List SocketAddr) :=
  if advert.id = formatDeviceId id then none
  else
    match decodeDeviceId advert.id.toList with
    | none => none
    | some peer =>
      -- The peer with the lower id dials.
      if !force && decide (peer ≤ id) then none
      else if !trusts peer then none
      else
        match peerSocketAddrs advert with
        | [] => none
        | addr :: rest => some (peer, addr :: rest)

namespace Serving

/-- `RESOLVE` of `registry_addrs_for`: 5 seconds. -/
def resolveTimeout : ℕ := 5000

/-- `serve`, once it has read its identity and bound its endpoints. -/
def boot (id : DeviceId) (role : ServeRole) (trusted : Finset DeviceId) : Serving where
  now := 0
  loop := .boot id role
  future := .select 0 .scanning
  flow := ((PairingFlow.boot trusted).step .start).1
  bulk := none

/-- `is_peer_trusted` -/
def trusts (s : Serving) (failure : Option String) (peer : DeviceId) : Except String Bool :=
  match failure with
  | some e => .error e
  | none => .ok (decide (peer ∈ s.flow.trusted))

/-- Whether an arm of what the loop waits for is `accept_trusted`. -/
def accepting (s : Serving) : Bool :=
  match s.loop.phase, s.future with
  | _, .select _ _ => true
  | .redialing _ acceptInbound, .redial ⟨_, _, .dialing _ _ _⟩ => acceptInbound
  | _, _ => false

/-- The future of `accept_trusted` is there as long as the select that it is an arm of. -/
def settle (s : Serving) : Serving :=
  { s with flow := if s.accepting then (s.flow.step .start).1 else s.flow.drop }

/-- The loop of `next_connection` begins its select anew. -/
def reselect (s : Serving) (dialFailures : UInt32) : Serving :=
  { s with flow := s.flow.drop, future := .select dialFailures .scanning }.settle

/-- The loop has come to another phase. -/
def enter (s : Serving) (loop : ServeLoop) : Serving :=
  match loop.phase with
  | .waiting => { s with loop, bulk := none }.reselect 0
  | .redialing _ _ => { s with loop, bulk := none, future := .redial (.start s.now) }.settle
  | .dialing _ | .session _ _ | .lost _ _ | .stopped =>
    { s with loop, bulk := none, future := .none }.settle

/-- The loop has made a step, perhaps to another phase. -/
def follow (s : Serving) (loop : ServeLoop) : Serving :=
  if loop.phase = s.loop.phase then { s with loop } else s.enter loop

/-- The loop begins a session on a connection with this session id of the peer. -/
def join (s : Serving) (loop : ServeLoop) (sessionId : UInt64) : Serving :=
  match loop.phase with
  | .session peer _ => { s.enter loop with bulk := some ⟨peer, sessionId⟩ }
  | _ => s

/-! ## The select of `next_connection` -/

/-- The automatic dial has failed. -/
def onAutoFailed (s : Serving) (dialFailures : UInt32) : Serving :=
  if 0 < dialFailures then
    { s with
      future := .select dialFailures (.sleeping (s.now + reconnectBackoff dialFailures)) }
  else s.reselect (dialFailures.saturatingAdd 1)

def onAutoDial (s : Serving) (dialFailures : UInt32) (peer : DeviceId) (sessionId : UInt64) :
    DialOutcome → Serving
  | .trying dial => { s with future := .select dialFailures (.dialing dial) }
  | .connected => s.join (s.loop.onDiscovered peer) sessionId
  | .failed => s.onAutoFailed dialFailures

def onScan [ToUppercase] (s : Serving) (dialFailures : UInt32) (peers : List Discovery.PeerAdvert)
    (failure : Option String) : Serving :=
  let trusts := fun peer => decide (s.trusts failure peer = .ok true)
  match peers.findSome? (dialable s.loop.id (s.loop.role = .source) trusts) with
  | none => s
  | some (peer, addrs) => s.onAutoDial dialFailures peer 0 (CandidateDial.start s.now peer addrs)

/-- The dial of a Connect has failed. -/
def refuse (s : Serving) (dialFailures : UInt32) (reason : String) : Serving :=
  { s with loop := s.loop.onDialFailed reason }.reselect dialFailures

/-- A Connect is taken, and the trust store read. -/
def onRequest (s : Serving) (dialFailures : UInt32) (target : DeviceId) (failure : Option String) :
    Serving :=
  let t :=
    { s with
      loop := s.loop.takeConnect
      future := .request dialFailures (.resolving s.now) }.settle
  match s.trusts failure target with
  | .ok true => t
  | .ok false =>
    t.refuse dialFailures ("peer " ++ formatDeviceId target ++ " is not trusted on this machine")
  | .error e => t.refuse dialFailures e

def onRequestedDial (s : Serving) (dialFailures : UInt32) (sessionId : UInt64) (reason : String) :
    DialOutcome → Serving
  | .trying dial => { s with future := .request dialFailures (.dialing dial) }
  | .connected => s.join s.loop.onDialed sessionId
  | .failed => s.refuse dialFailures reason

/-! ## The redial -/

/-- The arguments of the redial that the loop waits for. -/
def redialConfig (C : Crypto) (peer : DeviceId) (acceptInbound : Bool) : RedialConfig :=
  ⟨C, peer, acceptInbound, true⟩

/-- The redial makes a step. -/
def stepRedial [ToUppercase] (C : Crypto) (s : Serving) (r : Redial) (event : RedialEvent)
    (sessionId : UInt64) : Serving :=
  match s.loop.phase with
  | .redialing peer acceptInbound =>
    let (r, outputs) := r.step (redialConfig C peer acceptInbound) event
    match r.phase with
    | .ended (.reconnected _ true) => s.join s.loop.onDialed sessionId
    | .ended (.reconnected _ false) => s.join (s.loop.onAccepted peer) sessionId
    | .ended .disconnected =>
      match event with
      | .trust trusted => s.follow (s.loop.onCheckTrust trusted)
      | _ => s.follow s.loop.takeDisconnect.1
    | .ended .shutdown => s.follow s.loop.onCtrlC
    | _ =>
      let loop := if .connecting ∈ outputs then s.loop.onDialFailed "" else s.loop
      { s with loop, future := .redial r }.settle
  | _ => s

/-! ## One step -/

/-- `accept_trusted` goes on, and may return. -/
def onInbound [ToUppercase] (C : Crypto) (s : Serving) (event : PairingEvent)
    (sessionId : UInt64) : Serving :=
  if s.accepting && event.isAwaited then
    let t := { s with flow := (s.flow.step event).1 }
    match s.flow.result event, s.future with
    | none, _ => t
    | some (.ok peer), .select _ _ => t.join (t.loop.onAccepted peer) sessionId
    | some (.error ()), .select dialFailures _ => t.reselect dialFailures
    | some (.ok peer), .redial r => t.stepRedial C r (.accepted (.ok (some peer))) sessionId
    | some (.error ()), .redial r => t.stepRedial C r (.accepted (.error "")) sessionId
    | some _, _ => t
  else s

/-- What a command does to the prompt and the trust store. -/
def commandFlow [ToUppercase] {Settings : Type} (flow : PairingFlow) (writable cleared : Bool) :
    Command Settings → PairingFlow
  | .trust peerId =>
    match decodeDeviceId peerId.toList with
    | some peer => if writable then (flow.step (.trust peer)).1 else flow
    | none => flow
  | .approvePairing peerId => (flow.step (.command peerId true)).1
  | .denyPairing peerId => (flow.step (.command peerId false)).1
  | .resetData => if cleared then (flow.step .resetData).1 else flow
  | _ => flow

def onElapse [ToUppercase] (C : Crypto) (s : Serving) (millis : ℕ) : Serving :=
  let t := { s with now := s.now + millis }
  match s.future with
  | .redial r => t.stepRedial C r (.elapse millis) 0
  | _ => t

/-- A Connect is taken by the select of `next_connection`, or by a session. -/
def onTakeConnect (s : Serving) (failure : Option String) : Serving :=
  match s.future, s.loop.connects with
  | .select dialFailures _, target :: _ => s.onRequest dialFailures target failure
  | .none, _ => s.follow s.loop.takeConnect
  | _, _ => s

def onTakeDisconnect [ToUppercase] (C : Crypto) (s : Serving) : Serving :=
  match s.future, s.loop.disconnects with
  | .redial r, _ :: _ => s.stepRedial C r .disconnect 0
  | .none, _ => s.follow s.loop.takeDisconnect.1
  | _, _ => s

/-- The addresses of one peer, as `find` has them. -/
def onLook [ToUppercase] (C : Crypto) (s : Serving) (advert : Option Discovery.PeerAdvert) :
    Serving :=
  match s.future, s.loop.phase with
  | .redial r, _ => s.stepRedial C r (.look advert) 0
  | .request dialFailures (.resolving _), .dialing peer =>
    match Redial.candidates (redialConfig C peer false) advert with
    | [] => s
    | addr :: rest =>
      s.onRequestedDial dialFailures 0 "" (CandidateDial.start s.now peer (addr :: rest))
  | _, _ => s

def onExpired (s : Serving) : Serving :=
  match s.future, s.loop.phase with
  | .request dialFailures (.resolving since), .dialing peer =>
    if since + resolveTimeout ≤ s.now then
      s.refuse dialFailures ("peer " ++ formatDeviceId peer ++ " not currently discoverable")
    else s
  | _, _ => s

def onDialed [ToUppercase] (C : Crypto) (s : Serving)
    (result : Except LinkError (List UInt8 × UInt64)) (reason : String) : Serving :=
  let leaf := result.map (·.1)
  let sessionId := match result with
    | .ok (_, sessionId) => sessionId
    | .error _ => 0
  match s.future with
  | .select dialFailures (.dialing d) =>
    s.onAutoDial dialFailures d.peer sessionId (d.onResult C s.now leaf)
  | .request dialFailures (.dialing d) =>
    s.onRequestedDial dialFailures sessionId reason (d.onResult C s.now leaf)
  | .redial r => s.stepRedial C r (.dialed leaf) sessionId
  | _ => s

def onTimeout [ToUppercase] (C : Crypto) (s : Serving) (reason : String) : Serving :=
  match s.future with
  | .select dialFailures (.dialing d) => s.onAutoDial dialFailures d.peer 0 (d.onTimeout s.now)
  | .request dialFailures (.dialing d) =>
    s.onRequestedDial dialFailures 0 reason (d.onTimeout s.now)
  | .redial r => s.stepRedial C r .timeout 0
  | _ => s

def onWake [ToUppercase] (C : Crypto) (s : Serving) : Serving :=
  match s.future with
  | .select dialFailures (.sleeping wake) =>
    if wake ≤ s.now then s.reselect (dialFailures.saturatingAdd 1) else s
  | .redial r => s.stepRedial C r .wake 0
  | _ => s

def onCheck [ToUppercase] (C : Crypto) (s : Serving) (failure : Option String) : Serving :=
  match s.future, s.loop.phase with
  | .redial r, .redialing peer _ => s.stepRedial C r (.trust (s.trusts failure peer)) 0
  | _, _ => s

def onCtrlC [ToUppercase] (C : Crypto) (s : Serving) : Serving :=
  match s.future with
  | .redial r => s.stepRedial C r .ctrlC 0
  | .select _ _ | .none => s.follow s.loop.onCtrlC
  | .request _ _ => s

def step [ToUppercase] {Settings : Type} (C : Crypto) (s : Serving) :
    ServingEvent Settings → Serving
  | .elapse millis => s.onElapse C millis
  | .command live failure writable cleared reset c =>
    { s with
      loop := (s.loop.step (.command live (s.trusts failure) (cleared && reset) c)).1
      flow := commandFlow s.flow writable cleared c }
  | .trustPeer peer => { s with flow := (s.flow.step (.trust peer)).1 }
  | .takeConnect failure => s.onTakeConnect failure
  | .takeDisconnect => s.onTakeDisconnect C
  | .scan peers failure =>
    match s.future with
    | .select dialFailures .scanning =>
      if s.loop.role = .target then s else s.onScan dialFailures peers failure
    | _ => s
  | .registryClosed =>
    match s.future with
    | .select dialFailures .scanning =>
      if s.loop.role = .target then s else s.onAutoFailed dialFailures
    | _ => s
  | .look advert => s.onLook C advert
  | .expired => s.onExpired
  | .dialed result reason => s.onDialed C result reason
  | .timeout reason => s.onTimeout C reason
  | .wake => s.onWake C
  | .check failure => s.onCheck C failure
  | .inbound event sessionId => s.onInbound C event sessionId
  | .ownerUpdate ownerId epoch => { s with loop := s.loop.onOwnerUpdate ownerId epoch }
  | .lost reason => s.follow (s.loop.onLost reason)
  | .resume => s.follow s.loop.onResume
  | .ctrlC => s.onCtrlC C

def machine [ToUppercase] (Settings : Type) (C : Crypto) :
    Machine Serving (ServingEvent Settings) Unit := ⟨fun s event => (s.step C event, ())⟩

end Serving

end Mouser
