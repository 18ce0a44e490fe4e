import Mouser.Core.Device
import Mouser.Files.Concurrent

/-!
# The bulk plane of a daemon

`serve` publishes the active session in a watch value. `run_bulk_acceptor` checks a bulk connection
against it once, when the connection is accepted; `serve_bulk_connection` then accepts streams for
as long as the peer holds the connection open, and hands what comes on them to `run_receiver_stream`
or, through a queue, to the clipboard driver of the session. Nothing ends with the session but its
driver. `Bulk.bulk_from_active` is what holds of the runs in which no session leaves anything
behind.
-/

namespace Mouser

structure ActiveBulkSession where
  peerId : DeviceId
  expectedSessionId : UInt64
deriving DecidableEq

/-- A message on a transfer stream, by type; `none` is a payload that does not decode. -/
inductive BulkMessage where
  | fileOffer (payload : Option FileOffer)
  | fileChunk (payload : Option FileChunk)
  | clipboardData (payload : Option ClipboardData)
  | other

structure InboundClipboardData where
  peerId : DeviceId
  data : ClipboardData
deriving DecidableEq

/-- The task of a transfer stream. -/
inductive StreamTask where
  /-- `run_receiver_stream` -/
  | files (offer : FileOffer) (phase : Phase)
  /-- The loop of `receive_clipboard_stream`. -/
  | clipboard (hash : List UInt8) (format : ClipFormat) (total chunks : UInt64)
  | ended

/-- The task has not returned. -/
def StreamTask.live : StreamTask → Bool
  | .files _ (.opening ..) | .files _ (.receiving _) => true
  | .clipboard .. => true
  | _ => false

/-- A bulk connection that has been accepted. -/
structure BulkConnection where
  peerId : DeviceId
  /-- The session it was accepted for. -/
  session : ActiveBulkSession
  /-- `serve_bulk_connection` runs. -/
  serving : Bool
  /-- The first message of a stream is awaited. -/
  awaiting : Bool
deriving DecidableEq

structure Bulk where
  /-- The watch value. -/
  active : Option ActiveBulkSession
  /-- The session the acceptor accepts for, unless it is at the top of its loop. -/
  accepting : Option ActiveBulkSession
  connections : List BulkConnection
  /-- The stream tasks, each with the index of its connection. -/
  tasks : List (ℕ × StreamTask)
  /-- What the stream tasks have published, each with the index of the connection it came over. -/
  clipboard : List (ℕ × InboundClipboardData)
  /-- The peer of `run_driver`, while it runs. -/
  driver : Option DeviceId
  disk : Disk

inductive BulkEvent where
  /-- `serve` starts a session, or has ended it. -/
  | begin (session : ActiveBulkSession)
  | finish
  /-- The control lane of the driver closes. -/
  | driverStops
  /-- The acceptor reads the watch value, or sees it change. -/
  | look
  | changed
  /-- The handshake of an inbound connection is done. -/
  | accept (peerId : Option DeviceId) (sessionId : UInt64)
  /-- The peer opens a stream on connection `c`, or sends its first message. -/
  | acceptTransfer (c : ℕ)
  | firstMessage (c : ℕ) (m : BulkMessage)
  | connectionLost (c : ℕ)
  /-- The stream task `t` opens its next sink, or handles a message. -/
  | openNext (t : ℕ)
  | message (t : ℕ) (m : BulkMessage)
  | streamLost (t : ℕ)
  /-- The driver takes what was published. -/
  | deliver

/-- What is handed on of what came over connection `c`. -/
inductive Handed where
  | offer (c : ℕ) (m : FileOffer)
  | opened (c : ℕ)
  | chunk (c : ℕ) (m : FileChunk)
  | clipboard (c : ℕ) (m : ClipboardData)
deriving DecidableEq

def Handed.connection : Handed → ℕ
  | .offer c _ | .opened c | .chunk c _ | .clipboard c _ => c

/-- The streams of a connection that are handled at a time. -/
def maxConcurrentBulkTransfers : ℕ := 16

/-- The bytes and the chunks of a clipboard transfer. -/
def maxClipboardBulkTotal : UInt64 := 256 * 1024 * 1024

def maxClipboardBulkChunks : UInt64 := 64 * 1024

/-- `validate_chunk` -/
def ClipboardData.valid (m : ClipboardData) (hash : List UInt8) (format : ClipFormat) : Bool :=
  m.hash = hash && m.format = format && m.data.length ≤ 1024 * 1024

namespace Bulk

/-- The daemon has started. -/
def init (disk : Disk) : Bulk := ⟨none, none, [], [], [], none, disk⟩

def setTask (s : Bulk) (t c : ℕ) (task : StreamTask) : Bulk :=
  { s with tasks := s.tasks.set t (c, task) }

/-- `publish_chunk`; the transfer goes on unless the chunk is its last. -/
def publish (s : Bulk) (c : ℕ) (peerId : DeviceId) (m : ClipboardData) : Bulk :=
  { s with clipboard := s.clipboard ++ [(c, ⟨peerId, m⟩)] }

/-- `spawn_bulk_receiver` -/
def spawnBulkReceiver (s : Bulk) (peerId : Option DeviceId) (session : ActiveBulkSession) : Bulk :=
  match peerId with
  | none => s
  | some peerId =>
    if s.active ≠ some session ∨ peerId ≠ session.peerId then s
    else { s with connections := s.connections ++ [⟨peerId, session, true, false⟩] }

/-- The acceptor is given a connection, by `accept_bulk`, if it is bound to the session. -/
def onAccept (s : Bulk) (peerId : Option DeviceId) (sessionId : UInt64) : Bulk :=
  match s.accepting with
  | none => s
  | some session =>
    let s := { s with accepting := none }
    if sessionId ≠ session.expectedSessionId then s else s.spawnBulkReceiver peerId session

/-- The stream tasks of a connection. -/
def running (s : Bulk) (c : ℕ) : ℕ := (s.tasks.filter fun t => t.1 = c && t.2.live).length

def onAcceptTransfer (s : Bulk) (c : ℕ) : Bulk :=
  match s.connections[c]? with
  | none => s
  | some conn =>
    -- the stream waits for a permit
    if conn.serving && !conn.awaiting && decide (s.running c < maxConcurrentBulkTransfers) then
      { s with connections := s.connections.set c { conn with awaiting := true } }
    else s

/-- The first message of a stream decides what its task is. -/
def spawnStream (quarantine : OsStr) (s : Bulk) (c : ℕ) (peerId : DeviceId) :
    BulkMessage → Bulk × List Handed
  | .fileOffer (some m) =>
    ({ s with tasks := s.tasks ++ [(c, .files m (Phase.start (.new quarantine) m).1)] },
      [.offer c m])
  | .clipboardData (some m) =>
    if m.valid m.hash m.format then
      let task := if m.last then .ended else .clipboard m.hash m.format (.ofNat m.data.length) 1
      ({ s with tasks := s.tasks ++ [(c, task)] }.publish c peerId m, [])
    else ({ s with tasks := s.tasks ++ [(c, .ended)] }, [])
  | _ => ({ s with tasks := s.tasks ++ [(c, .ended)] }, [])

def onFirstMessage (quarantine : OsStr) (s : Bulk) (c : ℕ) (m : BulkMessage) : Bulk × List Handed :=
  match s.connections[c]? with
  | none => (s, [])
  | some conn =>
    if conn.serving && conn.awaiting then
      { s with connections := s.connections.set c { conn with awaiting := false } }.spawnStream
        quarantine c conn.peerId m
    else (s, [])

/-- `accept_transfer`, or the first message of a stream, fails. -/
def onConnectionLost (s : Bulk) (c : ℕ) : Bulk :=
  match s.connections[c]? with
  | none => s
  | some conn =>
    { s with connections := s.connections.set c { conn with serving := false, awaiting := false } }

/-- The loop of `receive_clipboard_stream`. -/
def onClipboardChunk (s : Bulk) (t c : ℕ) (peerId : DeviceId) (hash : List UInt8)
    (format : ClipFormat) (total chunks : UInt64) (m : ClipboardData) : Bulk :=
  let total := total.saturatingAdd (.ofNat m.data.length)
  let chunks := chunks.saturatingAdd 1
  if m.valid hash format && total ≤ maxClipboardBulkTotal && chunks ≤ maxClipboardBulkChunks then
    let task := if m.last then .ended else .clipboard hash format total chunks
    (s.setTask t c task).publish c peerId m
  else s.setTask t c .ended

section

variable [Sha256]

def onOpenNext (quarantine : OsStr) (s : Bulk) (t : ℕ) : Bulk × List Handed :=
  match s.tasks[t]? with
  | some (c, .files offer (.opening slots resume rest)) =>
    let (disk, phase, _) := Phase.openNext (.new quarantine) offer s.disk slots resume rest
    ({ s with disk }.setTask t c (.files offer phase), [.opened c])
  | _ => (s, [])

/-- The stream tasks receive. Any other message than the expected one ends the task. -/
def onMessage (s : Bulk) (t : ℕ) (m : BulkMessage) : Bulk × List Handed :=
  match s.tasks[t]? with
  | some (c, .files offer (.receiving r)) =>
    match m with
    | .fileChunk (some chunk) =>
      let (disk, phase, _) := Phase.onChunk offer s.disk r chunk
      ({ s with disk }.setTask t c (.files offer phase), [.chunk c chunk])
    | _ => (s.setTask t c .ended, [])
  | some (c, .clipboard hash format total chunks) =>
    match m, s.connections[c]? with
    | .clipboardData (some m), some conn =>
      (s.onClipboardChunk t c conn.peerId hash format total chunks m, [])
    | _, _ => (s.setTask t c .ended, [])
  | _ => (s, [])

/-- The bulk arm of `run_driver`. -/
def onDeliver (s : Bulk) : Bulk × List Handed :=
  match s.driver, s.clipboard with
  | some peer, (c, inbound) :: rest =>
    ({ s with clipboard := rest },
      if inbound.peerId ≠ peer then [] else [.clipboard c inbound.data])
  | _, _ => (s, [])

def step (quarantine : OsStr) (s : Bulk) : BulkEvent → Bulk × List Handed
  | .begin session =>
    match s.active with
    | none => ({ s with active := some session, driver := some session.peerId }, [])
    | some _ => (s, [])
  | .finish => ({ s with active := none, driver := none }, [])
  | .driverStops => ({ s with driver := none }, [])
  | .look => ({ s with accepting := s.accepting.or s.active }, [])
  | .changed => ({ s with accepting := none }, [])
  | .accept peerId sessionId => (s.onAccept peerId sessionId, [])
  | .acceptTransfer c => (s.onAcceptTransfer c, [])
  | .firstMessage c m => s.onFirstMessage quarantine c m
  | .connectionLost c => (s.onConnectionLost c, [])
  | .openNext t => s.onOpenNext quarantine t
  | .message t m => s.onMessage t m
  | .streamLost t =>
    match s.tasks[t]? with
    | some (c, _) => (s.setTask t c .ended, [])
    | none => (s, [])
  | .deliver => s.onDeliver

def machine (quarantine : OsStr) : Machine Bulk BulkEvent (List Handed) := ⟨step quarantine⟩

end

/-! ## What comes from the active session -/

/-- The session that connection `c` was accepted for. -/
def sessionOf (s : Bulk) (c : ℕ) : Option ActiveBulkSession := (s.connections[c]?).map (·.session)

/-- Connection `c` is one of the active session, and of its peer. -/
def Entitled (s : Bulk) (c : ℕ) : Prop :=
  ∃ conn, s.connections[c]? = some conn ∧ s.active = some conn.session ∧
    conn.peerId = conn.session.peerId

/-- What is handed on comes from the active session, and nothing else is stored. -/
structure FromActive (e : Machine.Entry Bulk BulkEvent (List Handed)) : Prop where
  entitled : ∀ h ∈ e.output, Entitled e.pre h.connection
  stored : e.output = [] → e.post.disk = e.pre.disk

/-- A session leaves no connection and no stream behind when it ends, and nothing in the queue that
the next driver would take for its own. -/
def LeavesNothing (e : Machine.Entry Bulk BulkEvent (List Handed)) : Prop :=
  match e.input with
  | .finish => (∀ conn ∈ e.pre.connections, conn.serving = false) ∧
      ∀ t ∈ e.pre.tasks, t.2.live = false
  | .begin session => e.pre.active = none → ∀ m ∈ e.pre.clipboard, m.2.peerId ≠ session.peerId
  | _ => True

instance (e : Machine.Entry Bulk BulkEvent (List Handed)) : Decidable (LeavesNothing e) :=
  match e with
  | ⟨pre, .finish, _, _⟩ =>
    inferInstanceAs (Decidable ((∀ conn ∈ pre.connections, conn.serving = false) ∧
      ∀ t ∈ pre.tasks, t.2.live = false))
  | ⟨pre, .begin session, _, _⟩ =>
    inferInstanceAs (Decidable (pre.active = none →
      ∀ m ∈ pre.clipboard, m.2.peerId ≠ session.peerId))
  | ⟨_, .driverStops, _, _⟩ | ⟨_, .look, _, _⟩ | ⟨_, .changed, _, _⟩ | ⟨_, .accept _ _, _, _⟩
  | ⟨_, .acceptTransfer _, _, _⟩ | ⟨_, .firstMessage _ _, _, _⟩ | ⟨_, .connectionLost _, _, _⟩
  | ⟨_, .openNext _, _, _⟩ | ⟨_, .message _ _, _, _⟩ | ⟨_, .streamLost _, _, _⟩
  | ⟨_, .deliver, _, _⟩ => isTrue trivial

/-- What is served belongs to the active session. -/
structure Inv (s : Bulk) : Prop where
  bound : ∀ conn ∈ s.connections, conn.peerId = conn.session.peerId
  serving : ∀ conn ∈ s.connections, conn.serving = true → s.active = some conn.session
  live : ∀ t ∈ s.tasks, ∃ session, s.sessionOf t.1 = some session ∧
    (t.2.live = true → s.active = some session)
  queued : ∀ m ∈ s.clipboard, ∃ session, s.sessionOf m.1 = some session ∧
    m.2.peerId = session.peerId ∧
    ∀ active, s.active = some active → active = session ∨ active.peerId ≠ m.2.peerId
  driver : ∀ peer, s.driver = some peer → ∃ session, s.active = some session ∧ session.peerId = peer

variable {s : Bulk}

/-- A connection of the active session is entitled. -/
theorem Inv.entitled (h : Inv s) {c : ℕ} {session : ActiveBulkSession}
    (hsession : s.sessionOf c = some session) (hactive : s.active = some session) :
    Entitled s c := by
  obtain ⟨conn, hconn, rfl⟩ := Option.map_eq_some_iff.1 hsession
  exact ⟨conn, hconn, hactive, h.bound conn (List.mem_of_getElem? hconn)⟩

theorem sessionOf_set {c : ℕ} {conn conn' : BulkConnection} (hconn : s.connections[c]? = some conn)
    (hsession : conn'.session = conn.session) (k : ℕ) :
    sessionOf { s with connections := s.connections.set c conn' } k = s.sessionOf k := by
  have hmap := congrArg (·[k]?) (List.map_set_same (·.session) hconn hsession)
  simpa only [sessionOf, List.getElem?_map] using hmap

/-- A connection goes on with its flags changed. -/
theorem Inv.setConnection (h : Inv s) {c : ℕ} {conn conn' : BulkConnection}
    (hconn : s.connections[c]? = some conn) (hpeer : conn'.peerId = conn.peerId)
    (hsession : conn'.session = conn.session)
    (hserving : conn'.serving = true → conn.serving = true) :
    Inv { s with connections := s.connections.set c conn' } := by
  have hmem := List.mem_of_getElem? hconn
  refine ⟨?_, ?_, ?_, ?_, h.driver⟩
  · intro k hk
    rcases List.mem_or_eq_of_mem_set hk with hk | rfl
    · exact h.bound k hk
    · rw [hpeer, hsession, h.bound conn hmem]
  · intro k hk hon
    rcases List.mem_or_eq_of_mem_set hk with hk | rfl
    · exact h.serving k hk hon
    · rw [hsession]
      exact h.serving conn hmem (hserving hon)
  · intro t ht
    rw [sessionOf_set hconn hsession]
    exact h.live t ht
  · intro m hm
    rw [sessionOf_set hconn hsession]
    exact h.queued m hm

/-- A connection of the active session is accepted. -/
theorem Inv.addConnection (h : Inv s) {session : ActiveBulkSession}
    (hactive : s.active = some session) :
    Inv { s with connections := s.connections ++ [⟨session.peerId, session, true, false⟩] } := by
  have hgrows : ∀ {c : ℕ} {x : ActiveBulkSession}, s.sessionOf c = some x →
      sessionOf { s with connections := s.connections ++ [⟨session.peerId, session, true, false⟩] }
        c = some x := by
    intro c x hx
    obtain ⟨conn, hconn, rfl⟩ := Option.map_eq_some_iff.1 hx
    obtain ⟨hlt, -⟩ := List.getElem?_eq_some_iff.1 hconn
    rw [sessionOf, List.getElem?_append_left hlt, hconn]
    rfl
  refine ⟨?_, ?_, ?_, ?_, h.driver⟩
  · intro conn hconn
    rcases List.mem_append.1 hconn with hconn | hconn
    · exact h.bound conn hconn
    · rw [List.mem_singleton.1 hconn]
  · intro conn hconn hon
    rcases List.mem_append.1 hconn with hconn | hconn
    · exact h.serving conn hconn hon
    · rw [List.mem_singleton.1 hconn]
      exact hactive
  · intro t ht
    obtain ⟨x, hx, hlive⟩ := h.live t ht
    exact ⟨x, hgrows hx, hlive⟩
  · intro m hm
    obtain ⟨x, hx, hqueued⟩ := h.queued m hm
    exact ⟨x, hgrows hx, hqueued⟩

/-- A task goes on, or ends. -/
theorem Inv.setTask (h : Inv s) {t c : ℕ} {task : StreamTask} (htask : s.tasks[t]? = some (c, task))
    {task' : StreamTask} (hlive : task'.live = true → task.live = true) :
    Inv (s.setTask t c task') := by
  refine ⟨h.bound, h.serving, ?_, h.queued, h.driver⟩
  intro u hu
  rcases List.mem_or_eq_of_mem_set hu with hu | rfl
  · exact h.live u hu
  · obtain ⟨session, hsession, hactive⟩ := h.live _ (List.mem_of_getElem? htask)
    exact ⟨session, hsession, fun hon => hactive (hlive hon)⟩

/-- A stream of a connection that is served gets its task. -/
theorem Inv.addTask (h : Inv s) {c : ℕ} {session : ActiveBulkSession}
    (hsession : s.sessionOf c = some session) (hactive : s.active = some session)
    (task : StreamTask) : Inv { s with tasks := s.tasks ++ [(c, task)] } := by
  refine ⟨h.bound, h.serving, ?_, h.queued, h.driver⟩
  intro u hu
  rcases List.mem_append.1 hu with hu | hu
  · exact h.live u hu
  · rw [List.mem_singleton.1 hu]
    exact ⟨session, hsession, fun _ => hactive⟩

/-- What came over a connection of the active session is published. -/
theorem Inv.publish (h : Inv s) {c : ℕ} {session : ActiveBulkSession}
    (hsession : s.sessionOf c = some session) (hactive : s.active = some session)
    (m : ClipboardData) : Inv (s.publish c session.peerId m) := by
  refine ⟨h.bound, h.serving, h.live, ?_, h.driver⟩
  intro u hu
  rcases List.mem_append.1 hu with hu | hu
  · exact h.queued u hu
  · rw [List.mem_singleton.1 hu]
    refine ⟨session, hsession, rfl, ?_⟩
    intro active hother
    exact .inl (Option.some.inj (hother.symm.trans hactive))

/-- The disk is not looked at. -/
theorem Inv.disk (h : Inv s) (disk : Disk) : Inv { s with disk } :=
  ⟨h.bound, h.serving, h.live, h.queued, h.driver⟩

section

variable [Sha256] {quarantine : OsStr}

/-- A step that hands nothing on and does not write. -/
theorem fromActive_of_nil {e : BulkEvent} (hnone : (s.step quarantine e).2 = [])
    (hdisk : (s.step quarantine e).1.disk = s.disk) :
    FromActive ((machine quarantine).entry s e) := by
  refine ⟨?_, fun _ => hdisk⟩
  intro h hh
  rw [Machine.entry_output, machine, hnone] at hh
  cases hh

omit [Sha256] in
theorem Inv.onAccept (h : Inv s) (peerId : Option DeviceId) (sessionId : UInt64) :
    Inv (s.onAccept peerId sessionId) ∧ (s.onAccept peerId sessionId).disk = s.disk := by
  have htop : Inv { s with accepting := none } := ⟨h.bound, h.serving, h.live, h.queued, h.driver⟩
  unfold Bulk.onAccept
  split
  · exact ⟨h, rfl⟩
  · next session _ =>
    dsimp only
    split
    · exact ⟨htop, rfl⟩
    · unfold spawnBulkReceiver
      split
      · exact ⟨htop, rfl⟩
      · next peerId =>
        split
        · exact ⟨htop, rfl⟩
        · next hactive =>
          rw [not_or, not_not, not_not] at hactive
          obtain ⟨hactive, rfl⟩ := hactive
          exact ⟨htop.addConnection hactive, rfl⟩

omit [Sha256] in
theorem Inv.onAcceptTransfer (h : Inv s) (c : ℕ) :
    Inv (s.onAcceptTransfer c) ∧ (s.onAcceptTransfer c).disk = s.disk := by
  unfold Bulk.onAcceptTransfer
  split
  · exact ⟨h, rfl⟩
  · next conn hconn =>
    split
    · exact ⟨h.setConnection hconn rfl rfl id, rfl⟩
    · exact ⟨h, rfl⟩

omit [Sha256] in
theorem Inv.onConnectionLost (h : Inv s) (c : ℕ) :
    Inv (s.onConnectionLost c) ∧ (s.onConnectionLost c).disk = s.disk := by
  unfold Bulk.onConnectionLost
  split
  · exact ⟨h, rfl⟩
  · next conn hconn => exact ⟨h.setConnection hconn rfl rfl nofun, rfl⟩

omit [Sha256] in
/-- A stream of a connection of the active session gets its task, and its offer is entitled. -/
theorem Inv.spawnStream (h : Inv s) (quarantine : OsStr) {c : ℕ} {session : ActiveBulkSession}
    (hsession : s.sessionOf c = some session) (hactive : s.active = some session)
    (m : BulkMessage) : Inv (s.spawnStream quarantine c session.peerId m).1 ∧
      (s.spawnStream quarantine c session.peerId m).1.disk = s.disk ∧
      ∀ x ∈ (s.spawnStream quarantine c session.peerId m).2, x.connection = c := by
  have hended := h.addTask hsession hactive .ended
  unfold Bulk.spawnStream
  split
  · refine ⟨h.addTask hsession hactive _, rfl, ?_⟩
    intro x hx
    rw [List.mem_singleton.1 hx]
    rfl
  · next m =>
    split
    · exact ⟨(h.addTask hsession hactive _).publish hsession hactive m, rfl, nofun⟩
    · exact ⟨hended, rfl, nofun⟩
  · exact ⟨hended, rfl, nofun⟩

omit [Sha256] in
theorem Inv.onFirstMessage (h : Inv s) (quarantine : OsStr) (c : ℕ) (m : BulkMessage) :
    Inv (s.onFirstMessage quarantine c m).1 ∧
      (s.onFirstMessage quarantine c m).1.disk = s.disk ∧
      ∀ x ∈ (s.onFirstMessage quarantine c m).2, s.Entitled x.connection := by
  unfold Bulk.onFirstMessage
  split
  · exact ⟨h, rfl, nofun⟩
  · next conn hconn =>
    split
    · next hserving =>
      rw [Bool.and_eq_true] at hserving
      have hactive := h.serving conn (List.mem_of_getElem? hconn) hserving.1
      have hsession : s.sessionOf c = some conn.session := by
        rw [sessionOf, hconn]
        rfl
      have hset : Inv { s with
          connections := s.connections.set c { conn with awaiting := false } } :=
        h.setConnection hconn rfl rfl id
      have hsame : sessionOf { s with
          connections := s.connections.set c { conn with awaiting := false } } c =
            some conn.session := by
        rw [sessionOf_set hconn]
        · exact hsession
        · rfl
      have hspawn := hset.spawnStream quarantine hsame hactive m
      rw [← h.bound conn (List.mem_of_getElem? hconn)] at hspawn
      refine ⟨hspawn.1, hspawn.2.1, ?_⟩
      intro x hx
      rw [hspawn.2.2 x hx]
      exact h.entitled hsession hactive
    · exact ⟨h, rfl, nofun⟩

omit [Sha256] in
theorem Inv.onClipboardChunk (h : Inv s) {t c : ℕ} {session : ActiveBulkSession}
    {hash : List UInt8} {format : ClipFormat} {total chunks : UInt64}
    (htask : s.tasks[t]? = some (c, .clipboard hash format total chunks))
    (hsession : s.sessionOf c = some session) (hactive : s.active = some session)
    (m : ClipboardData) :
    Inv (s.onClipboardChunk t c session.peerId hash format total chunks m) ∧
      (s.onClipboardChunk t c session.peerId hash format total chunks m).disk = s.disk := by
  unfold Bulk.onClipboardChunk
  dsimp only
  split
  · exact ⟨(h.setTask htask fun _ => rfl).publish hsession hactive m, rfl⟩
  · exact ⟨h.setTask htask nofun, rfl⟩

omit [Sha256] in
/-- A task that runs is one of the active session. -/
theorem Inv.task (h : Inv s) {t c : ℕ} {task : StreamTask} (htask : s.tasks[t]? = some (c, task))
    (hlive : task.live = true) : s.Entitled c ∧
      ∃ session, s.sessionOf c = some session ∧ s.active = some session := by
  obtain ⟨session, hsession, hactive⟩ := h.live _ (List.mem_of_getElem? htask)
  exact ⟨h.entitled hsession (hactive hlive), session, hsession, hactive hlive⟩

theorem Inv.onOpenNext (h : Inv s) (quarantine : OsStr) (t : ℕ) :
    Inv (s.onOpenNext quarantine t).1 ∧
    (∀ x ∈ (s.onOpenNext quarantine t).2, s.Entitled x.connection) ∧
    ((s.onOpenNext quarantine t).2 = [] → (s.onOpenNext quarantine t).1.disk = s.disk) := by
  unfold Bulk.onOpenNext
  split
  · next c offer slots resume rest htask =>
    obtain ⟨disk, phase, out⟩ := Phase.openNext (.new quarantine) offer s.disk slots resume rest
    refine ⟨(h.disk disk).setTask htask fun _ => rfl, ?_, nofun⟩
    intro x hx
    rw [List.mem_singleton.1 hx]
    exact (h.task htask rfl).1
  · exact ⟨h, nofun, fun _ => rfl⟩

theorem Inv.onMessage (h : Inv s) (t : ℕ) (m : BulkMessage) : Inv (s.onMessage t m).1 ∧
    (∀ x ∈ (s.onMessage t m).2, s.Entitled x.connection) ∧
    ((s.onMessage t m).2 = [] → (s.onMessage t m).1.disk = s.disk) := by
  unfold Bulk.onMessage
  split
  · next c offer r htask =>
    split
    · next chunk =>
      obtain ⟨disk, phase, out⟩ := Phase.onChunk offer s.disk r chunk
      refine ⟨(h.disk disk).setTask htask fun _ => rfl, ?_, nofun⟩
      intro x hx
      rw [List.mem_singleton.1 hx]
      exact (h.task htask rfl).1
    · exact ⟨h.setTask htask nofun, nofun, fun _ => rfl⟩
  · next c hash format total chunks htask =>
    split
    · next m conn hconn =>
      obtain ⟨-, session, hsession, hactive⟩ := h.task htask rfl
      have hsame : conn.session = session := by
        rw [sessionOf, hconn] at hsession
        exact Option.some.inj hsession
      have hpeer := h.bound conn (List.mem_of_getElem? hconn)
      rw [hsame] at hpeer
      rw [hpeer]
      obtain ⟨hinv, hdisk⟩ := h.onClipboardChunk htask hsession hactive m
      exact ⟨hinv, nofun, fun _ => hdisk⟩
    · exact ⟨h.setTask htask nofun, nofun, fun _ => rfl⟩
  · exact ⟨h, nofun, fun _ => rfl⟩

omit [Sha256] in
theorem Inv.onDeliver (h : Inv s) : Inv s.onDeliver.1 ∧
    (∀ x ∈ s.onDeliver.2, s.Entitled x.connection) ∧ s.onDeliver.1.disk = s.disk := by
  unfold Bulk.onDeliver
  split
  · next peer c inbound rest hdriver hqueue =>
    have hrest : Inv { s with clipboard := rest } := by
      refine ⟨h.bound, h.serving, h.live, ?_, h.driver⟩
      intro m hm
      exact h.queued m (hqueue ▸ .tail _ hm)
    refine ⟨hrest, ?_, rfl⟩
    intro x hx
    split at hx
    · cases hx
    · next hpeer =>
      rw [List.mem_singleton.1 hx]
      obtain ⟨session, hsession, -, hactive⟩ := h.queued (c, inbound) (hqueue ▸ .head _)
      obtain ⟨active, hactive', hdriven⟩ := h.driver peer hdriver
      rcases hactive active hactive' with rfl | hother
      · exact h.entitled hsession hactive'
      · exact absurd (hdriven.trans (not_not.1 hpeer).symm) hother
  · exact ⟨h, nofun, rfl⟩

/-- **The step lemma of the bulk plane.** -/
theorem Inv.step (h : Inv s) (e : BulkEvent)
    (hclean : LeavesNothing ((machine quarantine).entry s e)) :
    Inv (s.step quarantine e).1 ∧ FromActive ((machine quarantine).entry s e) := by
  cases e with
  | begin session =>
    cases hactive : s.active with
    | some old =>
      have hstep : s.step quarantine (.begin session) = (s, []) := by
        simp only [Bulk.step, hactive]
      rw [hstep]
      exact ⟨h, fromActive_of_nil (by rw [hstep]) (by rw [hstep])⟩
    | none =>
      have hstep : s.step quarantine (.begin session) =
          ({ s with active := some session, driver := some session.peerId }, []) := by
        simp only [Bulk.step, hactive]
      rw [hstep]
      refine ⟨⟨h.bound, ?_, ?_, ?_, ?_⟩, fromActive_of_nil (by rw [hstep]) (by rw [hstep])⟩
      · intro conn hconn hon
        cases hactive.symm.trans (h.serving conn hconn hon)
      · intro t ht
        obtain ⟨x, hx, hlive⟩ := h.live t ht
        exact ⟨x, hx, fun hon => nomatch hactive.symm.trans (hlive hon)⟩
      · intro m hm
        obtain ⟨x, hx, hpeer, -⟩ := h.queued m hm
        refine ⟨x, hx, hpeer, ?_⟩
        rintro _ ⟨⟩
        exact .inr (hclean hactive m hm).symm
      · rintro _ ⟨⟩
        exact ⟨session, rfl, rfl⟩
  | finish =>
    refine ⟨⟨h.bound, ?_, ?_, ?_, nofun⟩, fromActive_of_nil rfl rfl⟩
    · intro conn hconn hon
      cases (hclean.1 conn hconn).symm.trans hon
    · intro t ht
      obtain ⟨x, hx, -⟩ := h.live t ht
      exact ⟨x, hx, fun hon => nomatch (hclean.2 t ht).symm.trans hon⟩
    · intro m hm
      obtain ⟨x, hx, hpeer, -⟩ := h.queued m hm
      exact ⟨x, hx, hpeer, nofun⟩
  | driverStops =>
    exact ⟨⟨h.bound, h.serving, h.live, h.queued, nofun⟩, fromActive_of_nil rfl rfl⟩
  | look =>
    exact ⟨⟨h.bound, h.serving, h.live, h.queued, h.driver⟩, fromActive_of_nil rfl rfl⟩
  | changed =>
    exact ⟨⟨h.bound, h.serving, h.live, h.queued, h.driver⟩, fromActive_of_nil rfl rfl⟩
  | accept peerId sessionId =>
    obtain ⟨hinv, hdisk⟩ := h.onAccept peerId sessionId
    exact ⟨hinv, fromActive_of_nil rfl hdisk⟩
  | acceptTransfer c =>
    obtain ⟨hinv, hdisk⟩ := h.onAcceptTransfer c
    exact ⟨hinv, fromActive_of_nil rfl hdisk⟩
  | firstMessage c m =>
    obtain ⟨hinv, hdisk, hentitled⟩ := h.onFirstMessage quarantine c m
    exact ⟨hinv, hentitled, fun _ => hdisk⟩
  | connectionLost c =>
    obtain ⟨hinv, hdisk⟩ := h.onConnectionLost c
    exact ⟨hinv, fromActive_of_nil rfl hdisk⟩
  | openNext t =>
    obtain ⟨hinv, hentitled, hdisk⟩ := h.onOpenNext quarantine t
    exact ⟨hinv, hentitled, hdisk⟩
  | message t m =>
    obtain ⟨hinv, hentitled, hdisk⟩ := h.onMessage t m
    exact ⟨hinv, hentitled, hdisk⟩
  | streamLost t =>
    cases htask : s.tasks[t]? with
    | none =>
      have hstep : s.step quarantine (.streamLost t) = (s, []) := by
        simp only [Bulk.step, htask]
      rw [hstep]
      exact ⟨h, fromActive_of_nil (by rw [hstep]) (by rw [hstep])⟩
    | some task =>
      have hstep : s.step quarantine (.streamLost t) = (s.setTask t task.1 .ended, []) := by
        simp only [Bulk.step, htask]
      rw [hstep]
      exact ⟨h.setTask htask nofun, fromActive_of_nil (by rw [hstep]) (by rw [hstep]; rfl)⟩
  | deliver =>
    obtain ⟨hinv, hentitled, hdisk⟩ := h.onDeliver
    exact ⟨hinv, hentitled, fun _ => hdisk⟩

/-- **When bulk data comes from the active session only**: when each session leaves nothing behind
that still runs. -/
theorem bulk_from_active (quarantine : OsStr) (disk : Disk) (events : List BulkEvent)
    (hclean : ∀ e ∈ (machine quarantine).trace (.init disk) events, LeavesNothing e) :
    ∀ e ∈ (machine quarantine).trace (.init disk) events, FromActive e := by
  have hinit : Inv (.init disk) := ⟨nofun, nofun, nofun, nofun, nofun⟩
  suffices hrun : Inv ((machine quarantine).exec (.init disk) events) ∧
      ∀ e ∈ (machine quarantine).trace (.init disk) events, FromActive e from hrun.2
  refine Machine.induct (P := fun tr s => Inv s ∧ ∀ e ∈ tr, FromActive e) (G := LeavesNothing) _
    ⟨hinit, List.forall_mem_nil _⟩ ?_ events hclean
  rintro tr s event ⟨hinv, hbefore⟩ hclean
  obtain ⟨hinv', hactive⟩ := hinv.step event hclean
  refine ⟨hinv', ?_⟩
  intro e he
  rcases List.mem_append.1 he with he | he
  · exact hbefore e he
  · rwa [List.mem_singleton.1 he]

end

section

/-- The session of the examples. -/
def exampleSession : ActiveBulkSession := ⟨.fill 1, 42⟩

/-- A clipboard transfer of one chunk, over a connection that is closed before the session ends. -/
def closedInTime : List BulkEvent :=
  [.begin exampleSession, .look, .accept (some (.fill 1)) 42, .acceptTransfer 0,
    .firstMessage 0 (.clipboardData (some ⟨[], .utf8Text, 0, [97], true⟩)), .deliver,
    .connectionLost 0, .finish]

attribute [local instance] Sha256.abc

theorem closedInTime_fromActive :
    (∀ e ∈ (machine (OsStr.new "/quarantine")).trace (.init emptyDisk) closedInTime,
      LeavesNothing e) ∧
    ∀ e ∈ (machine (OsStr.new "/quarantine")).trace (.init emptyDisk) closedInTime,
      FromActive e := by
  have hclean : ∀ e ∈ (machine (OsStr.new "/quarantine")).trace (.init emptyDisk) closedInTime,
      LeavesNothing e := by decide
  exact ⟨hclean, bulk_from_active _ _ _ hclean⟩

/-- A connection that outlives its session. -/
def outlived : List BulkEvent :=
  [.begin exampleSession, .look, .accept (some (.fill 1)) 42, .finish, .acceptTransfer 0,
    .firstMessage 0 (.fileOffer (some (offerOf "a.txt" "b.txt")))]

/-- An offer that comes over it is still handled. -/
theorem outlived_offer :
    ¬ ∀ e ∈ (machine (OsStr.new "/quarantine")).trace (.init emptyDisk) outlived,
      FromActive e := by
  intro h
  have hmem : (machine (OsStr.new "/quarantine")).entry
      ((machine (OsStr.new "/quarantine")).exec (.init emptyDisk) outlived.dropLast)
      (.firstMessage 0 (.fileOffer (some (offerOf "a.txt" "b.txt")))) ∈
        (machine (OsStr.new "/quarantine")).trace (.init emptyDisk) outlived := by
    rw [Machine.mem_trace_iff]
    exact ⟨outlived.dropLast, _, [], rfl, rfl⟩
  have hlast := h _ hmem
  obtain ⟨conn, -, hactive, -⟩ := hlast.entitled (.offer 0 (offerOf "a.txt" "b.txt")) (.head _)
  cases hactive

end

end Bulk

end Mouser
