import Mouser.Daemon.Bridge
import Mouser.Daemon.Serve
import Mouser.Ipc.Server

/-!
# The requests that reach a serve loop

`command_loop` turns the commands of the UIs into requests: a Connect into the id of a peer, a
Disconnect and a successful ResetData into a token in an unbounded queue. The serve loop takes the
tokens only where it waits in a session or in a redial; in `next_connection` no arm looks at them.

`DisconnectRequest` numbers the tokens by the commands that sent them. `disconnects_only_active`
says when no token of a command from an idle moment ends a session, and `outlived_disconnect` is a
run in which one does.
-/

namespace Mouser

/-- Where the serve loop is suspended. -/
inductive LoopPhase where
  /-- In the select of `next_connection`. -/
  | waiting
  /-- In `dial_connect_request`. -/
  | dialing (peer : DeviceId)
  /-- In `redial_until_reconnected`. -/
  | redialing (peer : DeviceId) (acceptInbound : Bool)
  /-- In `run_session`. -/
  | session (peer : DeviceId) (canControl : Bool)
  /-- The session is gone and its loss is reported; the loop has not gone on. -/
  | lost (peer : DeviceId) (canControl : Bool)
  /-- `serve` has returned. -/
  | stopped
deriving DecidableEq

/-- Whether a session, a dial or a redial is in progress. -/
def LoopPhase.inProgress : LoopPhase → Bool
  | .dialing _ | .redialing .. | .session .. => true
  | .waiting | .lost .. | .stopped => false

/-- Whether an arm there waits for a Disconnect. -/
def LoopPhase.listens : LoopPhase → Bool
  | .redialing .. | .session .. => true
  | .waiting | .dialing _ | .lost .. | .stopped => false

theorem LoopPhase.inProgress_of_listens {p : LoopPhase} (h : p.listens = true) :
    p.inProgress = true := by
  cases p <;> first | rfl | cases h

/-- A token of the queue. In the source it is `()`: neither the command that sent it nor the moment
is known to the loop. -/
structure DisconnectRequest where
  /-- The command, in the order in which `command_loop` processed them. -/
  command : ℕ
  /-- The connection was idle, and nothing was in progress. -/
  idle : Bool
deriving DecidableEq

structure ServeLoop where
  id : DeviceId
  role : ServeRole
  phase : LoopPhase
  sourceIntent : Option DeviceId
  /-- What the bridge reports. -/
  connection : ConnectionDto
  connects : List DeviceId
  disconnects : List DisconnectRequest
  /-- How many commands were processed. -/
  commands : ℕ
deriving DecidableEq

inductive ServeLoopEvent (Settings : Type) where
  /-- `command_loop` processes a command, with what the registry, the trust store and `reset_data`
  answer. -/
  | command (live : DeviceId → Bool) (trusted : DeviceId → Except String Bool) (reset : Bool)
    (c : Command Settings)
  /-- The loop takes the next request. -/
  | takeConnect
  | takeDisconnect
  /-- The dial of a Connect or of a redial ends. -/
  | dialed
  | dialFailed (reason : String)
  /-- `dial_discovered` has reached a peer. -/
  | discovered (peer : DeviceId)
  /-- A trusted peer has dialed. -/
  | accepted (peer : DeviceId)
  /-- A redial looks the peer up in the trust store. -/
  | checkTrust (trusted : Except String Bool)
  /-- The session reports who owns the input. -/
  | ownerUpdate (ownerId : String) (epoch : UInt64)
  /-- The session's transport is dead. -/
  | lost (reason : String)
  /-- The loop goes on after a loss. -/
  | resume
  | ctrlC

namespace ServeLoop

/-- The start of `serve`. -/
def boot (id : DeviceId) (role : ServeRole) : ServeLoop where
  id := id
  role := role
  phase := .waiting
  sourceIntent := none
  connection := .idle
  connects := []
  disconnects := []
  commands := 0

def isIdle (s : ServeLoop) : Bool :=
  s.connection.state = .idle && !s.phase.inProgress

/-- The start of `redial_until_reconnected`. -/
def redial (s : ServeLoop) (peer : DeviceId) (acceptInbound : Bool) : ServeLoop :=
  { s with
    phase := .redialing peer acceptInbound
    connection := .connecting (formatDeviceId peer) }

/-- The top of the loop. -/
def loopTop (s : ServeLoop) : ServeLoop :=
  match s.sourceIntent with
  | some target => s.redial target false
  | none => { s with phase := .waiting }

def startSession (s : ServeLoop) (peer : DeviceId) (canControl : Bool) : ServeLoop :=
  { s with
    phase := .session peer canControl
    connection := .connected (formatDeviceId peer) (formatDeviceId s.id) }

/-- `SessionEnd::Disconnected` -/
def onDisconnected (s : ServeLoop) : ServeLoop :=
  { s with sourceIntent := none, connection := .idle }.loopTop

/-- `SessionEnd::SwitchSource` -/
def onSwitchSource (s : ServeLoop) (target : DeviceId) : ServeLoop :=
  { s with
    sourceIntent := some target
    connection := .connecting (formatDeviceId target) }.loopTop

/-- `ReconnectEnd::Disconnected` -/
def onRedialStopped (s : ServeLoop) (acceptInbound : Bool) : ServeLoop :=
  if acceptInbound then s.loopTop
  else { s with sourceIntent := none, connection := .idle }.loopTop

/-- `disconnect_tx.send(())` -/
def sendDisconnect (s : ServeLoop) : ServeLoop :=
  { s with disconnects := s.disconnects ++ [⟨s.commands, s.isIdle⟩] }

def onCommand [ToUppercase] {Settings : Type} (s : ServeLoop) (live : DeviceId → Bool)
    (trusted : DeviceId → Except String Bool) (reset : Bool) : Command Settings → ServeLoop
  | .connect peerId =>
    match decodeDeviceId peerId.toList with
    | none => s
    | some peer =>
      match connectRequest (live peer) (trusted peer) with
      | .ok () => { s with connects := s.connects ++ [peer] }
      | .error reason => { s with connection := .connectError reason }
  | .disconnect => s.sendDisconnect
  | .resetData => if reset then s.sendDisconnect else s
  | .trust _ | .approvePairing _ | .denyPairing _ | .sendFiles _ | .updateSettings _
  | .refreshSnapshot | .getSnapshot => s

/-- The arms of `next_connection` and `run_session` that wait for a Connect. -/
def takeConnect (s : ServeLoop) : ServeLoop :=
  match s.connects with
  | [] => s
  | target :: rest =>
    match s.phase with
    | .waiting =>
      { s with
        connects := rest
        phase := .dialing target
        connection := .connecting (formatDeviceId target) }
    | .session peer canControl =>
      if !canControl || target ≠ peer then { s with connects := rest }.onSwitchSource target
      else { s with connects := rest }
    | .dialing _ | .redialing .. | .lost .. | .stopped => s

/-- The arms of `run_session` and `redial_until_reconnected` that wait for a Disconnect, with the
request on which the session or the redial ends. -/
def takeDisconnect (s : ServeLoop) : ServeLoop × Option DisconnectRequest :=
  match s.disconnects with
  | [] => (s, none)
  | r :: rest =>
    match s.phase with
    | .session .. => ({ s with disconnects := rest }.onDisconnected, some r)
    | .redialing _ acceptInbound =>
      ({ s with disconnects := rest }.onRedialStopped acceptInbound, some r)
    | .waiting | .dialing _ | .lost .. | .stopped => (s, none)

def onDialed (s : ServeLoop) : ServeLoop :=
  match s.phase with
  | .dialing peer => { s with sourceIntent := some peer }.startSession peer true
  | .redialing peer _ => s.startSession peer true
  | .waiting | .session .. | .lost .. | .stopped => s

def onDialFailed (s : ServeLoop) (reason : String) : ServeLoop :=
  match s.phase with
  | .dialing _ => { s with phase := .waiting, connection := .connectError reason }
  | .redialing peer acceptInbound => s.redial peer acceptInbound
  | .waiting | .session .. | .lost .. | .stopped => s

/-- The target role does not dial on its own. -/
def onDiscovered (s : ServeLoop) (peer : DeviceId) : ServeLoop :=
  match s.phase with
  | .waiting => if s.role ≠ .target then s.startSession peer true else s
  | .dialing _ | .redialing .. | .session .. | .lost .. | .stopped => s

/-- A redial accepts only the peer it dials. -/
def onAccepted (s : ServeLoop) (peer : DeviceId) : ServeLoop :=
  match s.phase with
  | .waiting => s.startSession peer false
  | .redialing target acceptInbound =>
    if acceptInbound && peer = target then s.startSession peer false else s
  | .dialing _ | .session .. | .lost .. | .stopped => s

/-- The top of the redial loop: a redial of an untrusted peer stops by itself. -/
def onCheckTrust (s : ServeLoop) (trusted : Except String Bool) : ServeLoop :=
  match s.phase, trusted with
  | .redialing peer acceptInbound, .ok false =>
    let reason := "peer " ++ formatDeviceId peer ++ " is no longer trusted"
    { s with connection := .connectError reason }.onRedialStopped acceptInbound
  | .redialing peer acceptInbound, .error e =>
    let reason := "trust check failed for " ++ formatDeviceId peer ++ ": " ++ e
    { s with connection := .connectError reason }.onRedialStopped acceptInbound
  | _, _ => s

def onOwnerUpdate (s : ServeLoop) (ownerId : String) (epoch : UInt64) : ServeLoop :=
  match s.phase with
  | .session .. =>
    { s with connection := (s.connection.setOwnerEpoch ownerId epoch).getD s.connection }
  | .waiting | .dialing _ | .redialing .. | .lost .. | .stopped => s

/-- `SessionEnd::ConnectionLost`, up to its report. -/
def onLost (s : ServeLoop) (reason : String) : ServeLoop :=
  match s.phase with
  | .session peer canControl =>
    { s with phase := .lost peer canControl, connection := .connectError reason }
  | .waiting | .dialing _ | .redialing .. | .lost .. | .stopped => s

/-- `SessionEnd::ConnectionLost`, after its report. -/
def onResume (s : ServeLoop) : ServeLoop :=
  match s.phase with
  | .lost peer canControl =>
    if s.sourceIntent.isSome then s.loopTop
    else if s.role = .target || !canControl then s.loopTop
    else s.redial peer true
  | .waiting | .dialing _ | .redialing .. | .session .. | .stopped => s

/-- `SessionEnd::Shutdown` reports that nothing is connected; elsewhere the loop just ends. -/
def onCtrlC (s : ServeLoop) : ServeLoop :=
  match s.phase with
  | .session .. => { s with phase := .stopped, connection := .idle }
  | .waiting | .redialing .. => { s with phase := .stopped }
  | .dialing _ | .lost .. | .stopped => s

def step [ToUppercase] {Settings : Type} (s : ServeLoop) :
    ServeLoopEvent Settings → ServeLoop × Option DisconnectRequest
  | .command live trusted reset c =>
    ({ s.onCommand live trusted reset c with commands := s.commands + 1 }, none)
  | .takeConnect => (s.takeConnect, none)
  | .takeDisconnect => s.takeDisconnect
  | .dialed => (s.onDialed, none)
  | .dialFailed reason => (s.onDialFailed reason, none)
  | .discovered peer => (s.onDiscovered peer, none)
  | .accepted peer => (s.onAccepted peer, none)
  | .checkTrust trusted => (s.onCheckTrust trusted, none)
  | .ownerUpdate ownerId epoch => (s.onOwnerUpdate ownerId epoch, none)
  | .lost reason => (s.onLost reason, none)
  | .resume => (s.onResume, none)
  | .ctrlC => (s.onCtrlC, none)

def machine [ToUppercase] (Settings : Type) :
    Machine ServeLoop (ServeLoopEvent Settings) (Option DisconnectRequest) := ⟨step⟩

/-- One step of a run, with the request on which a session or a redial ends as Disconnected. -/
abbrev Step (Settings : Type) :=
  Machine.Entry ServeLoop (ServeLoopEvent Settings) (Option DisconnectRequest)

section

variable {Settings : Type}

/-- What a Disconnect may do: end what was in progress when its command was processed, and that
once. -/
structure EndsOnlyActive (steps : List (Step Settings)) : Prop where
  active : ∀ e ∈ steps, ∀ r, e.output = some r → r.idle = false
  once : (steps.filterMap (·.output)).Pairwise fun r r' => r.command ≠ r'.command

/-- If the step begins a session or a redial, no token from an idle moment is in the queue. -/
def BeginsClean (e : Step Settings) : Prop :=
  e.pre.phase.listens = false → e.post.phase.listens = true →
    ∀ r ∈ e.pre.disconnects, r.idle = false

instance (e : Step Settings) : Decidable (BeginsClean e) :=
  inferInstanceAs (Decidable (_ → _ → ∀ r ∈ e.pre.disconnects, r.idle = false))

end

/-! ## What a step does to the queue -/

/-- A step keeps the queue, a command appends its token, or the loop takes the first one. -/
inductive Requested (s : ServeLoop) : ServeLoop → Option DisconnectRequest → Prop where
  | kept {t : ServeLoop} (hqueue : t.disconnects = s.disconnects)
    (hcommands : s.commands ≤ t.commands) : Requested s t none
  | sent {t : ServeLoop} (hqueue : t.disconnects = s.disconnects ++ [⟨s.commands, s.isIdle⟩])
    (hcommands : t.commands = s.commands + 1) (hphase : t.phase = s.phase) : Requested s t none
  | taken {t : ServeLoop} {r : DisconnectRequest} (hlistens : s.phase.listens = true)
    (hqueue : s.disconnects = r :: t.disconnects) (hcommands : t.commands = s.commands) :
    Requested s t (some r)

/-- The step leaves the queue alone. -/
structure SameQueue (s t : ServeLoop) : Prop where
  disconnects : t.disconnects = s.disconnects
  commands : t.commands = s.commands

theorem SameQueue.kept {s t : ServeLoop} (h : SameQueue s t) : Requested s t none :=
  .kept h.disconnects h.commands.ge

section queue

variable {s t : ServeLoop}

theorem sameQueue_refl (s : ServeLoop) : SameQueue s s := ⟨rfl, rfl⟩

theorem SameQueue.loopTop (h : SameQueue s t) : SameQueue s t.loopTop := by
  unfold ServeLoop.loopTop
  split <;> exact ⟨h.disconnects, h.commands⟩

theorem SameQueue.onDisconnected (h : SameQueue s t) : SameQueue s t.onDisconnected :=
  loopTop ⟨h.disconnects, h.commands⟩

theorem SameQueue.onSwitchSource (h : SameQueue s t) (target : DeviceId) :
    SameQueue s (t.onSwitchSource target) :=
  loopTop ⟨h.disconnects, h.commands⟩

theorem SameQueue.onRedialStopped (h : SameQueue s t) (acceptInbound : Bool) :
    SameQueue s (t.onRedialStopped acceptInbound) := by
  cases acceptInbound with
  | true => exact h.loopTop
  | false => exact h.onDisconnected

end queue

section queue

variable (s : ServeLoop)

theorem sameQueue_takeConnect : SameQueue s s.takeConnect := by
  unfold takeConnect
  split
  · exact s.sameQueue_refl
  · next target rest hconnects =>
    split
    · exact ⟨rfl, rfl⟩
    · split
      · have hrest : SameQueue s { s with connects := rest } := ⟨rfl, rfl⟩
        exact hrest.onSwitchSource target
      · exact ⟨rfl, rfl⟩
    all_goals exact s.sameQueue_refl

theorem sameQueue_onDialed : SameQueue s s.onDialed := by
  unfold onDialed
  split <;> exact ⟨rfl, rfl⟩

theorem sameQueue_onDialFailed (reason : String) : SameQueue s (s.onDialFailed reason) := by
  unfold onDialFailed
  split <;> exact ⟨rfl, rfl⟩

theorem sameQueue_onDiscovered (peer : DeviceId) : SameQueue s (s.onDiscovered peer) := by
  unfold onDiscovered
  split
  · split <;> exact ⟨rfl, rfl⟩
  all_goals exact s.sameQueue_refl

theorem sameQueue_onAccepted (peer : DeviceId) : SameQueue s (s.onAccepted peer) := by
  unfold onAccepted
  split
  · exact ⟨rfl, rfl⟩
  · split <;> exact ⟨rfl, rfl⟩
  all_goals exact s.sameQueue_refl

theorem sameQueue_onCheckTrust (trusted : Except String Bool) :
    SameQueue s (s.onCheckTrust trusted) := by
  have herror : ∀ reason, SameQueue s { s with connection := .connectError reason } :=
    fun _ => ⟨rfl, rfl⟩
  unfold onCheckTrust
  split
  · exact (herror _).onRedialStopped _
  · exact (herror _).onRedialStopped _
  · exact s.sameQueue_refl

theorem sameQueue_onOwnerUpdate (ownerId : String) (epoch : UInt64) :
    SameQueue s (s.onOwnerUpdate ownerId epoch) := by
  unfold onOwnerUpdate
  split <;> exact ⟨rfl, rfl⟩

theorem sameQueue_onLost (reason : String) : SameQueue s (s.onLost reason) := by
  unfold onLost
  split <;> exact ⟨rfl, rfl⟩

theorem sameQueue_onResume : SameQueue s s.onResume := by
  unfold onResume
  split
  · split
    · exact s.sameQueue_refl.loopTop
    · split
      · exact s.sameQueue_refl.loopTop
      · exact ⟨rfl, rfl⟩
  all_goals exact s.sameQueue_refl

theorem sameQueue_onCtrlC : SameQueue s s.onCtrlC := by
  unfold onCtrlC
  split <;> exact ⟨rfl, rfl⟩

end queue

theorem requested_onCommand [ToUppercase] {Settings : Type} (s : ServeLoop)
    (live : DeviceId → Bool) (trusted : DeviceId → Except String Bool) (reset : Bool)
    (c : Command Settings) :
    Requested s { s.onCommand live trusted reset c with commands := s.commands + 1 } none := by
  have hsent : Requested s { s.sendDisconnect with commands := s.commands + 1 } none :=
    .sent rfl rfl rfl
  cases c with
  | connect peerId =>
    refine .kept ?_ (Nat.le_succ _)
    simp only [onCommand]
    split
    · rfl
    · split <;> rfl
  | disconnect => exact hsent
  | resetData =>
    cases reset with
    | true => exact hsent
    | false => exact .kept rfl (Nat.le_succ _)
  | trust | approvePairing | denyPairing | sendFiles | updateSettings | refreshSnapshot
  | getSnapshot => exact .kept rfl (Nat.le_succ _)

theorem requested_takeDisconnect (s : ServeLoop) :
    Requested s s.takeDisconnect.1 s.takeDisconnect.2 := by
  unfold takeDisconnect
  split
  · exact s.sameQueue_refl.kept
  · next r rest hqueue =>
    split
    · next hphase =>
      have hsame := (sameQueue_refl { s with disconnects := rest }).onDisconnected
      refine .taken (by rw [hphase]; rfl) ?_ hsame.commands
      rw [hsame.disconnects, hqueue]
    · next peer acceptInbound hphase =>
      have hsame :=
        (sameQueue_refl { s with disconnects := rest }).onRedialStopped acceptInbound
      refine .taken (by rw [hphase]; rfl) ?_ hsame.commands
      rw [hsame.disconnects, hqueue]
    all_goals exact s.sameQueue_refl.kept

theorem requested_step [ToUppercase] {Settings : Type} (s : ServeLoop)
    (ev : ServeLoopEvent Settings) : Requested s (s.step ev).1 (s.step ev).2 := by
  cases ev with
  | command live trusted reset c => exact s.requested_onCommand live trusted reset c
  | takeDisconnect => exact s.requested_takeDisconnect
  | takeConnect => exact s.sameQueue_takeConnect.kept
  | dialed => exact s.sameQueue_onDialed.kept
  | dialFailed reason => exact (s.sameQueue_onDialFailed reason).kept
  | discovered peer => exact (s.sameQueue_onDiscovered peer).kept
  | accepted peer => exact (s.sameQueue_onAccepted peer).kept
  | checkTrust trusted => exact (s.sameQueue_onCheckTrust trusted).kept
  | ownerUpdate ownerId epoch => exact (s.sameQueue_onOwnerUpdate ownerId epoch).kept
  | lost reason => exact (s.sameQueue_onLost reason).kept
  | resume => exact s.sameQueue_onResume.kept
  | ctrlC => exact s.sameQueue_onCtrlC.kept

/-- What has ended something and what waits grows by what a step sends. -/
theorem Requested.queue {s t : ServeLoop} {o : Option DisconnectRequest} (h : Requested s t o) :
    ∃ sent : List DisconnectRequest, o.toList ++ t.disconnects = s.disconnects ++ sent ∧
      sent.Pairwise (fun r r' => r.command < r'.command) ∧
      ∀ r ∈ sent, s.commands ≤ r.command ∧ r.command < t.commands := by
  cases h with
  | kept hqueue _ => exact ⟨[], by simp [hqueue], .nil, nofun⟩
  | sent hqueue hcommands _ =>
    exact ⟨_, hqueue, List.pairwise_singleton _ _, by simp [hcommands]⟩
  | taken _ hqueue _ => exact ⟨[], by simp [hqueue], .nil, nofun⟩

theorem Requested.commands_le {s t : ServeLoop} {o : Option DisconnectRequest}
    (h : Requested s t o) : s.commands ≤ t.commands := by
  cases h with
  | kept _ hcommands => exact hcommands
  | sent _ hcommands _ => omega
  | taken _ _ hcommands => omega

/-! ## Runs -/

section runs

variable [ToUppercase] {Settings : Type}

/-- The requests that have ended something, and then those in the queue, are numbered in the order
of their commands. -/
structure Numbered (steps : List (Step Settings)) (s : ServeLoop) : Prop where
  sorted : (steps.filterMap (·.output) ++ s.disconnects).Pairwise fun r r' =>
    r.command < r'.command
  below : ∀ r ∈ steps.filterMap (·.output) ++ s.disconnects, r.command < s.commands

theorem Numbered.step {steps : List (Step Settings)} {s : ServeLoop} (h : Numbered steps s)
    (ev : ServeLoopEvent Settings) :
    Numbered (steps ++ [(machine Settings).entry s ev]) (s.step ev).1 := by
  have hrequested := s.requested_step ev
  obtain ⟨sent, hqueue, hsorted, hsent⟩ := hrequested.queue
  have hall : (steps ++ [(machine Settings).entry s ev]).filterMap (·.output) ++
      (s.step ev).1.disconnects =
        steps.filterMap (·.output) ++ s.disconnects ++ sent := by
    rw [List.append_assoc, ← hqueue, ← List.append_assoc, List.filterMap_append]
    cases hout : (s.step ev).2 <;> simp [machine, hout]
  refine ⟨?_, ?_⟩
  · rw [hall]
    refine List.pairwise_append.2 ⟨h.sorted, hsorted, ?_⟩
    intro r hr r' hr'
    exact (h.below r hr).trans_le (hsent r' hr').1
  · rw [hall]
    intro r hr
    rcases List.mem_append.1 hr with hr | hr
    · exact (h.below r hr).trans_le hrequested.commands_le
    · exact (hsent r hr).2

/-- While a session or a redial is on, every token in the queue was sent while something was in
progress. -/
def Clean (s : ServeLoop) : Prop :=
  s.phase.listens = true → ∀ r ∈ s.disconnects, r.idle = false

theorem Clean.step {s : ServeLoop} (h : s.Clean) {ev : ServeLoopEvent Settings}
    (hbegins : BeginsClean ((machine Settings).entry s ev)) : (s.step ev).1.Clean := by
  intro hlistens r hr
  -- Before the step nothing in the queue is from an idle moment, whether or not it begins
  -- something.
  have hbefore : ∀ r ∈ s.disconnects, r.idle = false := by
    cases hphase : s.phase.listens with
    | true => exact h hphase
    | false => exact hbegins hphase hlistens
  have hrequested := s.requested_step ev
  generalize s.step ev = next at hrequested hlistens hr
  obtain ⟨t, o⟩ := next
  cases hrequested with
  | kept hqueue _ => exact hbefore r (hqueue ▸ hr)
  | sent hqueue _ hphase =>
    rw [hqueue] at hr
    rcases List.mem_append.1 hr with hr | hr
    · exact hbefore r hr
    · rw [List.mem_singleton.1 hr]
      have hprogress := LoopPhase.inProgress_of_listens (hphase ▸ hlistens)
      simp [isIdle, hprogress]
  | taken _ hqueue _ => exact hbefore r (hqueue ▸ .tail _ hr)

/-- Nothing ends on a token from an idle moment. -/
theorem Clean.output {s : ServeLoop} (h : s.Clean) {ev : ServeLoopEvent Settings}
    {r : DisconnectRequest} (hr : (s.step ev).2 = some r) : r.idle = false := by
  have hrequested := s.requested_step ev
  rw [hr] at hrequested
  cases hrequested with
  | taken hlistens hqueue _ => exact h hlistens r (hqueue ▸ .head _)

/-- **A Disconnect ends what was in progress, if every session and every redial begins with a clean
queue.** In every run of the serve loop and the command loop in which no session and no redial
begins while the queue holds a token of a Disconnect or ResetData from an idle moment, no session
and no redial ends on such a token; and no two of them end on tokens of one command. -/
theorem disconnects_only_active (id : DeviceId) (role : ServeRole)
    (events : List (ServeLoopEvent Settings))
    (h : ∀ e ∈ (machine Settings).trace (boot id role) events, BeginsClean e) :
    EndsOnlyActive ((machine Settings).trace (boot id role) events) := by
  refine ⟨?_, ?_⟩
  · intro e he r hr
    obtain ⟨before, ev, after, rfl, rfl⟩ := (machine Settings).mem_trace_iff.1 he
    have hclean : ((machine Settings).exec (boot id role) before).Clean := by
      refine (machine Settings).inv_exec_of (I := Clean) (G := BeginsClean) ?_
        (fun _ _ hs hbegins => hs.step hbegins) before ?_
      · intro hlistens
        cases hlistens
      · intro e he
        exact h e ((Machine.trace_prefix _ _ (List.prefix_append _ _)).subset he)
    exact hclean.output hr
  · have hboot : Numbered ([] : List (Step Settings)) (boot id role) :=
      ⟨.nil, fun r hr => by cases hr⟩
    have hnumbered : Numbered ((machine Settings).trace (boot id role) events)
        ((machine Settings).exec (boot id role) events) :=
      (machine Settings).induct (P := Numbered) (G := fun _ => True) hboot
        (fun _ _ ev hs _ => hs.step ev) events fun _ _ => trivial
    exact (List.pairwise_append.1 hnumbered.sorted).1.imp fun hlt => hlt.ne

end runs

section

attribute [local instance] ToUppercase.asciiOnly

/-- The user disconnects from a session, and a peer dials again. -/
def disconnectActive : List (ServeLoopEvent Unit) :=
  [.accepted (.fill 2), .command (fun _ => true) (fun _ => .ok true) true .disconnect,
    .takeDisconnect, .accepted (.fill 2)]

theorem disconnectActive_endsOnlyActive :
    EndsOnlyActive ((machine Unit).trace (boot (.fill 1) .target) disconnectActive) :=
  disconnects_only_active _ _ _ (by decide)

/-- **A Disconnect outlives the idle moment it was sent in.** Nothing is connected when the user
disconnects; the next session ends at once. -/
theorem outlived_disconnect : ¬ ∀ events : List (ServeLoopEvent Unit),
    EndsOnlyActive ((machine Unit).trace (boot (.fill 1) .target) events) := by
  intro h
  have hactive := (h [.command (fun _ => true) (fun _ => .ok true) true .disconnect,
    .accepted (.fill 2), .takeDisconnect]).active
  revert hactive
  simp [machine, step, onCommand, sendDisconnect, onAccepted, takeDisconnect, boot, startSession,
    isIdle, LoopPhase.inProgress, ConnectionDto.idle]

end

end ServeLoop

end Mouser
