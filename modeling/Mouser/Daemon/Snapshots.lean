import Mouser.Daemon.Bridge
import Mouser.Ipc.Server
import Mouser.Lib.Machine
import Mouser.Lib.Publish

/-!
# The snapshot that UIs see

Three tasks publish snapshots: the serve task after each report of `IpcBridge`, `republish_loop`
when the registry has changed, and `command_loop` after the commands that change what a snapshot
shows. A publication builds the snapshot and then hands it to `send_replace`, with no lock over
both.

`Publishing` is the three tasks over one `Board`. `published_current` is what holds of the runs in
which no snapshot replaces a newer one, and `prompt_lost` is a run in which one does.
-/

namespace Mouser

inductive PublishTask where
  /-- The serve task, in a session or outside of one. -/
  | serve
  | republish
  | command
deriving DecidableEq

instance : Fintype PublishTask := ⟨{.serve, .republish, .command}, fun t => by cases t <;> decide⟩

/-- What the serve task reports. -/
inductive ServeReport where
  | setConnected (peerId ownerId : String)
  | setConnecting (peerId : String)
  | setConnectError (reason : String)
  | setIdle
  | setOwnerEpoch (ownerId : String) (epoch : UInt64)
  | requestPairing (prompt : PairingDto)
  | clearPairing
  /-- `pair_via_ui` trusts the peer; its guard then clears the prompt. -/
  | approved (peer : DeviceId)

/-- How `reset_data` ends. It removes the trusted peers first, and then the settings file. -/
inductive ResetEnd where
  | done
  | failed (peersRemoved : Bool)
deriving DecidableEq

inductive PublishEvent (Settings : Type) where
  | serve (report : ServeReport)
  /-- `command_loop` processes a command. -/
  | command (c : Command Settings) (reset : ResetEnd)
  /-- `run_registry` changes the registry. -/
  | registry (adverts : List PeerAdvert)
  /-- The task makes the second write of what it is doing. -/
  | finish (t : PublishTask)
  /-- `build_snapshot` -/
  | build (t : PublishTask)
  /-- `send_replace` -/
  | publish (t : PublishTask)

namespace PublishEvent

variable {Settings : Type}

/-- The task whose snapshot goes to `send_replace`. -/
def publishes : PublishEvent Settings → Option PublishTask
  | .publish t => some t
  | _ => none

/-- A ResetData that fails after it has removed the trusted peers. -/
def breaksOff : PublishEvent Settings → Bool
  | .command .resetData (.failed true) => true
  | _ => false

end PublishEvent

structure Publishing (Settings : Type) where
  board : Board PublishTask (Shared Settings) (Snapshot Settings)
  /-- The task has a second write to make before it publishes. -/
  writing : PublishTask → Bool

/-- `trust_peer`, with no other call in between. -/
def trustPeer [ToUppercase] (file : Option String) (peer : DeviceId) :
    Except DaemonStoreError String :=
  (loadTrustedPeers file).map fun peers => writeTrustedPeers (insert peer peers)

namespace Publishing

section

variable {Settings : Type} [ToUppercase]

/-- The bridge has started: the snapshot of `bind` is up, and `republish_loop` is about to publish.
-/
def start (shared : Shared Settings) : Publishing Settings where
  board := .start buildSnapshot shared fun t => t = .republish
  writing _ := false

/-- The snapshot in force. -/
def published (s : Publishing Settings) : Snapshot Settings := s.board.up

/-- The task waits for something to do. -/
def Free (s : Publishing Settings) (t : PublishTask) : Prop :=
  s.writing t = false ∧ s.board.Quiet t

instance (s : Publishing Settings) (t : PublishTask) : Decidable (s.Free t) :=
  inferInstanceAs (Decidable (_ ∧ _))

def write (s : Publishing Settings) (t : PublishTask) (f : Shared Settings → Shared Settings) :
    Publishing Settings :=
  { s with board := s.board.write f t }

/-- A write that the task follows with another one. -/
def writeFirst (s : Publishing Settings) (t : PublishTask)
    (f : Shared Settings → Shared Settings) : Publishing Settings :=
  { board := s.board.write f t, writing := Function.update s.writing t true }

def onServe (s : Publishing Settings) : ServeReport → Publishing Settings
  | .setConnected peerId ownerId =>
    s.write .serve ({ · with connection := .connected peerId ownerId })
  | .setConnecting peerId => s.write .serve ({ · with connection := .connecting peerId })
  | .setConnectError reason => s.write .serve ({ · with connection := .connectError reason })
  | .setIdle => s.write .serve ({ · with connection := .idle })
  | .setOwnerEpoch ownerId epoch =>
    match s.board.state.connection.setOwnerEpoch ownerId epoch with
    | some connection => s.write .serve ({ · with connection })
    | none => s
  | .requestPairing prompt => s.write .serve ({ · with pairing := some prompt })
  | .clearPairing => s.write .serve ({ · with pairing := none })
  | .approved peer =>
    match trustPeer s.board.state.trustedPeers peer with
    | .ok file => s.writeFirst .serve ({ · with trustedPeers := some file })
    | .error _ => s.write .serve ({ · with pairing := none })

/-- The answer to a Connect; `errorText` is how a store error reads, with the path of the file. -/
def connectAnswer (errorText : DaemonStoreError → String) (shared : Shared Settings)
    (peer : DeviceId) : Except String Unit :=
  connectRequest (shared.registry.any fun advert => decodeDeviceId advert.id.toList = some peer)
    ((loadTrustedPeers shared.trustedPeers).mapError errorText |>.map fun peers =>
      decide (peer ∈ peers))

def onCommand (errorText : DaemonStoreError → String) (s : Publishing Settings)
    (reset : ResetEnd) : Command Settings → Publishing Settings
  | .connect peerId =>
    match decodeDeviceId peerId.toList with
    | none => s
    | some peer =>
      match connectAnswer errorText s.board.state peer with
      | .ok () => s
      | .error reason => s.write .command ({ · with connection := .connectError reason })
  | .trust peerId =>
    match decodeDeviceId peerId.toList with
    | none => s
    | some peer =>
      match trustPeer s.board.state.trustedPeers peer with
      | .ok file => s.write .command ({ · with trustedPeers := some file })
      | .error _ => s
  | .updateSettings settings => s.write .command ({ · with settings })
  | .resetData =>
    match reset with
    | .done => s.writeFirst .command ({ · with trustedPeers := none })
    | .failed true => { s with board := s.board.alter ({ · with trustedPeers := none }) }
    | .failed false => s
  | .refreshSnapshot => s.write .command id
  | .disconnect | .approvePairing _ | .denyPairing _ | .sendFiles _ | .getSnapshot => s

/-- The second write: the serve task clears the prompt, the command loop reverts the settings. -/
def onFinish (defaultSettings : Settings) (s : Publishing Settings) (t : PublishTask) :
    Publishing Settings :=
  let s' := { s with writing := Function.update s.writing t false }
  match t with
  | .serve => s'.write t ({ · with pairing := none })
  | .republish => s'
  | .command => s'.write t ({ · with settings := defaultSettings })

/-- A task takes up something new only when it is free, and publishes when it has written all it
writes. The change of the registry reaches `republish_loop` at any time. -/
def step (errorText : DaemonStoreError → String) (defaultSettings : Settings)
    (s : Publishing Settings) : PublishEvent Settings → Publishing Settings
  | .serve report => if s.Free .serve then s.onServe report else s
  | .command c reset => if s.Free .command then s.onCommand errorText reset c else s
  | .registry adverts => s.write .republish ({ · with registry := adverts })
  | .finish t => if s.writing t then s.onFinish defaultSettings t else s
  | .build t =>
    if s.writing t = false ∧ s.board.owes t = true ∧ s.board.held t = none then
      { s with board := s.board.build buildSnapshot t }
    else s
  | .publish t => { s with board := s.board.put t }

def machine (errorText : DaemonStoreError → String) (defaultSettings : Settings) :
    Machine (Publishing Settings) (PublishEvent Settings) Unit :=
  ⟨fun s ev => (s.step errorText defaultSettings ev, ())⟩

/-- No task has a step left to make. -/
def Finished (s : Publishing Settings) : Prop := ∀ t, s.Free t

omit [ToUppercase] in
instance (s : Publishing Settings) : Decidable s.Finished :=
  inferInstanceAs (Decidable (∀ t, s.Free t))

/-- The step replaces no snapshot by an older one, and is no ResetData that fails after it has
removed trusted peers whom a snapshot shows. -/
structure InOrder (s : Publishing Settings) (ev : PublishEvent Settings) : Prop where
  publish : ∀ t, ev.publishes = some t → ¬ s.board.Late t
  reset : ev.breaksOff = true →
    buildSnapshot { s.board.state with trustedPeers := none } = buildSnapshot s.board.state

instance [DecidableEq Settings] (s : Publishing Settings) (ev : PublishEvent Settings) :
    Decidable (s.InOrder ev) :=
  decidable_of_iff ((∀ t, ev.publishes = some t → ¬ s.board.Late t) ∧
      (ev.breaksOff = true →
        buildSnapshot { s.board.state with trustedPeers := none } = buildSnapshot s.board.state))
    ⟨fun h => ⟨h.1, h.2⟩, fun h => ⟨h.publish, h.reset⟩⟩

/-! ## One step -/

/-- The board is fresh. -/
def Current (s : Publishing Settings) : Prop := s.board.Fresh buildSnapshot

theorem Current.write {s : Publishing Settings} (h : s.Current) (t : PublishTask)
    (f : Shared Settings → Shared Settings) : (s.write t f).Current :=
  Board.Fresh.write h f t

theorem Current.writeFirst {s : Publishing Settings} (h : s.Current) (t : PublishTask)
    (f : Shared Settings → Shared Settings) : (s.writeFirst t f).Current :=
  Board.Fresh.write h f t

theorem Current.onServe {s : Publishing Settings} (h : s.Current) (report : ServeReport) :
    (s.onServe report).Current := by
  cases report with
  | setOwnerEpoch ownerId epoch =>
    simp only [Publishing.onServe]
    split
    · exact h.write _ _
    · exact h
  | approved peer =>
    simp only [Publishing.onServe]
    split
    · exact h.writeFirst _ _
    · exact h.write _ _
  | setConnected | setConnecting | setConnectError | setIdle | requestPairing | clearPairing =>
    exact h.write _ _

theorem Current.onCommand {errorText : DaemonStoreError → String} {s : Publishing Settings}
    (h : s.Current) {c : Command Settings} {reset : ResetEnd}
    (horder : s.InOrder (.command c reset)) : (s.onCommand errorText reset c).Current := by
  cases c with
  | connect peerId =>
    simp only [Publishing.onCommand]
    split
    · exact h
    · split
      · exact h
      · exact h.write _ _
  | trust peerId =>
    simp only [Publishing.onCommand]
    split
    · exact h
    · split
      · exact h.write _ _
      · exact h
  | updateSettings settings => exact h.write _ _
  | refreshSnapshot => exact h.write _ _
  | resetData =>
    cases reset with
    | done => exact h.writeFirst _ _
    | failed peersRemoved =>
      cases peersRemoved with
      | true =>
        exact Board.Fresh.alter (f := ({ · with trustedPeers := none })) h (horder.reset rfl)
      | false => exact h
  | disconnect | approvePairing | denyPairing | sendFiles | getSnapshot => exact h

theorem Current.onFinish {defaultSettings : Settings} {s : Publishing Settings} (h : s.Current)
    (t : PublishTask) : (s.onFinish defaultSettings t).Current := by
  have hwriting : Current { s with writing := Function.update s.writing t false } := h
  cases t with
  | serve => exact hwriting.write _ _
  | republish => exact hwriting
  | command => exact hwriting.write _ _

theorem Current.step {errorText : DaemonStoreError → String} {defaultSettings : Settings}
    {s : Publishing Settings} (h : s.Current) {ev : PublishEvent Settings}
    (horder : s.InOrder ev) : (s.step errorText defaultSettings ev).Current := by
  cases ev with
  | serve report =>
    simp only [Publishing.step]
    split
    · exact h.onServe report
    · exact h
  | command c reset =>
    simp only [Publishing.step]
    split
    · exact h.onCommand horder
    · exact h
  | registry adverts => exact h.write _ _
  | finish t =>
    simp only [Publishing.step]
    split
    · exact h.onFinish t
    · exact h
  | build t =>
    simp only [Publishing.step]
    split
    · exact Board.Fresh.build h t
    · exact h
  | publish t => exact Board.Fresh.put h (horder.publish t rfl)

/-! ## Runs -/

/-- **The UI is not left stale, if no snapshot replaces a newer one.** In every run in which no
`send_replace` publishes a snapshot built before the one in force, and no ResetData removes trusted
peers that a snapshot shows and then fails, the snapshot in force shows the current connection,
pairing, settings and peers whenever no task has a step left to make. -/
theorem published_current (errorText : DaemonStoreError → String) (defaultSettings : Settings)
    (shared : Shared Settings) (events : List (PublishEvent Settings))
    (h : ∀ e ∈ (machine errorText defaultSettings).trace (start shared) events,
      e.pre.InOrder e.input)
    (hfinished : ((machine errorText defaultSettings).exec (start shared) events).Finished) :
    let s := (machine errorText defaultSettings).exec (start shared) events
    s.published = buildSnapshot s.board.state := by
  have hstart : (start shared).Current := Board.fresh_start shared _
  have hcurrent : ((machine errorText defaultSettings).exec (start shared) events).Current :=
    (machine errorText defaultSettings).inv_exec_of (I := Current)
      (G := fun e => e.pre.InOrder e.input) hstart (fun _ _ hs horder => hs.step horder) events h
  exact hcurrent.up_eq fun t => (hfinished t).2

end

section

attribute [local instance] ToUppercase.asciiOnly

/-- A daemon with nothing discovered and nothing stored. -/
def fresh : Shared Unit where
  localDevice := { id := "a", name := "a", os := "linux" }
  registry := []
  trustedPeers := none
  connection := .idle
  pairing := none
  settings := ()

/-- A peer asks to be paired, and the user is shown the prompt. -/
def prompted : List (PublishEvent Unit) :=
  [.build .republish, .publish .republish, .serve (.requestPairing ⟨"b", "b", "123456"⟩),
    .build .serve, .publish .serve]

theorem prompted_current :
    let s := (machine (fun _ => "") ()).exec (start fresh) prompted
    s.published = buildSnapshot s.board.state :=
  published_current _ () fresh prompted (by decide) (by decide)

/-- **A prompt is lost.** `republish_loop` builds the snapshot before the prompt and publishes it
after the one with the prompt; nothing is left to do, and the user sees no prompt. -/
theorem prompt_lost : ¬ ∀ events : List (PublishEvent Unit),
    let s := (machine (fun _ => "") ()).exec (start fresh) events
    s.Finished → s.published = buildSnapshot s.board.state := by
  intro h
  have hlost := h [.build .republish, .serve (.requestPairing ⟨"b", "b", "123456"⟩), .build .serve,
    .publish .serve, .publish .republish] (by decide)
  have hprompt := congrArg Snapshot.pairing hlost
  revert hprompt
  decide

end

end Publishing

end Mouser
