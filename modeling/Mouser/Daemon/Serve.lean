import Mathlib.Logic.Function.Basic
import Mouser.Core.Device
import Mouser.Lib.Machine

/-!
# The serve loops of two daemons

Each daemon runs one `serve` loop: it waits for a connection, redials a peer it lost, or runs a
session. The dialer of a session controls, the acceptor receives. An explicit Connect makes a daemon
the persistent controller of the peer (`source_intent`): from then on it only redials, and never
accepts, until its user disconnects.

Two daemons that trust and see each other are the states of `Daemons.machine`. Its events are the
commands of the two users, the moments at which the loops take them up, the dials that are answered,
and the moments at which a side notices that its connection is gone.
-/

namespace Mouser

/-- The two machines. -/
inductive Host where
  | a
  | b
deriving DecidableEq

def Host.other : Host → Host
  | .a => .b
  | .b => .a

@[simp] theorem Host.other_other (h : Host) : h.other.other = h := by
  cases h <;> rfl

@[simp] theorem Host.other_ne (h : Host) : h.other ≠ h := by
  cases h <;> decide

theorem Host.forall_iff {P : Host → Prop} (h : Host) : (∀ k, P k) ↔ P h ∧ P h.other := by
  refine ⟨?_, ?_⟩
  · intro hP
    exact ⟨hP h, hP h.other⟩
  · rintro ⟨hP, hP'⟩ k
    cases h <;> cases k <;> assumption

/-- The role the daemon was started in. -/
inductive ServeRole where
  | auto
  | source
  | target
deriving DecidableEq

/-- Where a serve loop is suspended. -/
inductive ServePhase where
  /-- In the select of `next_connection`. -/
  | waiting
  /-- In `dial_connect_request`: the arm of the Connect has won the select of `next_connection`, and
  its other arms are gone. -/
  | dialing
  /-- In `redial_until_reconnected`. -/
  | redialing (acceptInbound : Bool)
  /-- In `run_session`. -/
  | session (canControl : Bool)
deriving DecidableEq

/-- Whether an inbound connection of the peer is accepted there. -/
def ServePhase.accepts : ServePhase → Bool
  | .waiting => true
  | .redialing acceptInbound => acceptInbound
  | .dialing | .session _ => false

/-- How `run_session` ends. -/
inductive SessionEnd where
  | disconnected
  | switchSource
  | connectionLost
deriving DecidableEq

structure Daemon where
  id : DeviceId
  role : ServeRole
  phase : ServePhase
  /-- `source_intent` names the peer. -/
  sourceIntent : Bool
  /-- The Connect and Disconnect requests the loop has not taken. -/
  connects : ℕ
  disconnects : ℕ
deriving DecidableEq

namespace Daemon

/-- The start of `serve`. -/
def boot (id : DeviceId) (role : ServeRole) : Daemon where
  id := id
  role := role
  phase := .waiting
  sourceIntent := false
  connects := 0
  disconnects := 0

/-- The top of the loop, with no connection carried over: a controller redials, and refuses what
comes in. -/
def loopTop (d : Daemon) : Daemon :=
  { d with phase := if d.sourceIntent then .redialing false else .waiting }

def onSessionEnd (d : Daemon) (canControl : Bool) : SessionEnd → Daemon
  | .disconnected => { d with sourceIntent := false }.loopTop
  | .switchSource => { d with sourceIntent := true }.loopTop
  | .connectionLost =>
    if d.sourceIntent then d.loopTop
    else if d.role = .target || !canControl then d.loopTop
    else { d with phase := .redialing true }

/-- `redial_until_reconnected` returns `Disconnected`. -/
def onRedialStopped (d : Daemon) (acceptInbound : Bool) : Daemon :=
  if acceptInbound then d.loopTop else { d with sourceIntent := false }.loopTop

/-- The arms of `next_connection` and `run_session` that wait for a Connect. A redialing daemon
leaves it in the queue. -/
def takeConnect (d : Daemon) : Daemon :=
  match d.connects with
  | 0 => d
  | n + 1 =>
    match d.phase with
    | .waiting => { d with connects := n, phase := .dialing }
    | .session canControl =>
      if !canControl then { d with connects := n }.onSessionEnd canControl .switchSource
      else { d with connects := n }
    | .dialing | .redialing _ => d

/-- The arms of `run_session` and `redial_until_reconnected` that wait for a Disconnect. -/
def takeDisconnect (d : Daemon) : Daemon :=
  match d.disconnects with
  | 0 => d
  | n + 1 =>
    match d.phase with
    | .session canControl => { d with disconnects := n }.onSessionEnd canControl .disconnected
    | .redialing acceptInbound => { d with disconnects := n }.onRedialStopped acceptInbound
    | .waiting | .dialing => d

/-- `run_session` notices that the connection is dead. -/
def onLost (d : Daemon) : Daemon :=
  match d.phase with
  | .session canControl => d.onSessionEnd canControl .connectionLost
  | _ => d

/-- The dial of a Connect fails. -/
def onDialFailed (d : Daemon) : Daemon :=
  match d.phase with
  | .dialing => { d with phase := .waiting }
  | _ => d

/-- What happens to one daemon alone. -/
inductive LoopEvent where
  /-- A Connect to the peer, or a Disconnect, reaches the bridge. -/
  | connect
  | disconnect
  /-- The loop takes the next request. -/
  | takeConnect
  | takeDisconnect
  | dialFailed
  | lost
deriving DecidableEq

def step (d : Daemon) : LoopEvent → Daemon
  | .connect => { d with connects := d.connects + 1 }
  | .disconnect => { d with disconnects := d.disconnects + 1 }
  | .takeConnect => d.takeConnect
  | .takeDisconnect => d.takeDisconnect
  | .dialFailed => d.onDialFailed
  | .lost => d.onLost

/-- Whether the loop is dialing the peer. `dial_discovered` leaves it to the lower id, except in
the source role. -/
def dials (d : Daemon) (peer : DeviceId) : Bool :=
  match d.phase with
  | .waiting => d.role ≠ .target && (d.role = .source || d.id < peer)
  | .dialing | .redialing _ => true
  | .session _ => false

/-- A dial is answered: the dialer controls. The dial of a Connect sets the intent. -/
def onDialed (d : Daemon) : Daemon :=
  match d.phase with
  | .dialing => { d with phase := .session true, sourceIntent := true }
  | _ => { d with phase := .session true }

/-- A connection of the peer is accepted: the acceptor receives. -/
def onAccepted (d : Daemon) : Daemon := { d with phase := .session false }

/-! ### The intent and the phase -/

/-- The intent is held exactly where the loop refuses inbound connections, or controls. -/
structure Settled (d : Daemon) : Prop where
  refuses : d.phase = .redialing false → d.sourceIntent = true
  controls : d.sourceIntent = true → d.phase = .session true ∨ d.phase = .redialing false

theorem settled_loopTop (d : Daemon) : d.loopTop.Settled := by
  refine ⟨?_, ?_⟩ <;> cases h : d.sourceIntent <;> simp [loopTop, h]

theorem settled_onSessionEnd {d : Daemon} {canControl : Bool} (e : SessionEnd) :
    (d.onSessionEnd canControl e).Settled := by
  cases e with
  | disconnected => exact settled_loopTop _
  | switchSource => exact settled_loopTop _
  | connectionLost =>
    simp only [onSessionEnd]
    split
    · exact settled_loopTop _
    · next hintent =>
      split
      · exact settled_loopTop _
      · refine ⟨?_, ?_⟩ <;> simp [hintent]

theorem settled_step {d : Daemon} (hd : d.Settled) (ev : LoopEvent) : (d.step ev).Settled := by
  cases ev with
  | connect => exact ⟨hd.refuses, hd.controls⟩
  | disconnect => exact ⟨hd.refuses, hd.controls⟩
  | takeConnect =>
    simp only [step, takeConnect]
    split
    · exact hd
    · split
      · next hphase =>
        refine ⟨?_, ?_⟩ <;> simp
        simpa [hphase] using hd.controls
      · split
        · exact settled_onSessionEnd _
        · exact ⟨hd.refuses, hd.controls⟩
      all_goals exact hd
  | takeDisconnect =>
    simp only [step, takeDisconnect]
    split
    · exact hd
    · split
      · exact settled_onSessionEnd _
      · simp only [onRedialStopped]
        split <;> exact settled_loopTop _
      all_goals exact hd
  | dialFailed =>
    simp only [step, onDialFailed]
    split
    · next hphase =>
      refine ⟨?_, ?_⟩ <;> simp
      simpa [hphase] using hd.controls
    · exact hd
  | lost =>
    simp only [step, onLost]
    split
    · exact settled_onSessionEnd _
    · exact hd

theorem intent_of_lost {d : Daemon} {canControl : Bool}
    (h : (d.onSessionEnd canControl .connectionLost).sourceIntent = true) :
    d.sourceIntent = true := by
  simp only [onSessionEnd] at h
  split at h
  · assumption
  · split at h <;> exact h

/-- The intent is new only for a receiver that takes a Connect. -/
theorem intent_of_step {d : Daemon} {ev : LoopEvent} (h : (d.step ev).sourceIntent = true) :
    d.sourceIntent = true ∨
      ev = .takeConnect ∧ d.connects ≠ 0 ∧ d.phase = .session false := by
  cases ev with
  | connect => exact .inl h
  | disconnect => exact .inl h
  | takeConnect =>
    simp only [step, takeConnect] at h
    split at h
    · exact .inl h
    · next hconnects =>
      split at h
      · exact .inl h
      · next canControl hphase =>
        cases canControl with
        | true => exact .inl h
        | false => exact .inr ⟨rfl, by simp [hconnects], hphase⟩
      all_goals exact .inl h
  | takeDisconnect =>
    simp only [step, takeDisconnect] at h
    split at h
    · exact .inl h
    · split at h
      · cases h
      · simp only [onRedialStopped] at h
        split at h
        · exact .inl h
        · cases h
      all_goals exact .inl h
  | dialFailed =>
    simp only [step, onDialFailed] at h
    split at h <;> exact .inl h
  | lost =>
    simp only [step, onLost] at h
    split at h
    · exact .inl (intent_of_lost h)
    · exact .inl h

/-- A dial is answered in the phase of a controller. -/
theorem settled_onDialed (d : Daemon) : d.onDialed.Settled := by
  simp only [onDialed]
  split <;> refine ⟨?_, ?_⟩ <;> simp

/-- A loop that accepts holds no intent. -/
theorem Settled.intent_of_accepts {d : Daemon} (hd : d.Settled) (h : d.phase.accepts = true) :
    d.sourceIntent = false := by
  cases hintent : d.sourceIntent with
  | false => rfl
  | true =>
    rcases hd.controls hintent with hphase | hphase <;> simp [hphase, ServePhase.accepts] at h

/-- A loop without the intent accepts, once it has given up its session or its dial. -/
theorem Settled.accepts_after {d : Daemon} (hd : d.Settled) (h : d.sourceIntent = false) :
    ((d.step .lost).step .dialFailed).phase.accepts = true := by
  cases hphase : d.phase with
  | waiting => simp [step, onLost, onDialFailed, hphase, ServePhase.accepts]
  | dialing => simp [step, onLost, onDialFailed, hphase, ServePhase.accepts]
  | redialing acceptInbound =>
    cases acceptInbound with
    | true => simp [step, onLost, onDialFailed, hphase, ServePhase.accepts]
    | false => simp [hd.refuses hphase] at h
  | session canControl =>
    have hlost : d.onLost = { d with phase := .waiting } ∨
        d.onLost = { d with phase := .redialing true } := by
      by_cases hdrop : d.role = .target || !canControl
      · exact .inl (by simp only [onLost, hphase, onSessionEnd, h, loopTop, hdrop]; rfl)
      · exact .inr (by simp only [onLost, hphase, onSessionEnd, h, hdrop]; rfl)
    rcases hlost with hlost | hlost <;> simp [step, hlost, onDialFailed, ServePhase.accepts]

theorem settled_onAccepted {d : Daemon} (h : d.sourceIntent = false) : d.onAccepted.Settled := by
  refine ⟨?_, ?_⟩ <;> simp [onAccepted, h]

end Daemon

/-- Two daemons that trust and see each other, and no one else. -/
structure Daemons where
  daemon : Host → Daemon

inductive ServeEvent where
  | loop (h : Host) (ev : Daemon.LoopEvent)
  /-- A dial is answered by the other machine. -/
  | dialed (h : Host)
deriving DecidableEq

namespace Daemons

def boot (id : Host → DeviceId) (role : Host → ServeRole) : Daemons :=
  ⟨fun h => .boot (id h) (role h)⟩

def modify (p : Daemons) (h : Host) (f : Daemon → Daemon) : Daemons :=
  ⟨Function.update p.daemon h (f (p.daemon h))⟩

/-- A session forms when one side dials while the other accepts. -/
def form (p : Daemons) (h : Host) : Daemons :=
  if (p.daemon h).dials (p.daemon h.other).id && (p.daemon h.other).phase.accepts then
    (p.modify h .onDialed).modify h.other .onAccepted
  else p

def next (p : Daemons) : ServeEvent → Daemons
  | .loop h ev => p.modify h (·.step ev)
  | .dialed h => p.form h

def machine : Machine Daemons ServeEvent Unit := ⟨fun p ev => (p.next ev, ())⟩

/-- Both redial each other, and neither accepts. -/
def LockedOut (p : Daemons) : Prop :=
  ∀ h, (p.daemon h).phase = .redialing false

/-- A receiver takes a Connect while its peer holds the intent. -/
def TakesOver (p : Daemons) (ev : ServeEvent) : Prop :=
  ∃ h, ev = .loop h .takeConnect ∧ (p.daemon h).connects ≠ 0 ∧
    (p.daemon h).phase = .session false ∧ (p.daemon h.other).sourceIntent = true

instance (p : Daemons) : DecidablePred p.TakesOver
  | .loop h ev => decidable_of_iff (ev = .takeConnect ∧ (p.daemon h).connects ≠ 0 ∧
      (p.daemon h).phase = .session false ∧ (p.daemon h.other).sourceIntent = true)
      (by simp [TakesOver])
  | .dialed h => isFalse (by simp [TakesOver])

/-! ## One event -/

section modify

variable (p : Daemons) (h : Host) (f : Daemon → Daemon)

@[simp] theorem modify_daemon : (p.modify h f).daemon h = f (p.daemon h) := by
  simp [modify]

@[simp] theorem modify_daemon_other : (p.modify h f).daemon h.other = p.daemon h.other := by
  simp [modify]

@[simp] theorem modify_other_daemon : (p.modify h.other f).daemon h = p.daemon h := by
  simp [modify, h.other_ne.symm]

end modify

/-- Each daemon is settled, and at most one holds the intent. -/
structure Converging (p : Daemons) : Prop where
  settled : ∀ h, (p.daemon h).Settled
  oneIntent : ∀ h, (p.daemon h).sourceIntent = true → (p.daemon h.other).sourceIntent = false

theorem Converging.not_lockedOut {p : Daemons} (hp : p.Converging) : ¬ p.LockedOut := by
  intro hlocked
  have hintent : ∀ h, (p.daemon h).sourceIntent = true := fun h =>
    (hp.settled h).refuses (hlocked h)
  have hother := hp.oneIntent .a (hintent .a)
  rw [hintent] at hother
  cases hother

theorem converging_boot (id : Host → DeviceId) (role : Host → ServeRole) :
    (boot id role).Converging := by
  refine ⟨fun h => ⟨?_, ?_⟩, ?_⟩ <;> simp [boot, Daemon.boot]

theorem Converging.form {p : Daemons} (hp : p.Converging) (h : Host) : (p.form h).Converging := by
  unfold Daemons.form
  split
  · next hform =>
    have haccepts : (p.daemon h.other).phase.accepts = true := (Bool.and_eq_true_iff.1 hform).2
    have hintent : (p.daemon h.other).sourceIntent = false :=
      (hp.settled h.other).intent_of_accepts haccepts
    refine ⟨?_, ?_⟩
    · refine (Host.forall_iff h).2 ⟨?_, ?_⟩
      · simpa using (p.daemon h).settled_onDialed
      · simpa using Daemon.settled_onAccepted hintent
    · refine (Host.forall_iff h).2 ⟨?_, ?_⟩
      · simp [Daemon.onAccepted, hintent]
      · simp [Daemon.onAccepted, hintent]
  · exact hp

/-- Only the takeover of a held intent leaves two controllers. -/
theorem Converging.next {p : Daemons} (hp : p.Converging) {ev : ServeEvent}
    (hev : ¬ p.TakesOver ev) : (p.next ev).Converging := by
  cases ev with
  | dialed h => exact hp.form h
  | loop h ev =>
    refine ⟨?_, ?_⟩
    · refine (Host.forall_iff h).2 ⟨?_, ?_⟩
      · simpa [Daemons.next] using Daemon.settled_step (hp.settled h) ev
      · simpa [Daemons.next] using hp.settled h.other
    · -- The intent of `h` is an old one, or no one else holds it.
      have hone : ((p.daemon h).step ev).sourceIntent = true →
          (p.daemon h.other).sourceIntent = false := by
        intro hintent
        rcases Daemon.intent_of_step hintent with hold | ⟨rfl, hconnects, hphase⟩
        · exact hp.oneIntent h hold
        · by_contra hother
          exact hev ⟨h, rfl, hconnects, hphase, by simpa using hother⟩
      refine (Host.forall_iff h).2 ⟨?_, ?_⟩
      · simpa [Daemons.next] using hone
      · simpa [Daemons.next] using fun hother => by_contra fun hintent => by
          simp [hone (by simpa using hintent)] at hother

/-- **Two controllers do not lock each other out, unless one takes over from the other.** In every
run in which no receiver takes a Connect while its peer holds the controller intent, there is no
moment at which both redial and neither accepts. -/
theorem never_lockedOut (id : Host → DeviceId) (role : Host → ServeRole) (events : List ServeEvent)
    (h : ∀ en ∈ machine.trace (boot id role) events, ¬ en.pre.TakesOver en.input) :
    ∀ before, before <+: events → ¬ (machine.exec (boot id role) before).LockedOut := by
  intro before hbefore
  have hp : (machine.exec (boot id role) before).Converging :=
    machine.inv_exec_of (I := Converging) (G := fun en => ¬ en.pre.TakesOver en.input)
      (converging_boot id role) (fun _ _ hp hev => hp.next hev) before
      fun en hen => h en ((machine.trace_prefix _ hbefore).subset hen)
  exact hp.not_lockedOut

/-- A machine dials its peer on its own, the peer's user clicks Connect, and takes over. -/
def takeover : List ServeEvent :=
  [.dialed .a, .loop .b .connect, .loop .b .takeConnect, .loop .a .lost, .dialed .b]

/-- Two daemons in the automatic role. -/
def auto : Daemons := boot (fun | .a => .fill 1 | .b => .fill 2) fun _ => .auto

theorem takeover_not_lockedOut : ¬ (machine.exec auto takeover).LockedOut :=
  never_lockedOut _ _ takeover (by decide) takeover List.prefix_rfl

/-- **One Connect on each side locks both out.** The user of one machine connects to the other,
then the user of the other connects back. -/
theorem connectBack_lockedOut : (machine.exec auto
    [.loop .a .connect, .loop .a .takeConnect, .dialed .a, .loop .b .connect,
      .loop .b .takeConnect, .loop .a .lost]).LockedOut := by
  intro h
  cases h <;> decide

/-- A takeover of a held intent locks both out, at the latest when the controller notices that its
connection is gone. -/
theorem Converging.lockedOut_of_takesOver {p : Daemons} (hp : p.Converging) {ev : ServeEvent}
    (hev : p.TakesOver ev) :
    ∃ h, ((p.next ev).next (.loop h .lost)).LockedOut := by
  obtain ⟨h, rfl, hconnects, hphase, hintent⟩ := hev
  obtain ⟨n, hn⟩ := Nat.exists_eq_succ_of_ne_zero hconnects
  refine ⟨h.other, (Host.forall_iff h).2 ⟨?_, ?_⟩⟩
  · simp [Daemons.next, Daemon.step, Daemon.takeConnect, hn, hphase, Daemon.onSessionEnd,
      Daemon.loopTop]
  · rcases (hp.settled h.other).controls hintent with hother | hother
    · simp [Daemons.next, Daemon.step, Daemon.onLost, hother, Daemon.onSessionEnd, hintent,
        Daemon.loopTop]
    · simp [Daemons.next, Daemon.step, Daemon.onLost, hother]

/-- **No session forms again without user action**: two daemons that are locked out stay so until
a Disconnect is taken. -/
theorem lockedOut_exec {p : Daemons} (hp : p.LockedOut) (events : List ServeEvent)
    (h : ∀ ev ∈ events, ∀ k, ev ≠ .loop k .takeDisconnect) :
    (machine.exec p events).LockedOut := by
  refine machine.inv_exec_of (I := LockedOut)
    (G := fun en => ∀ k, en.input ≠ .loop k .takeDisconnect) hp ?_ events ?_
  · intro q ev hq hev
    change (q.next ev).LockedOut
    cases ev with
    | dialed k => simpa [Daemons.next, Daemons.form, hq k.other, ServePhase.accepts] using hq
    | loop k ev =>
      refine (Host.forall_iff k).2 ⟨?_, by simpa [Daemons.next] using hq k.other⟩
      cases ev with
      | connect => simpa [Daemons.next, Daemon.step] using hq k
      | disconnect => simpa [Daemons.next, Daemon.step] using hq k
      | takeConnect =>
        have hk := hq k
        simp only [Daemons.next, modify_daemon, Daemon.step, Daemon.takeConnect, hk]
        split <;> exact hk
      | takeDisconnect => exact absurd rfl (hev k)
      | dialFailed => simp [Daemons.next, Daemon.step, Daemon.onDialFailed, hq k]
      | lost => simp [Daemons.next, Daemon.step, Daemon.onLost, hq k]
  · intro en hen k
    obtain ⟨js, ev, ks, heq, rfl⟩ := machine.mem_trace_iff.1 hen
    exact h ev (by simp [heq]) k

/-- **A takeover converges.** When the peer holds no intent, the receiver that takes a Connect
becomes its controller as soon as the peer has given up what it was doing and the dial is
answered. -/
theorem Converging.takeover {p : Daemons} (hp : p.Converging) {h : Host}
    (hconnects : (p.daemon h).connects ≠ 0) (hphase : (p.daemon h).phase = .session false)
    (hintent : (p.daemon h.other).sourceIntent = false) :
    let q := machine.exec p [.loop h .takeConnect, .loop h.other .lost, .loop h.other .dialFailed,
      .dialed h]
    (q.daemon h).phase = .session true ∧ (q.daemon h.other).phase = .session false := by
  obtain ⟨n, hn⟩ := Nat.exists_eq_succ_of_ne_zero hconnects
  have hdials : ((p.daemon h).step .takeConnect).phase = .redialing false := by
    simp [Daemon.step, Daemon.takeConnect, hn, hphase, Daemon.onSessionEnd, Daemon.loopTop]
  have haccepts := (hp.settled h.other).accepts_after hintent
  have hform : ∀ q : Daemons, (q.daemon h).phase = .redialing false →
      (q.daemon h.other).phase.accepts = true →
      ((q.form h).daemon h).phase = .session true ∧
        ((q.form h).daemon h.other).phase = .session false := by
    intro q hq hq'
    simp [Daemons.form, Daemon.dials, Daemon.onDialed, Daemon.onAccepted, hq, hq']
  apply hform
  · simpa [machine, Daemons.next] using hdials
  · simpa [machine, Daemons.next] using haccepts

end Daemons

end Mouser
