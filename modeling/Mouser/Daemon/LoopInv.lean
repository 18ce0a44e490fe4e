import Mouser.Daemon.Loop

/-!
# The invariant of a daemon

`LoopInv` is what holds of the phases alone, whatever makes the loop go from one to the next: whom
it may control, whom it pursues, and what the UI is shown. `Ready` is what the loop knows of the
peer that it dials there. Both are relative to the peers that the user has asked for and to those
that the trust store has been seen to hold.
-/

namespace Mouser

namespace Serving

/-! ## The invariant of the loop -/

/-- Whether the daemon may control a peer: the role says so, or the user has asked for it. -/
def MayControl (asked : DeviceId → Prop) (loop : ServeLoop) (peer : DeviceId) : Prop :=
  loop.role = .source ∨ loop.role = .auto ∧ loop.id < peer ∨ asked peer

/-- Where the loop is while it holds the intent to control the peer. -/
def Pursues (peer : DeviceId) : LoopPhase → Prop
  | .redialing target acceptInbound => target = peer ∧ acceptInbound = false
  | .session target canControl | .lost target canControl => target = peer ∧ canControl = true
  | .waiting | .dialing _ => False
  | .stopped => True

/-- The phases in which the loop is about to control the peer, does, or has done so. -/
def Controls (peer : DeviceId) : LoopPhase → Prop
  | .redialing target _ => target = peer
  | .session target canControl | .lost target canControl => target = peer ∧ canControl = true
  | .waiting | .dialing _ | .stopped => False

structure LoopInv (asked : DeviceId → Prop) (loop : ServeLoop) : Prop where
  connects : ∀ peer ∈ loop.connects, asked peer
  dials : ∀ peer, loop.phase = .dialing peer → asked peer ∧ loop.sourceIntent = none
  intent : ∀ peer, loop.sourceIntent = some peer → asked peer ∧ Pursues peer loop.phase
  refuses : ∀ peer, loop.phase = .redialing peer false → loop.sourceIntent = some peer
  controls : ∀ peer, Controls peer loop.phase → MayControl asked loop peer
  shown : loop.connection.state = .connected → ∃ peer canControl,
    loop.phase = .session peer canControl ∧ loop.connection.peerId = some (formatDeviceId peer)

section LoopInv

variable {asked : DeviceId → Prop} {loop : ServeLoop}

theorem LoopInv.mono {asked' : DeviceId → Prop} (h : LoopInv asked loop)
    (hle : ∀ peer, asked peer → asked' peer) : LoopInv asked' loop where
  connects peer hpeer := hle peer (h.connects peer hpeer)
  dials peer hphase := ⟨hle peer (h.dials peer hphase).1, (h.dials peer hphase).2⟩
  intent peer hintent := ⟨hle peer (h.intent peer hintent).1, (h.intent peer hintent).2⟩
  refuses := h.refuses
  controls peer hphase := (h.controls peer hphase).imp_right (.imp_right (hle peer))
  shown := h.shown

/-- A redial of a peer that the loop may control, and that it pursues if it refuses the peer. -/
theorem loopInv_redial {peer : DeviceId} {acceptInbound : Bool}
    (hconnects : ∀ p ∈ loop.connects, asked p) (hcontrol : MayControl asked loop peer)
    (hintent : loop.sourceIntent = if acceptInbound then none else some peer)
    (hasked : acceptInbound = false → asked peer) :
    LoopInv asked (loop.redial peer acceptInbound) := by
  refine ⟨hconnects, nofun, fun p hp => ?_, fun p hp => ?_, fun p hp => ?_, nofun⟩
  · have hsome := hintent.symm.trans hp
    cases acceptInbound with
    | true => cases hsome
    | false =>
      cases hsome
      exact ⟨hasked rfl, rfl, rfl⟩
  · cases hp
    exact hintent
  · cases hp
    exact hcontrol

theorem loopInv_waiting (hphase : loop.phase = .waiting)
    (hconnects : ∀ p ∈ loop.connects, asked p) (hintent : loop.sourceIntent = none)
    (hshown : loop.connection.state ≠ .connected) : LoopInv asked loop := by
  refine ⟨hconnects, fun p hp => ?_, fun p hp => ?_, fun p hp => ?_, fun p hp => ?_,
    fun h => absurd h hshown⟩
  · cases hphase.symm.trans hp
  · cases hintent.symm.trans hp
  · cases hphase.symm.trans hp
  · rw [hphase] at hp
    exact hp.elim

theorem loopInv_loopTop (hconnects : ∀ p ∈ loop.connects, asked p)
    (hintent : ∀ p, loop.sourceIntent = some p → asked p)
    (hshown : loop.connection.state ≠ .connected) : LoopInv asked loop.loopTop := by
  unfold ServeLoop.loopTop
  split
  · next target htarget =>
    have hasked := hintent target htarget
    exact loopInv_redial hconnects (.inr (.inr hasked)) htarget fun _ => hasked
  · next hnone => exact loopInv_waiting rfl hconnects hnone hshown

theorem loopInv_startSession {peer : DeviceId} {canControl : Bool}
    (hconnects : ∀ p ∈ loop.connects, asked p)
    (hcontrol : canControl = true → MayControl asked loop peer)
    (hintent : ∀ p, loop.sourceIntent = some p → asked p ∧ p = peer ∧ canControl = true) :
    LoopInv asked (loop.startSession peer canControl) := by
  refine ⟨hconnects, nofun, fun p hp => ?_, nofun, fun p hp => ?_, fun _ => ⟨peer, _, rfl, rfl⟩⟩
  · obtain ⟨hasked, rfl, rfl⟩ := hintent p hp
    exact ⟨hasked, rfl, rfl⟩
  · obtain ⟨rfl, hp⟩ := hp
    exact hcontrol hp

/-- There is no intent in a phase that does not pursue anything. -/
theorem LoopInv.intent_eq_none (h : LoopInv asked loop) (hphase : ∀ p, ¬ Pursues p loop.phase) :
    loop.sourceIntent = none := by
  cases hintent : loop.sourceIntent with
  | none => rfl
  | some p => exact absurd (h.intent p hintent).2 (hphase p)

theorem LoopInv.onDisconnected (h : LoopInv asked loop) : LoopInv asked loop.onDisconnected :=
  loopInv_loopTop h.connects nofun nofun

theorem LoopInv.onSwitchSource (h : LoopInv asked loop) {target : DeviceId}
    (hasked : asked target) : LoopInv asked (loop.onSwitchSource target) := by
  refine loopInv_loopTop h.connects (fun p hp => ?_) nofun
  cases hp
  exact hasked

theorem LoopInv.connection (h : LoopInv asked loop) (hphase : ∀ p c, loop.phase ≠ .session p c) :
    loop.connection.state ≠ .connected := by
  intro hconnected
  obtain ⟨p, c, hp, -⟩ := h.shown hconnected
  exact hphase p c hp

theorem LoopInv.onRedialStopped (h : LoopInv asked loop)
    (hphase : ∀ p c, loop.phase ≠ .session p c) (acceptInbound : Bool) :
    LoopInv asked (loop.onRedialStopped acceptInbound) := by
  unfold ServeLoop.onRedialStopped
  split
  · exact loopInv_loopTop h.connects (fun p hp => (h.intent p hp).1) (h.connection hphase)
  · exact loopInv_loopTop h.connects nofun nofun

theorem LoopInv.takeConnect (h : LoopInv asked loop) : LoopInv asked loop.takeConnect := by
  unfold ServeLoop.takeConnect
  split
  · exact h
  · next target rest hconnects =>
    have htarget : asked target := h.connects target (hconnects ▸ .head _)
    have hrest : ∀ p ∈ rest, asked p := fun p hp => h.connects p (hconnects ▸ .tail _ hp)
    have htaken : LoopInv asked { loop with connects := rest } :=
      ⟨hrest, h.dials, h.intent, h.refuses, h.controls, h.shown⟩
    split
    · next hphase =>
      have hnone : loop.sourceIntent = none :=
        h.intent_eq_none fun p => by simp [hphase, Pursues]
      refine ⟨hrest, fun p hp => ?_, fun p hp => ?_, nofun, nofun, nofun⟩
      · cases hp
        exact ⟨htarget, hnone⟩
      · cases hnone.symm.trans hp
    · split
      · exact htaken.onSwitchSource htarget
      · exact htaken
    all_goals exact h

theorem LoopInv.takeDisconnect (h : LoopInv asked loop) : LoopInv asked loop.takeDisconnect.1 := by
  unfold ServeLoop.takeDisconnect
  split
  · exact h
  · next r rest hqueue =>
    have htaken : LoopInv asked { loop with disconnects := rest } :=
      ⟨h.connects, h.dials, h.intent, h.refuses, h.controls, h.shown⟩
    split
    · exact htaken.onDisconnected
    · next hphase => exact htaken.onRedialStopped (by simp [hphase]) _
    all_goals exact h

theorem LoopInv.onDialed (h : LoopInv asked loop) : LoopInv asked loop.onDialed := by
  unfold ServeLoop.onDialed
  split
  · next peer hphase =>
    obtain ⟨hasked, -⟩ := h.dials peer hphase
    refine loopInv_startSession h.connects (fun _ => .inr (.inr hasked)) fun p hp => ?_
    cases hp
    exact ⟨hasked, rfl, rfl⟩
  · next peer _ hphase =>
    refine loopInv_startSession h.connects (fun _ => h.controls peer (by simp [hphase, Controls]))
      fun p hp => ?_
    obtain ⟨hasked, hpursues⟩ := h.intent p hp
    rw [hphase] at hpursues
    exact ⟨hasked, hpursues.1.symm, rfl⟩
  all_goals exact h

theorem LoopInv.onDialFailed (h : LoopInv asked loop) (reason : String) :
    LoopInv asked (loop.onDialFailed reason) := by
  unfold ServeLoop.onDialFailed
  split
  · next hphase => exact loopInv_waiting rfl h.connects (h.dials _ hphase).2 nofun
  · next peer acceptInbound hphase =>
    obtain ⟨hconnects, -, hintent, hrefuses, hcontrols, -⟩ := h
    rw [hphase] at hintent hrefuses hcontrols
    exact ⟨hconnects, nofun, hintent, hrefuses, hcontrols, nofun⟩
  all_goals exact h

theorem LoopInv.onDiscovered (h : LoopInv asked loop) {peer : DeviceId}
    (hcontrol : MayControl asked loop peer) : LoopInv asked (loop.onDiscovered peer) := by
  unfold ServeLoop.onDiscovered
  split
  · next hphase =>
    split
    · have hnone : loop.sourceIntent = none :=
        h.intent_eq_none fun p => by simp [hphase, Pursues]
      refine loopInv_startSession h.connects (fun _ => hcontrol) fun p hp => ?_
      cases hnone.symm.trans hp
    · exact h
  all_goals exact h

theorem LoopInv.onAccepted (h : LoopInv asked loop) (peer : DeviceId) :
    LoopInv asked (loop.onAccepted peer) := by
  unfold ServeLoop.onAccepted
  split
  · next hphase =>
    have hnone : loop.sourceIntent = none :=
      h.intent_eq_none fun p => by simp [hphase, Pursues]
    refine loopInv_startSession h.connects nofun fun p hp => ?_
    cases hnone.symm.trans hp
  · next target acceptInbound hphase =>
    split
    · next haccept =>
      rw [Bool.and_eq_true] at haccept
      rw [haccept.1] at hphase
      have hnone : loop.sourceIntent = none :=
        h.intent_eq_none fun p => by simp [hphase, Pursues]
      refine loopInv_startSession h.connects nofun fun p hp => ?_
      cases hnone.symm.trans hp
    · exact h
  all_goals exact h

theorem LoopInv.onCheckTrust (h : LoopInv asked loop) (trusted : Except String Bool) :
    LoopInv asked (loop.onCheckTrust trusted) := by
  have hstopped : ∀ reason, LoopInv asked { loop with connection := .connectError reason } :=
    fun reason => ⟨h.connects, h.dials, h.intent, h.refuses, h.controls, nofun⟩
  unfold ServeLoop.onCheckTrust
  split
  · next hphase => exact (hstopped _).onRedialStopped (by simp [hphase]) _
  · next hphase => exact (hstopped _).onRedialStopped (by simp [hphase]) _
  all_goals exact h

theorem LoopInv.onOwnerUpdate (h : LoopInv asked loop) (ownerId : String) (epoch : UInt64) :
    LoopInv asked (loop.onOwnerUpdate ownerId epoch) := by
  unfold ServeLoop.onOwnerUpdate
  split
  · next hphase =>
    refine ⟨h.connects, h.dials, h.intent, h.refuses, h.controls, ?_⟩
    unfold ConnectionDto.setOwnerEpoch
    split
    · next hstate => exact fun _ => h.shown hstate
    · exact h.shown
  all_goals exact h

theorem LoopInv.onLost (h : LoopInv asked loop) (reason : String) :
    LoopInv asked (loop.onLost reason) := by
  unfold ServeLoop.onLost
  split
  · next peer canControl hphase =>
    refine ⟨h.connects, nofun, fun p hp => ?_, nofun, fun p hp => ?_, nofun⟩
    · obtain ⟨hasked, hpursues⟩ := h.intent p hp
      rw [hphase] at hpursues
      exact ⟨hasked, hpursues⟩
    · exact h.controls p (hphase ▸ hp)
  all_goals exact h

theorem LoopInv.onResume (h : LoopInv asked loop) : LoopInv asked loop.onResume := by
  unfold ServeLoop.onResume
  split
  · next peer canControl hphase =>
    have hshown : loop.connection.state ≠ .connected := h.connection (by simp [hphase])
    have htop := loopInv_loopTop h.connects (fun p hp => (h.intent p hp).1) hshown
    split
    · exact htop
    · next hnone =>
      rw [Bool.not_eq_true, Option.isSome_eq_false_iff, Option.isNone_iff_eq_none] at hnone
      split
      · exact htop
      · next hcontrols =>
        rw [Bool.or_eq_true, not_or, Bool.not_eq_true', Bool.not_eq_false] at hcontrols
        refine loopInv_redial h.connects (h.controls peer ?_) hnone nofun
        rw [hphase]
        exact ⟨rfl, hcontrols.2⟩
  all_goals exact h

theorem LoopInv.onCtrlC (h : LoopInv asked loop) : LoopInv asked loop.onCtrlC := by
  have hstopped : ∀ connection : ConnectionDto, connection.state ≠ .connected →
      LoopInv asked { loop with phase := .stopped, connection } := fun connection hshown =>
    ⟨h.connects, nofun, fun p hp => ⟨(h.intent p hp).1, trivial⟩, nofun, fun _ => False.elim,
      fun hconnected => absurd hconnected hshown⟩
  unfold ServeLoop.onCtrlC
  split
  · exact hstopped .idle nofun
  · next hphase => exact hstopped _ (h.connection (by simp [hphase]))
  · next hphase => exact hstopped _ (h.connection (by simp [hphase]))
  all_goals exact h

/-- A command may ask for a Connect, and the loop takes no step. -/
theorem LoopInv.onCommand [ToUppercase] {Settings : Type} (h : LoopInv asked loop)
    (live : DeviceId → Bool) (trusted : DeviceId → Except String Bool) (reset : Bool)
    (c : Command Settings)
    (hasked : ∀ peerId peer, c = .connect peerId → decodeDeviceId peerId.toList = some peer →
      asked peer) : LoopInv asked (loop.onCommand live trusted reset c) := by
  have hsent : LoopInv asked loop.sendDisconnect :=
    ⟨h.connects, h.dials, h.intent, h.refuses, h.controls, h.shown⟩
  cases c with
  | connect peerId =>
    rw [ServeLoop.onCommand]
    split
    · exact h
    · next peer hpeer =>
      split
      · refine ⟨fun p hp => ?_, h.dials, h.intent, h.refuses, h.controls, h.shown⟩
        rcases List.mem_append.1 hp with hp | hp
        · exact h.connects p hp
        · rw [List.mem_singleton.1 hp]
          exact hasked peerId peer rfl hpeer
      · exact ⟨h.connects, h.dials, h.intent, h.refuses, h.controls,
          by simp [ConnectionDto.connectError]⟩
  | disconnect => exact hsent
  | resetData =>
    rw [ServeLoop.onCommand]
    split
    · exact hsent
    · exact h
  | _ => exact h

end LoopInv

/-! ## The invariant of the daemon -/

/-- What is known of the peer of a redial, by where it stands. -/
def RedialReady (trusted : Prop) : RedialPhase → Prop
  | .checking | .sleeping _ => True
  | .resolving | .dialing _ _ _ => trusted
  | .ended _ => False

theorem RedialReady.mono {before after : Prop} {phase : RedialPhase} (h : RedialReady before phase)
    (hle : before → after) : RedialReady after phase := by
  cases phase with
  | resolving | dialing => exact hle h
  | checking | sleeping => trivial
  | ended => exact h

/-- What the loop waits for in its phase, and what is known of the peer that it dials. -/
def Ready (trusted : DeviceId → Prop) (loop : ServeLoop) : LoopPhase → ServeFuture → Prop
  | .waiting, .select _ dial => ∀ d, dial = .dialing d → trusted d.peer ∧
      (loop.role = .source ∨ loop.role = .auto ∧ loop.id < d.peer)
  | .dialing peer, .request _ dial => trusted peer ∧ ∀ d, dial = .dialing d → d.peer = peer
  | .redialing peer _, .redial r => RedialReady (trusted peer) r.phase
  | .session _ _, .none | .lost _ _, .none | .stopped, .none => True
  | _, _ => False

structure Inv (asked trusted : DeviceId → Prop) (s : Serving) : Prop where
  loop : LoopInv asked s.loop
  ready : Ready trusted s.loop s.loop.phase s.future
  bulk : s.bulk.map (·.peerId) = match s.loop.phase with
    | .session peer _ => some peer
    | _ => none

def OutOfSession (s : Serving) : Prop := ∀ peer canControl, s.loop.phase ≠ .session peer canControl

/-- How a session of the loop begins. -/
structure Begins {Settings : Type} (C : Crypto) (trusted : DeviceId → Prop) (s : Serving)
    (event : ServingEvent Settings) (peer : DeviceId) (canControl : Bool) : Prop where
  trusted : trusted peer
  /-- A peer that the daemon controls has answered a dial. -/
  dialed : canControl = true → ∃ leaf sessionId reason,
    event = .dialed (.ok (leaf, sessionId)) reason ∧ C.deviceIdFromCert leaf = .ok peer
  /-- A peer that controls the daemon was accepted while no other was pursued. -/
  accepted : canControl = false → s.loop.sourceIntent = none ∧ ∃ step sessionId,
    event = .inbound step sessionId ∧ s.flow.result step = some (.ok peer)

section

variable {asked trusted : DeviceId → Prop} {s : Serving}

theorem Ready.mono {trusted' : DeviceId → Prop} {loop : ServeLoop} {phase : LoopPhase}
    {future : ServeFuture} (h : Ready trusted loop phase future)
    (hle : ∀ p, trusted p → trusted' p) : Ready trusted' loop phase future := by
  unfold Ready at h ⊢
  split at h
  · exact fun d hd => (h d hd).imp_left (hle d.peer)
  · exact h.imp_left (hle _)
  · exact RedialReady.mono h (hle _)
  all_goals exact h

theorem Inv.mono {trusted' : DeviceId → Prop} (h : Inv asked trusted s)
    (hle : ∀ p, trusted p → trusted' p) : Inv asked trusted' s :=
  ⟨h.loop, h.ready.mono hle, h.bulk⟩

@[simp] theorem settle_loop (s : Serving) : s.settle.loop = s.loop := rfl
@[simp] theorem settle_future (s : Serving) : s.settle.future = s.future := rfl
@[simp] theorem settle_bulk (s : Serving) : s.settle.bulk = s.bulk := rfl
@[simp] theorem reselect_loop (s : Serving) (n : UInt32) : (s.reselect n).loop = s.loop := rfl
@[simp] theorem reselect_future (s : Serving) (n : UInt32) :
    (s.reselect n).future = .select n .scanning := rfl
@[simp] theorem reselect_bulk (s : Serving) (n : UInt32) : (s.reselect n).bulk = s.bulk := rfl

@[simp] theorem enter_loop (s : Serving) (loop : ServeLoop) : (s.enter loop).loop = loop := by
  unfold enter
  split <;> rfl

@[simp] theorem enter_bulk (s : Serving) (loop : ServeLoop) : (s.enter loop).bulk = none := by
  unfold enter
  split <;> rfl

@[simp] theorem follow_loop (s : Serving) (loop : ServeLoop) : (s.follow loop).loop = loop := by
  unfold follow
  split
  · rfl
  · exact enter_loop s loop

@[simp] theorem settle_trusted (s : Serving) : s.settle.flow.trusted = s.flow.trusted := by
  unfold settle
  dsimp only
  split
  · rw [PairingFlow.step]
    split <;> rfl
  · unfold PairingFlow.drop
    split <;> rfl

@[simp] theorem reselect_trusted (s : Serving) (n : UInt32) :
    (s.reselect n).flow.trusted = s.flow.trusted := by
  rw [reselect, settle_trusted]
  unfold PairingFlow.drop
  split <;> rfl

@[simp] theorem enter_trusted (s : Serving) (loop : ServeLoop) :
    (s.enter loop).flow.trusted = s.flow.trusted := by
  unfold enter
  split
  · exact reselect_trusted _ 0
  all_goals exact settle_trusted _

@[simp] theorem follow_trusted (s : Serving) (loop : ServeLoop) :
    (s.follow loop).flow.trusted = s.flow.trusted := by
  unfold follow
  split
  · rfl
  · exact enter_trusted s loop

@[simp] theorem join_trusted (s : Serving) (loop : ServeLoop) (sessionId : UInt64) :
    (s.join loop sessionId).flow.trusted = s.flow.trusted := by
  unfold join
  split
  · exact enter_trusted s loop
  · rfl

theorem inv_reselect (hloop : LoopInv asked s.loop) (hphase : s.loop.phase = .waiting)
    (hbulk : s.bulk = none) (n : UInt32) : Inv asked trusted (s.reselect n) := by
  refine ⟨hloop, ?_, ?_⟩
  · rw [reselect_loop, hphase, reselect_future]
    exact nofun
  · rw [reselect_bulk, reselect_loop, hbulk, hphase]
    rfl

/-- The loop is in no session, and not in the dial of a Connect. -/
def Elsewhere : LoopPhase → Prop
  | .session _ _ | .dialing _ => False
  | .waiting | .redialing _ _ | .lost _ _ | .stopped => True

theorem inv_enter {loop : ServeLoop} (hloop : LoopInv asked loop) (hphase : Elsewhere loop.phase) :
    Inv asked trusted (s.enter loop) := by
  refine ⟨(enter_loop s loop).symm ▸ hloop, ?_, ?_⟩
  · rw [enter_loop]
    unfold enter
    cases hcase : loop.phase with
    | waiting => exact nofun
    | redialing peer acceptInbound => trivial
    | lost peer canControl => trivial
    | stopped => trivial
    | session peer canControl => exact (hcase ▸ hphase).elim
    | dialing peer => exact (hcase ▸ hphase).elim
  · rw [enter_loop, enter_bulk]
    cases hcase : loop.phase with
    | session peer canControl => exact (hcase ▸ hphase).elim
    | _ => rfl

theorem join_loop {loop : ServeLoop} {peer : DeviceId} {canControl : Bool}
    (hphase : loop.phase = .session peer canControl) (sessionId : UInt64) :
    (s.join loop sessionId).loop = loop := by
  rw [join, hphase]
  exact enter_loop s loop

theorem inv_join {loop : ServeLoop} (hloop : LoopInv asked loop) {peer : DeviceId}
    {canControl : Bool} (hphase : loop.phase = .session peer canControl) (sessionId : UInt64) :
    Inv asked trusted (s.join loop sessionId) := by
  refine ⟨?_, ?_, ?_⟩
  · rw [join_loop hphase]
    exact hloop
  · rw [join_loop hphase, hphase, join, hphase]
    unfold enter
    rw [hphase]
    trivial
  · rw [join_loop hphase, hphase, join, hphase]
    rfl

/-- The loop waits in the select of `next_connection` in no other phase. -/
theorem Inv.waiting (h : Inv asked trusted s) {n : UInt32} {dial : AutoDial}
    (hfuture : s.future = .select n dial) : s.loop.phase = .waiting := by
  have hready := h.ready
  rw [hfuture] at hready
  cases hphase : s.loop.phase with
  | waiting => rfl
  | _ =>
    rw [hphase] at hready
    exact hready.elim

theorem Inv.autoDialing (h : Inv asked trusted s) {n : UInt32} {d : CandidateDial}
    (hfuture : s.future = .select n (.dialing d)) : trusted d.peer ∧
      (s.loop.role = .source ∨ s.loop.role = .auto ∧ s.loop.id < d.peer) := by
  have hready := h.ready
  rw [h.waiting hfuture, hfuture] at hready
  exact hready d rfl

theorem Inv.dialing (h : Inv asked trusted s) {n : UInt32} {dial : RequestedDial}
    (hfuture : s.future = .request n dial) : ∃ peer, s.loop.phase = .dialing peer ∧ trusted peer ∧
      ∀ d, dial = .dialing d → d.peer = peer := by
  have hready := h.ready
  rw [hfuture] at hready
  cases hphase : s.loop.phase with
  | dialing peer =>
    rw [hphase] at hready
    exact ⟨peer, rfl, hready⟩
  | _ =>
    rw [hphase] at hready
    exact hready.elim

theorem Inv.redialing (h : Inv asked trusted s) {r : Redial} (hfuture : s.future = .redial r) :
    ∃ peer acceptInbound, s.loop.phase = .redialing peer acceptInbound := by
  have hready := h.ready
  rw [hfuture] at hready
  cases hphase : s.loop.phase with
  | redialing peer acceptInbound => exact ⟨peer, acceptInbound, rfl⟩
  | _ =>
    rw [hphase] at hready
    exact hready.elim

theorem Inv.bulk_eq_none (h : Inv asked trusted s)
    (hphase : ∀ p c, s.loop.phase ≠ .session p c) : s.bulk = none := by
  have hbulk := h.bulk
  split at hbulk
  · next hsession => exact absurd hsession (hphase _ _)
  · exact Option.map_eq_none_iff.1 hbulk

/-- A peer that the store is said to trust is in it. -/
theorem mem_of_trusts {failure : Option String} {peer : DeviceId}
    (h : s.trusts failure peer = .ok true) : peer ∈ s.flow.trusted := by
  unfold trusts at h
  split at h
  · cases h
  · exact of_decide_eq_true (Except.ok.inj h)

theorem inv_boot (id : DeviceId) (role : ServeRole) (store : Finset DeviceId) :
    Inv asked trusted (boot id role store) :=
  ⟨⟨nofun, nofun, nofun, nofun, nofun, nofun⟩, nofun, rfl⟩

/-- In a session nothing is known of a peer that would be dialed. -/
theorem Inv.outOfSession (h : Inv asked trusted s) :
    Inv asked (fun p => OutOfSession s ∧ trusted p) s := by
  refine ⟨h.loop, ?_, h.bulk⟩
  cases hphase : s.loop.phase with
  | session peer canControl =>
    have hready := h.ready
    rw [hphase] at hready
    cases hfuture : s.future with
    | none => trivial
    | _ =>
      rw [hfuture] at hready
      exact hready.elim
  | _ =>
    have hout : OutOfSession s := by simp [OutOfSession, hphase]
    exact hphase ▸ h.ready.mono fun p hp => ⟨hout, hp⟩

/-! ### What `accept_trusted` returns -/

/-- A connection that is returned on a decision is of the peer of the prompt, which is trusted
then. -/
theorem mem_of_returned_onDecide {flow : PairingFlow} {writable : Bool} {conn c : InboundConn}
    {peer : DeviceId} (hphase : flow.phase = .prompting conn peer)
    (h : .returned c ∈ (flow.onDecide writable).2) : peer ∈ (flow.onDecide writable).1.trusted := by
  unfold PairingFlow.onDecide at h ⊢
  rw [hphase] at h ⊢
  cases hqueue : flow.decisions with
  | nil => simp [hqueue] at h
  | cons d rest =>
    obtain ⟨id, approved⟩ := d
    rw [hqueue] at h
    by_cases hid : id = formatDeviceId peer <;> cases approved <;> cases writable <;>
      simp_all

/-- The peer of a connection that is returned is in the store before the step, or after it. -/
theorem mem_of_result {flow : PairingFlow} {ev : PairingEvent} {peer : DeviceId}
    (h : flow.result ev = some (.ok peer)) :
    peer ∈ flow.trusted ∨ peer ∈ (flow.step ev).1.trusted := by
  unfold PairingFlow.result at h
  split at h
  · cases h
  · split at h
    · next hreturned =>
      obtain ⟨output, hmem, hout⟩ := List.any_eq_true.1 hreturned
      obtain ⟨c, rfl⟩ : ∃ c, output = .returned c := by
        cases output with
        | returned c => exact ⟨c, rfl⟩
        | _ => cases hout
      split at h
      · next p sas readable _ =>
        cases h
        cases PairingFlow.step_effect flow (.accept (some peer) sas readable) with
        | quiet _ _ _ _ hreturns =>
          obtain ⟨p, sas', haccept, hp⟩ := hreturns c hmem
          cases haccept
          exact .inl hp
        | published hev | queued hev | skipped hev | decided hev => cases hev
      · next ev _ _ conn p haccept hprompting _ =>
        cases h
        cases PairingFlow.step_effect flow ev with
        | quiet _ _ _ _ hreturns =>
          obtain ⟨p, sas, rfl, -⟩ := hreturns c hmem
          exact (haccept p sas true rfl).elim
        | published _ _ _ _ _ hout =>
          obtain ⟨prompt, hout⟩ := hout
          rw [hout] at hmem
          cases List.mem_singleton.1 hmem
        | queued _ _ _ _ hout | skipped _ _ _ _ hout =>
          rw [hout] at hmem
          cases hmem
        | decided hev hphase =>
          subst hev
          exact .inr (mem_of_returned_onDecide hprompting hmem)
      · cases h
    · cases h

/-! ### Where the loop goes -/

theorem elsewhere_loopTop (loop : ServeLoop) : Elsewhere loop.loopTop.phase := by
  unfold ServeLoop.loopTop
  split <;> trivial

theorem elsewhere_onRedialStopped (loop : ServeLoop) (acceptInbound : Bool) :
    Elsewhere (loop.onRedialStopped acceptInbound).phase := by
  unfold ServeLoop.onRedialStopped
  split <;> exact elsewhere_loopTop _

/-- A session takes a Connect by ending, or leaves it. -/
theorem elsewhere_takeConnect {loop : ServeLoop} (hphase : loop.phase ≠ .waiting) :
    loop.takeConnect.phase = loop.phase ∨ Elsewhere loop.takeConnect.phase := by
  unfold ServeLoop.takeConnect
  split
  · exact .inl rfl
  · split
    · next hwaiting => exact absurd hwaiting hphase
    · split
      · exact .inr (elsewhere_loopTop _)
      · exact .inl rfl
    all_goals exact .inl rfl

theorem elsewhere_takeDisconnect (loop : ServeLoop) :
    loop.takeDisconnect.1.phase = loop.phase ∨ Elsewhere loop.takeDisconnect.1.phase := by
  unfold ServeLoop.takeDisconnect
  split
  · exact .inl rfl
  · split
    · exact .inr (elsewhere_loopTop _)
    · exact .inr (elsewhere_onRedialStopped _ _)
    all_goals exact .inl rfl

theorem elsewhere_onCheckTrust (loop : ServeLoop) (answer : Except String Bool) :
    (loop.onCheckTrust answer).phase = loop.phase ∨ Elsewhere (loop.onCheckTrust answer).phase := by
  unfold ServeLoop.onCheckTrust
  split
  · exact .inr (elsewhere_onRedialStopped _ _)
  · exact .inr (elsewhere_onRedialStopped _ _)
  · exact .inl rfl

theorem elsewhere_onLost (loop : ServeLoop) (reason : String) :
    (loop.onLost reason).phase = loop.phase ∨ Elsewhere (loop.onLost reason).phase := by
  unfold ServeLoop.onLost
  split
  · exact .inr trivial
  all_goals exact .inl rfl

theorem elsewhere_onResume (loop : ServeLoop) :
    loop.onResume.phase = loop.phase ∨ Elsewhere loop.onResume.phase := by
  unfold ServeLoop.onResume
  split
  · split
    · exact .inr (elsewhere_loopTop _)
    · split
      · exact .inr (elsewhere_loopTop _)
      · exact .inr trivial
  all_goals exact .inl rfl

theorem elsewhere_onCtrlC (loop : ServeLoop) :
    loop.onCtrlC.phase = loop.phase ∨ Elsewhere loop.onCtrlC.phase := by
  unfold ServeLoop.onCtrlC
  split
  · exact .inr trivial
  · exact .inr trivial
  · exact .inr trivial
  all_goals exact .inl rfl

end

section

variable {Settings : Type} [ToUppercase]

theorem phase_onCommand (loop : ServeLoop) (live : DeviceId → Bool)
    (answer : DeviceId → Except String Bool) (reset : Bool) (c : Command Settings) :
    (loop.onCommand live answer reset c).phase = loop.phase := by
  cases c <;> dsimp only [ServeLoop.onCommand] <;> (repeat' split) <;> rfl

omit [ToUppercase] in
theorem phase_onOwnerUpdate (loop : ServeLoop) (ownerId : String) (epoch : UInt64) :
    (loop.onOwnerUpdate ownerId epoch).phase = loop.phase := by
  unfold ServeLoop.onOwnerUpdate
  split <;> rfl

/-- The id and the role of a daemon stay. -/
theorem device_step (loop : ServeLoop) (ev : ServeLoopEvent Settings) :
    (loop.step ev).1.id = loop.id ∧ (loop.step ev).1.role = loop.role := by
  cases ev with
  | command live answer reset c =>
    cases c <;> dsimp only [ServeLoop.step, ServeLoop.onCommand] <;> (repeat' split) <;>
      exact ⟨rfl, rfl⟩
  | _ =>
    dsimp only [ServeLoop.step, ServeLoop.takeConnect, ServeLoop.takeDisconnect, ServeLoop.onDialed,
      ServeLoop.onDialFailed, ServeLoop.onDiscovered, ServeLoop.onAccepted, ServeLoop.onCheckTrust,
      ServeLoop.onOwnerUpdate, ServeLoop.onLost, ServeLoop.onResume, ServeLoop.onCtrlC,
      ServeLoop.onSwitchSource, ServeLoop.onDisconnected, ServeLoop.onRedialStopped,
      ServeLoop.loopTop]
    (repeat' split) <;> exact ⟨rfl, rfl⟩

theorem device_exec (loop : ServeLoop) (evs : List (ServeLoopEvent Settings)) :
    ((ServeLoop.machine Settings).exec loop evs).id = loop.id ∧
      ((ServeLoop.machine Settings).exec loop evs).role = loop.role := by
  induction evs generalizing loop with
  | nil => exact ⟨rfl, rfl⟩
  | cons ev evs ih =>
    obtain ⟨hid, hrole⟩ := ih (loop.step ev).1
    exact ⟨hid.trans (device_step loop ev).1, hrole.trans (device_step loop ev).2⟩

end

end Serving

end Mouser
