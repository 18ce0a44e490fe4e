import Mouser.Engine.Wire

/-!
# What a call can do

`EngineCore.call_effect` says once what any call does to the part of the state that decides who
owns input and what may be injected: it leaves that part alone, hands input over, takes it back,
adopts or refuses a claim of the peer, settles the grant that waits for an ack, checks an input
frame against the guard, reports a failed injection, or flips a permission. Every invariant of the
core is proved from this inversion and not from the code of the calls.
-/

namespace Mouser

/-- The `(owner_epoch, ctr)` pair of an input frame on the control stream. -/
def ControlFrame.ctr? : ControlFrame → Option (UInt64 × UInt64)
  | .keyEvent (some k) => some (k.ownerEpoch, k.ctr)
  | .pointerButton (some b) => some (b.ownerEpoch, b.ctr)
  | .scroll (some w) => some (w.ownerEpoch, w.ctr)
  | _ => none

/-- The injection that an input frame asks for. -/
def ControlFrame.inject? : ControlFrame → Option Inject
  | .keyEvent (some k) => some (.key k.usage k.down k.mods)
  | .pointerButton (some b) => some (.button b.button b.down)
  | .scroll (some w) =>
    some (.scroll w.dx w.dy (match w.unit with
      | .detent120 => .detent120
      | _ => .logicalPixel))
  | _ => none

/-- The injections that come from the control stream. -/
def Inject.isReliable : Inject → Bool
  | .key .. | .button .. | .scroll .. => true
  | .moveCursor .. | .warpCursor .. => false

/-- The injections of the peer's input; the cursor warp is the core's own. -/
def Inject.ofPeer : Inject → Bool
  | .warpCursor .. => false
  | _ => true

theorem Inject.isReliable_of_inject? {f : ControlFrame} {i : Inject} (h : f.inject? = some i) :
    i.isReliable = true := by
  unfold ControlFrame.inject? at h
  split at h <;> cases h <;> rfl

theorem Inject.ofPeer_of_isReliable {i : Inject} (h : i.isReliable = true) : i.ofPeer = true := by
  cases i <;> first | rfl | cases h

/-- The injections among the actions of a call. -/
def injects (acts : List Action) : List Inject :=
  acts.filterMap fun
    | .inject i => some i
    | _ => none

theorem mem_injects {acts : List Action} {i : Inject} : i ∈ injects acts ↔ .inject i ∈ acts := by
  unfold injects
  rw [List.mem_filterMap]
  refine ⟨?_, ?_⟩
  · rintro ⟨a, ha, h⟩
    cases a with
    | inject j =>
      cases h
      exact ha
    | _ => cases h
  · intro h
    exact ⟨_, h, rfl⟩

/-- Actions that neither answer nor announce an ownership change and inject no input of the
peer. -/
def Action.isQuiet : Action → Bool
  | .sendControl (.keyEvent _) | .sendControl (.pointerButton _) | .sendControl (.scroll _)
  | .sendControl (.heartbeat _) | .sendControl (.pong _) => true
  | .sendMotion _ | .capture _ | .inject (.warpCursor ..) => true
  | _ => false

/-- The claim a call delivers. -/
def Call.transfer? : Call → Option OwnershipTransfer
  | .control (.ownershipTransfer payload) => payload
  | _ => none

/-- The answer a call delivers. -/
def Call.ack? : Call → Option OwnershipAck
  | .control (.ownershipAck payload) => payload
  | _ => none

namespace EngineCore

/-! ## The ownership changes, field by field -/

section fields

variable (s : EngineCore)

@[simp] theorem reclaimLocal_role : s.reclaimLocal.1.role = s.role := rfl
@[simp] theorem reclaimLocal_peer : s.reclaimLocal.1.peer = s.peer := rfl
@[simp] theorem reclaimLocal_layout : s.reclaimLocal.1.layout = s.layout := rfl
@[simp] theorem reclaimLocal_ownership : s.reclaimLocal.1.ownership = s.ownership.reclaim.1 := rfl
@[simp] theorem reclaimLocal_guard : s.reclaimLocal.1.guard = .default := rfl
@[simp] theorem reclaimLocal_heldKeys : s.reclaimLocal.1.heldKeys = ⟨∅⟩ := rfl
@[simp] theorem reclaimLocal_inputAuth : s.reclaimLocal.1.inputAuth = s.inputAuth.revokeEpoch := rfl
@[simp] theorem reclaimLocal_pendingAck : s.reclaimLocal.1.pendingAck = none := rfl

section

variable (o : Ownership) (owner : DeviceId) (epoch : UInt64)

/-- The core after it accepted a claim, apart from counters and the rate bucket. -/
theorem acceptTransfer_fields :
    (s.acceptTransfer o owner epoch).1.role = s.role ∧
      (s.acceptTransfer o owner epoch).1.peer = s.peer ∧
      (s.acceptTransfer o owner epoch).1.layout = s.layout ∧
      (s.acceptTransfer o owner epoch).1.ownership = o ∧
      (s.acceptTransfer o owner epoch).1.guard = .default ∧
      (s.acceptTransfer o owner epoch).1.heldKeys = ⟨∅⟩ ∧
      (s.acceptTransfer o owner epoch).1.pendingAck = none ∧
      (s.acceptTransfer o owner epoch).1.inputAuth =
        if owner = o.me then s.inputAuth.authorizeEpoch epoch else s.inputAuth.revokeEpoch := by
  by_cases h : owner = o.me <;> simp [acceptTransfer, h, me, resetOut, HeldKeys.clear]

@[simp] theorem acceptTransfer_role : (s.acceptTransfer o owner epoch).1.role = s.role :=
  (s.acceptTransfer_fields o owner epoch).1

@[simp] theorem acceptTransfer_peer : (s.acceptTransfer o owner epoch).1.peer = s.peer :=
  (s.acceptTransfer_fields o owner epoch).2.1

@[simp] theorem acceptTransfer_layout : (s.acceptTransfer o owner epoch).1.layout = s.layout :=
  (s.acceptTransfer_fields o owner epoch).2.2.1

@[simp] theorem acceptTransfer_ownership : (s.acceptTransfer o owner epoch).1.ownership = o :=
  (s.acceptTransfer_fields o owner epoch).2.2.2.1

@[simp] theorem acceptTransfer_guard : (s.acceptTransfer o owner epoch).1.guard = .default :=
  (s.acceptTransfer_fields o owner epoch).2.2.2.2.1

@[simp] theorem acceptTransfer_heldKeys : (s.acceptTransfer o owner epoch).1.heldKeys = ⟨∅⟩ :=
  (s.acceptTransfer_fields o owner epoch).2.2.2.2.2.1

@[simp] theorem acceptTransfer_pendingAck : (s.acceptTransfer o owner epoch).1.pendingAck = none :=
  (s.acceptTransfer_fields o owner epoch).2.2.2.2.2.2.1

/-- The actions of an accepted claim. -/
theorem acceptTransfer_actions :
    (s.acceptTransfer o owner epoch).2 =
      [ackFrame epoch true none, .setCursorVisible (owner = o.me), .ownerChanged owner epoch] ++
        if s.role = .source then
          [.setCaptureMode (if o.isOwner then .passiveEdge else .activeForward)]
        else [] := by
  by_cases h : owner = o.me <;> cases hr : s.role <;>
    simp [acceptTransfer, h, hr, me, resetOut, captureMode, isOwner]

theorem acceptTransfer_adopt_inputAuth (r : Bool) :
    (s.acceptTransfer (s.ownership.adopt owner epoch r).1 owner epoch).1.inputAuth =
      if owner = s.me then s.inputAuth.authorizeEpoch epoch else s.inputAuth.revokeEpoch :=
  (s.acceptTransfer_fields (s.ownership.adopt owner epoch r).1 owner epoch).2.2.2.2.2.2.2

end

/-- The core after it granted input to the peer at a crossing. -/
theorem crossToPeer_eq (h : s.isOwner = true) (x y : Int32) :
    s.crossToPeer x y =
      ({ s with
          outCtr := 0
          outSeq := 0
          ownership := (s.ownership.grantTo s.peer).1
          guard := .default
          heldKeys := s.heldKeys.clear
          inputAuth := s.inputAuth.revokeEpoch
          pendingAck := some (.new (s.epoch.saturatingAdd 1))
          peerX := (s.entryPoint x y).1
          peerY := (s.entryPoint x y).2
          reclaimArmed := false
          escapeTravel := 0 },
        [.setCaptureMode .activeForward,
         .sendControl (.ownershipTransfer (some
          { recipient := s.peer.bytes, ownerEpoch := s.epoch.saturatingAdd 1, layoutRev := 0,
            reason := .edgeCross })),
         .setCursorVisible false,
         .ownerChanged s.peer (s.epoch.saturatingAdd 1),
         .capture .suppress]) := by
  rw [crossToPeer, Ownership.grantTo_of_isOwner h]
  rfl

theorem grantTo_isOwner (h : s.isOwner = true) :
    (s.ownership.grantTo s.peer).1.isOwner = decide (s.peer = s.me) := by
  rw [Ownership.grantTo_of_isOwner h]
  rfl

theorem crossToPeer_isOwner (h : s.isOwner = true) (x y : Int32) :
    (s.crossToPeer x y).1.isOwner = decide (s.peer = s.me) := by
  rw [crossToPeer_eq s h]
  exact s.grantTo_isOwner h

/-- A failed injection on a device that does not own input. -/
theorem onInjectionFailed_of_not_isOwner (h : s.isOwner = false) :
    s.onInjectionFailed =
      ({ s with
          inputAuth := (s.inputAuth.setInputAllowed false).revokeEpoch
          heldKeys := s.heldKeys.clear
          ownership := s.ownership.markInputBlocked }, []) := by
  have h' : s.ownership.markInputBlocked.isOwner = false := h
  simp [onInjectionFailed, isOwner, h']

/-- A failed injection on the owner, which hands input to the peer. -/
theorem onInjectionFailed_of_isOwner (h : s.isOwner = true) :
    s.onInjectionFailed =
      ({ s with
          outCtr := 0
          outSeq := 0
          inputAuth := (s.inputAuth.setInputAllowed false).revokeEpoch
          heldKeys := s.heldKeys.clear
          guard := .default
          ownership := (s.ownership.grantTo s.peer).1 },
        [.sendControl (.ownershipTransfer (some
          { recipient := s.peer.bytes, ownerEpoch := s.epoch.saturatingAdd 1, layoutRev := 0,
            reason := .uiSelect })),
         .setCursorVisible false,
         .ownerChanged s.peer (s.epoch.saturatingAdd 1)]) := by
  have h' : s.ownership.markInputBlocked.isOwner = true := h
  have h'' : s.ownership.isOwner = true := h
  simp only [onInjectionFailed, isOwner, h', Bool.not_true, Bool.false_eq_true, if_false,
    Ownership.grantTo_of_isOwner h', Ownership.grantTo_of_isOwner h'']
  rfl

theorem onInjectionFailed_isOwner (h : s.isOwner = true) :
    s.onInjectionFailed.1.isOwner = decide (s.peer = s.me) := by
  rw [onInjectionFailed_of_isOwner s h]
  exact s.grantTo_isOwner h

/-- A failed injection ends the device's authorization. -/
theorem onInjectionFailed_acceptedEpoch :
    s.onInjectionFailed.1.inputAuth.acceptedEpoch = none := by
  cases h : s.isOwner with
  | false => rw [onInjectionFailed_of_not_isOwner s h]; rfl
  | true => rw [onInjectionFailed_of_isOwner s h]; rfl

theorem onInjectionFailed_pendingAck : s.onInjectionFailed.1.pendingAck = s.pendingAck := by
  cases h : s.isOwner with
  | false => rw [onInjectionFailed_of_not_isOwner s h]
  | true => rw [onInjectionFailed_of_isOwner s h]

end fields

/-! ## The effect of a call -/

/-- The epoch of the grant that waits for an ack. -/
def pendingEpoch (s : EngineCore) : Option UInt64 := s.pendingAck.map (·.epoch)

/-- `s'` has the ownership, the permissions and the waiting grant of `s`. -/
structure SameOwnership (s s' : EngineCore) : Prop where
  role : s'.role = s.role
  peer : s'.peer = s.peer
  layout : s'.layout = s.layout
  ownership : s'.ownership = s.ownership
  inputAuth : s'.inputAuth = s.inputAuth
  pendingEpoch : s'.pendingEpoch = s.pendingEpoch

/-- `s'` differs from `s` in cursor, counters and timers only. -/
structure SameHandoff (s s' : EngineCore) : Prop extends SameOwnership s s' where
  guard : s'.guard = s.guard
  heldKeys : s'.heldKeys = s.heldKeys

theorem SameOwnership.refl (s : EngineCore) : SameOwnership s s := ⟨rfl, rfl, rfl, rfl, rfl, rfl⟩

theorem SameHandoff.refl (s : EngineCore) : SameHandoff s s := ⟨.refl s, rfl, rfl⟩

theorem SameHandoff.trans {s t u : EngineCore} (h : SameHandoff s t) (h' : SameHandoff t u) :
    SameHandoff s u :=
  ⟨⟨h'.role.trans h.role, h'.peer.trans h.peer, h'.layout.trans h.layout,
    h'.ownership.trans h.ownership, h'.inputAuth.trans h.inputAuth,
    h'.pendingEpoch.trans h.pendingEpoch⟩, h'.guard.trans h.guard, h'.heldKeys.trans h.heldKeys⟩

/-- The crossing condition of `onCursor`. -/
def CrossesAt (s : EngineCore) (x y dx dy : Int32) : Prop :=
  s.crossOutArmed = true ∧ s.suppressBlocked = false ∧ s.crossesOut x y dx dy = true

/-- The call has no say in ownership: it is no failed injection, no claim that names a device, and
no answer to the grant that waits for one. -/
structure Ignores (s : EngineCore) (c : Call) : Prop where
  not_failed : c ≠ .runtime .injectionFailed
  transfer : ∀ t, c.transfer? = some t → toId t.recipient = none
  ack : ∀ a p, c.ack? = some a → s.pendingAck = some p → a.ownerEpoch ≠ p.epoch

/-- The effect of a call, in the terms of ownership and injection. -/
inductive Effect (s : EngineCore) : Call → EngineCore → List Action → Prop
  /-- Only cursor, counters and timers moved. -/
  | quiet {c s' acts} (hc : s.Ignores c) (hs : SameHandoff s s')
      (ha : ∀ a ∈ acts, a.isQuiet = true) : Effect s c s' acts
  /-- The cursor crossed out. -/
  | cross {d x y dx dy} (hrole : s.role = .source) (hown : s.isOwner = true)
      (hx : s.CrossesAt x y dx dy) :
      Effect s (.runtime (.localInput (.cursorMoved d x y dx dy)))
        (s.crossToPeer x y).1 (s.crossToPeer x y).2
  /-- Input was taken back, from a state `t` that differs from `s` in nothing that matters. -/
  | reclaim {c t} (pre post : List Action) (hc : c.transfer? = none) (ht : SameHandoff s t)
      (hwhy : (s.role = .source ∧ s.isOwner = false) ∨ s.pendingAck ≠ none)
      (hpre : ∀ a ∈ pre, a.isQuiet = true) (hpost : ∀ a ∈ post, a.isQuiet = true) :
      Effect s c t.reclaimLocal.1 (pre ++ t.reclaimLocal.2 ++ post)
  /-- A claim of the peer was adopted. -/
  | adopt {t owner} (hto : toId t.recipient = some owner)
      (hauth : owner = s.me → s.inputAuth.canAcceptGrant = true)
      (had : s.ownership.Adopts owner t.ownerEpoch (t.reason = .localReclaim)) :
      Effect s (.control (.ownershipTransfer (some t)))
        (s.acceptTransfer (s.ownership.adopt owner t.ownerEpoch (t.reason = .localReclaim)).1
          owner t.ownerEpoch).1
        (s.acceptTransfer (s.ownership.adopt owner t.ownerEpoch (t.reason = .localReclaim)).1
          owner t.ownerEpoch).2
  /-- A claim of the peer was refused. -/
  | refuse {t owner reason} (hto : toId t.recipient = some owner)
      (hwhy : (owner = s.me ∧ s.inputAuth.canAcceptGrant = false) ∨
        ¬ s.ownership.Adopts owner t.ownerEpoch (t.reason = .localReclaim)) :
      Effect s (.control (.ownershipTransfer (some t))) s
        [ackFrame t.ownerEpoch false (some reason)]
  /-- The waiting grant was acked. -/
  | settle {ack p s' acts} (hp : s.pendingAck = some p) (he : ack.ownerEpoch = p.epoch)
      (hacc : ack.accepted = true) (hs : SameHandoff { s with pendingAck := none } s')
      (ha : ∀ a ∈ acts, a.isQuiet = true) :
      Effect s (.control (.ownershipAck (some ack))) s' acts
  /-- An input frame went past the guard, and was injected or dropped. -/
  | inputCtr {f e ctr s' acts} (hf : f.ctr? = some (e, ctr)) (hs : SameOwnership s s')
      (hg : s'.guard = (s.guard.acceptCtr e ctr s.epoch).1)
      (hh : s'.heldKeys = s.heldKeys ∨ ∃ k, f = .keyEvent (some k))
      (ha : acts = [] ∨ ∃ i, acts = [.inject i] ∧ f.inject? = some i ∧
        (s.guard.acceptCtr e ctr s.epoch).2 = true ∧ s.authorizeInject e = true) :
      Effect s (.control f) s' acts
  /-- The same for a motion datagram. -/
  | inputSeq {m s' acts} (hs : SameOwnership s s')
      (hg : s'.guard = (s.guard.acceptSeq m.ownerEpoch m.seq s.epoch).1)
      (hh : s'.heldKeys = s.heldKeys)
      (ha : acts = [] ∨ acts = [.inject (.moveCursor m.displayId m.x m.y)] ∧
        (s.guard.acceptSeq m.ownerEpoch m.seq s.epoch).2 = true ∧
        s.authorizeInject m.ownerEpoch = true) :
      Effect s (.motion (.motion m)) s' acts
  /-- An injection failed. -/
  | failed : Effect s (.runtime .injectionFailed) s.onInjectionFailed.1 s.onInjectionFailed.2
  | trusted {b} : Effect s (.runtime (.setPeerTrusted b)) (s.setPeerTrusted b) []
  | allowed {b} : Effect s (.runtime (.setInputAllowed b)) (s.setInputAllowed b) []

/-- What is known when input of the peer is injected: the frame or the datagram went past the
guard and is authorized, and the call did nothing else. -/
inductive Injected (s : EngineCore) (i : Inject) : Call → EngineCore → Prop
  | reliable {f e ctr s'} (hf : f.ctr? = some (e, ctr)) (hi : i.isReliable = true)
      (hs : SameOwnership s s') (hg : s'.guard = (s.guard.acceptCtr e ctr s.epoch).1)
      (hacc : (s.guard.acceptCtr e ctr s.epoch).2 = true) (hauth : s.authorizeInject e = true) :
      Injected s i (.control f) s'
  | cursor {m s'} (hi : i = .moveCursor m.displayId m.x m.y)
      (hs : SameOwnership s s') (hg : s'.guard = (s.guard.acceptSeq m.ownerEpoch m.seq s.epoch).1)
      (hacc : (s.guard.acceptSeq m.ownerEpoch m.seq s.epoch).2 = true)
      (hauth : s.authorizeInject m.ownerEpoch = true) :
      Injected s i (.motion (.motion m)) s'

theorem acceptedEpoch_of_authorizeInject {s : EngineCore} {e : UInt64}
    (h : s.authorizeInject e = true) : s.inputAuth.acceptedEpoch = some e := by
  simp only [authorizeInject, InputAuth.allowsEpoch, Bool.and_eq_true, decide_eq_true_eq] at h
  exact h.2.2

theorem Inject.not_ofPeer_of_isQuiet {i : Inject} (h : (Action.inject i).isQuiet = true) :
    i.ofPeer = false := by
  cases i <;> first | rfl | cases h

/-- Input of the peer is injected in no other way. -/
theorem Effect.injected {s s' : EngineCore} {c : Call} {acts : List Action} {i : Inject}
    (h : Effect s c s' acts) (hi : .inject i ∈ acts) (hp : i.ofPeer = true) :
    acts = [.inject i] ∧ Injected s i c s' := by
  have hquiet : ∀ as : List Action, (∀ a ∈ as, a.isQuiet = true) → .inject i ∉ as := by
    intro as ha hm
    rw [Inject.not_ofPeer_of_isQuiet (ha _ hm)] at hp
    cases hp
  cases h with
  | quiet _ _ ha | settle _ _ _ _ ha => exact absurd hi (hquiet _ ha)
  | cross hrole hown =>
    rw [crossToPeer_eq s hown] at hi
    simp at hi
  | reclaim pre post hc ht hwhy hpre hpost =>
    rcases List.mem_append.1 hi with hi | hi
    · rcases List.mem_append.1 hi with hi | hi
      · exact absurd hi (hquiet _ hpre)
      · simp [reclaimLocal] at hi
    · exact absurd hi (hquiet _ hpost)
  | adopt =>
    rw [acceptTransfer_actions] at hi
    split at hi <;> simp [ackFrame] at hi
  | refuse => simp [ackFrame] at hi
  | inputCtr hf hs hg hh ha =>
    rcases ha with rfl | ⟨j, rfl, hj, hacc, hauth⟩
    · cases hi
    · cases List.mem_singleton.1 hi
      exact ⟨rfl, .reliable hf (Inject.isReliable_of_inject? hj) hs hg hacc hauth⟩
  | inputSeq hs hg hh ha =>
    rcases ha with rfl | ⟨rfl, hacc, hauth⟩
    · cases hi
    · cases List.mem_singleton.1 hi
      exact ⟨rfl, .cursor rfl hs hg hacc hauth⟩
  | failed =>
    cases hown : s.isOwner with
    | false =>
      rw [onInjectionFailed_of_not_isOwner s hown] at hi
      cases hi
    | true =>
      rw [onInjectionFailed_of_isOwner s hown] at hi
      simp at hi
  | trusted | allowed => cases hi

/-! ## Calls without a say -/

theorem ignores_localInput (s : EngineCore) (event : LocalInputEvent) :
    s.Ignores (.runtime (.localInput event)) :=
  ⟨by simp, by simp [Call.transfer?], by simp [Call.ack?]⟩

theorem ignores_tick (s : EngineCore) : s.Ignores (.runtime .tick) :=
  ⟨by simp, by simp [Call.transfer?], by simp [Call.ack?]⟩

theorem ignores_suppressUnavailable (s : EngineCore) : s.Ignores (.runtime .suppressUnavailable) :=
  ⟨by simp, by simp [Call.transfer?], by simp [Call.ack?]⟩

/-- A frame that carries neither a claim nor an answer. -/
theorem ignores_frame {s : EngineCore} {f : ControlFrame}
    (ht : (Call.control f).transfer? = none) (ha : (Call.control f).ack? = none) :
    s.Ignores (.control f) :=
  ⟨by simp, by simp [ht], by simp [ha]⟩

/-! ## Local input -/

/-- The handoff does not depend on where the peer's cursor is. -/
theorem SameHandoff.cursor (s : EngineCore) (x y : Int32) (armed : Bool) :
    SameHandoff s { s with peerX := x, peerY := y, reclaimArmed := armed } :=
  ⟨⟨rfl, rfl, rfl, rfl, rfl, rfl⟩, rfl, rfl⟩

theorem movePeerCursor_same (s : EngineCore) (dx dy : Int32) :
    SameHandoff s (s.movePeerCursor dx dy) := by
  unfold movePeerCursor
  dsimp only
  split
  · exact .cursor s _ _ true
  · exact .cursor s _ _ s.reclaimArmed

theorem entryEdgeWarp_isQuiet (s : EngineCore) : s.entryEdgeWarp.isQuiet = true := by
  unfold entryEdgeWarp
  split <;> rfl

/-- A reclaim that follows nothing but cursor moves. -/
theorem Effect.ofReclaim {s t : EngineCore} {c : Call} (hc : c.transfer? = none)
    (ht : SameHandoff s t) (hwhy : (s.role = .source ∧ s.isOwner = false) ∨ s.pendingAck ≠ none) :
    Effect s c t.reclaimLocal.1 t.reclaimLocal.2 := by
  have h := Effect.reclaim (c := c) [] [] hc ht hwhy (by simp) (by simp)
  rwa [List.nil_append, List.append_nil] at h

theorem forwardCursor_effect {s t : EngineCore} {event : LocalInputEvent} (dx dy : Int32)
    (ht : SameHandoff s t) (hrole : s.role = .source) (hown : s.isOwner = false) :
    Effect s (.runtime (.localInput event)) (t.forwardCursor dx dy).1
      (t.forwardCursor dx dy).2 := by
  unfold forwardCursor
  split
  · have h := Effect.reclaim (c := .runtime (.localInput event)) [] [t.entryEdgeWarp] rfl ht
      (.inl ⟨hrole, hown⟩) (by simp) (by simpa using t.entryEdgeWarp_isQuiet)
    rwa [List.nil_append] at h
  · exact .quiet (ignores_localInput _ _) (ht.trans ⟨⟨rfl, rfl, rfl, rfl, rfl, rfl⟩, rfl, rfl⟩)
      (by simp [Action.isQuiet])

theorem onCursor_effect (s : EngineCore) (d : UInt32) (x y dx dy : Int32)
    (hrole : s.role = .source) :
    Effect s (.runtime (.localInput (.cursorMoved d x y dx dy)))
      (s.onCursor x y dx dy s.isOwner).1 (s.onCursor x y dx dy s.isOwner).2 := by
  have hq : ∀ a ∈ [Action.capture .passThrough], a.isQuiet = true := by simp [Action.isQuiet]
  unfold onCursor
  dsimp only
  split
  · next hown =>
    split
    · exact .quiet (ignores_localInput _ _) ⟨⟨rfl, rfl, rfl, rfl, rfl, rfl⟩, rfl, rfl⟩ hq
    · split
      · next hx =>
        simp only [Bool.and_eq_true, Bool.not_eq_true'] at hx
        exact .cross hrole hown ⟨hx.1.1, hx.1.2, hx.2⟩
      · exact .quiet (ignores_localInput _ _) (.refl s) hq
  · next hown =>
    have hown : s.isOwner = false := Bool.eq_false_iff.2 hown
    split
    · exact .ofReclaim rfl (.refl s) (.inl ⟨hrole, hown⟩)
    · split
      · exact .ofReclaim rfl ⟨⟨rfl, rfl, rfl, rfl, rfl, rfl⟩, rfl, rfl⟩ (.inl ⟨hrole, hown⟩)
      · have ht : SameHandoff s
            { s with escapeTravel := max (s.escapeTravel + s.homewardDelta dx dy) 0 } :=
          ⟨⟨rfl, rfl, rfl, rfl, rfl, rfl⟩, rfl, rfl⟩
        exact forwardCursor_effect dx dy (ht.trans (movePeerCursor_same _ dx dy)) hrole hown

theorem onLocalInput_effect (s : EngineCore) (event : LocalInputEvent) :
    Effect s (.runtime (.localInput event)) (s.onLocalInput event).1 (s.onLocalInput event).2 := by
  unfold onLocalInput
  dsimp only
  split
  · exact .quiet (ignores_localInput _ _) (.refl s) (by simp [Action.isQuiet])
  · next hrole =>
    have hrole : s.role = .source := not_not.1 hrole
    cases event with
    | cursorMoved d x y dx dy => exact onCursor_effect s d x y dx dy hrole
    | button | key | scroll =>
      dsimp only
      split
      · exact .quiet (ignores_localInput _ _) (.refl s) (by simp [Action.isQuiet])
      · exact .quiet (ignores_localInput _ _) ⟨⟨rfl, rfl, rfl, rfl, rfl, rfl⟩, rfl, rfl⟩
          (by simp [Action.isQuiet])

/-! ## The heartbeat and the suppression report -/

theorem tickMisses_effect {s t : EngineCore} {acts : List Action}
    (ht : SameHandoff s t) (ha : ∀ a ∈ acts, a.isQuiet = true) :
    Effect s (.runtime .tick) (t.tickMisses acts).1 (t.tickMisses acts).2 := by
  unfold tickMisses
  dsimp only
  split
  · next h =>
    have hown : s.isOwner = false := by
      have h2 := h.2.1
      simp only [Bool.not_eq_true', isOwner, ht.ownership] at h2
      exact h2
    have h := Effect.reclaim (c := .runtime .tick) acts []
      (t := { t with misses := t.misses.saturatingAdd 1 }) rfl
      (ht.trans ⟨⟨rfl, rfl, rfl, rfl, rfl, rfl⟩, rfl, rfl⟩)
      (.inl ⟨ht.role ▸ h.1, hown⟩) ha (by simp)
    rwa [List.append_nil] at h
  · exact .quiet (ignores_tick s) (ht.trans ⟨⟨rfl, rfl, rfl, rfl, rfl, rfl⟩, rfl, rfl⟩) ha

theorem onTick_effect (s : EngineCore) : Effect s (.runtime .tick) s.onTick.1 s.onTick.2 := by
  have hq : ∀ a ∈ [Action.sendControl (.heartbeat (some ⟨s.hbSeq.saturatingAdd 1⟩))],
      a.isQuiet = true := by simp [Action.isQuiet]
  unfold onTick
  dsimp only
  split
  · next p hp =>
    split
    · have h := Effect.reclaim (s := s) (c := .runtime .tick)
        [.sendControl (.heartbeat (some ⟨s.hbSeq.saturatingAdd 1⟩))] []
        (t := { s with
          hbSeq := s.hbSeq.saturatingAdd 1
          inputRate := s.inputRate.refill }) rfl
        ⟨⟨rfl, rfl, rfl, rfl, rfl, rfl⟩, rfl, rfl⟩ (.inr (by simp [hp])) hq (by simp)
      rw [List.append_nil] at h
      exact h
    · refine tickMisses_effect ⟨⟨rfl, rfl, rfl, rfl, rfl, ?_⟩, rfl, rfl⟩ hq
      simp [pendingEpoch, hp]
  · exact tickMisses_effect ⟨⟨rfl, rfl, rfl, rfl, rfl, rfl⟩, rfl, rfl⟩ hq

theorem onSuppressUnavailable_effect (s : EngineCore) :
    Effect s (.runtime .suppressUnavailable) s.onSuppressUnavailable.1
      s.onSuppressUnavailable.2 := by
  unfold onSuppressUnavailable
  dsimp only
  split
  · exact .quiet (ignores_suppressUnavailable s) (.refl s) (by simp)
  · next hrole =>
    split
    · exact .quiet (ignores_suppressUnavailable s) ⟨⟨rfl, rfl, rfl, rfl, rfl, rfl⟩, rfl, rfl⟩
        (by simp)
    · next hown =>
      exact .ofReclaim rfl ⟨⟨rfl, rfl, rfl, rfl, rfl, rfl⟩, rfl, rfl⟩
        (.inl ⟨not_not.1 hrole, Bool.eq_false_iff.2 hown⟩)

/-! ## Frames of the peer -/

/-- A claim of the peer that is permitted and wins is adopted. -/
theorem onTransfer_of_adopts {s : EngineCore} {t : OwnershipTransfer} {owner : DeviceId}
    (hto : toId t.recipient = some owner)
    (hauth : owner = s.me → s.inputAuth.canAcceptGrant = true)
    (had : s.ownership.Adopts owner t.ownerEpoch (t.reason = .localReclaim)) :
    s.onTransfer (some t) =
      s.acceptTransfer (s.ownership.adopt owner t.ownerEpoch (t.reason = .localReclaim)).1
        owner t.ownerEpoch := by
  have hperm : ¬ (owner = s.me ∧ (!s.inputAuth.canAcceptGrant) = true) := by
    rintro ⟨ho, hc⟩
    rw [hauth ho] at hc
    cases hc
  simp only [onTransfer, hto, if_neg hperm, Ownership.observeWithReason]
  rcases s.ownership.observe_cases owner t.ownerEpoch (t.reason = .localReclaim) with
    ⟨-, heq⟩ | ⟨hnot, -⟩
  · rw [heq]
    rfl
  · exact absurd had hnot

/-- The outcomes of a transfer frame. -/
inductive TransferStep (s : EngineCore) :
    Option OwnershipTransfer → EngineCore × List Action → Prop where
  | unread {payload} (h : ∀ t, payload = some t → toId t.recipient = none) :
    TransferStep s payload (s, [])
  | refused {t owner} (reason : String) (hto : toId t.recipient = some owner)
    (hwhy : (owner = s.me ∧ s.inputAuth.canAcceptGrant = false) ∨
      ¬ s.ownership.Adopts owner t.ownerEpoch (t.reason = .localReclaim)) :
    TransferStep s (some t) (s, [ackFrame t.ownerEpoch false (some reason)])
  | adopted {t owner} (hto : toId t.recipient = some owner)
    (hauth : owner = s.me → s.inputAuth.canAcceptGrant = true)
    (had : s.ownership.Adopts owner t.ownerEpoch (t.reason = .localReclaim)) :
    TransferStep s (some t)
      (s.acceptTransfer (s.ownership.adopt owner t.ownerEpoch (t.reason = .localReclaim)).1
        owner t.ownerEpoch)

theorem onTransfer_cases (s : EngineCore) (payload : Option OwnershipTransfer) :
    TransferStep s payload (s.onTransfer payload) := by
  cases payload with
  | none => exact .unread nofun
  | some t =>
    cases hto : toId t.recipient with
    | none =>
      simp only [onTransfer, hto]
      refine .unread ?_
      rintro _ ⟨⟩
      exact hto
    | some owner =>
      by_cases hperm : owner = s.me ∧ (!s.inputAuth.canAcceptGrant) = true
      · simp only [onTransfer, hto, if_pos hperm]
        exact .refused _ hto (.inl ⟨hperm.1, by simpa using hperm.2⟩)
      have hauth : owner = s.me → s.inputAuth.canAcceptGrant = true := by
        intro ho
        by_contra hc
        exact hperm ⟨ho, by simpa using hc⟩
      rcases s.ownership.observe_cases owner t.ownerEpoch (t.reason = .localReclaim) with
        ⟨had, -⟩ | ⟨hnot, r, heq⟩
      · rw [onTransfer_of_adopts hto hauth had]
        exact .adopted hto hauth had
      · simp only [onTransfer, hto, if_neg hperm, Ownership.observeWithReason, heq]
        exact .refused _ hto (.inr hnot)

theorem onTransfer_effect (s : EngineCore) (payload : Option OwnershipTransfer) :
    Effect s (.control (.ownershipTransfer payload)) (s.onTransfer payload).1
      (s.onTransfer payload).2 := by
  have hcases := s.onTransfer_cases payload
  generalize s.onTransfer payload = result at hcases
  cases hcases with
  | unread h => exact .quiet ⟨by simp, h, by simp [Call.ack?]⟩ (.refl s) (by simp)
  | refused _ hto hwhy => exact .refuse hto hwhy
  | adopted hto hauth had => exact .adopt hto hauth had

theorem onOwnershipAck_effect (s : EngineCore) (payload : Option OwnershipAck) :
    Effect s (.control (.ownershipAck payload)) (s.onOwnershipAck payload).1
      (s.onOwnershipAck payload).2 := by
  cases payload with
  | none => exact .quiet (ignores_frame rfl rfl) (.refl s) (by simp [onOwnershipAck])
  | some ack =>
    simp only [onOwnershipAck]
    split
    · next hp =>
      refine .quiet ⟨by simp, by simp [Call.transfer?], fun a p _ hp' => ?_⟩ (.refl s) (by simp)
      rw [hp] at hp'
      cases hp'
    · next p hp =>
      split
      · next he =>
        refine .quiet ⟨by simp, by simp [Call.transfer?], ?_⟩ (.refl s) (by simp)
        intro a q ha hq
        cases ha
        rw [hp] at hq
        cases hq
        exact he
      · next he =>
        split
        -- clearing the waiting grant first makes no difference, the reclaim clears it too
        · exact Effect.ofReclaim (t := s) rfl (.refl s) (.inr (by simp [hp]))
        · next hacc =>
          exact .settle hp (not_not.1 he) (by simpa using hacc)
            ⟨⟨rfl, rfl, rfl, rfl, rfl, rfl⟩, rfl, rfl⟩ (by simp [Action.isQuiet])

/-- Input is dropped unless it is fresh and authorized. -/
theorem not_dropped_iff {fresh authorized : Bool} :
    ¬ (!fresh || !authorized) = true ↔ fresh = true ∧ authorized = true := by
  cases fresh <;> cases authorized <;> decide

theorem onKey_effect (s : EngineCore) (payload : Option KeyEvent) :
    Effect s (.control (.keyEvent payload)) (s.onKey payload).1 (s.onKey payload).2 := by
  cases payload with
  | none => exact .quiet (ignores_frame rfl rfl) (.refl s) (by simp [onKey])
  | some k =>
    refine .inputCtr rfl ?_ ?_ (.inr ⟨k, rfl⟩) ?_ <;> simp only [onKey]
    · split
      · exact ⟨rfl, rfl, rfl, rfl, rfl, rfl⟩
      · split <;> exact ⟨rfl, rfl, rfl, rfl, rfl, rfl⟩
    · split
      · rfl
      · split <;> rfl
    · split
      · exact .inl rfl
      · next h =>
        obtain ⟨hfresh, hauth⟩ := not_dropped_iff.1 h
        split
        · exact .inl rfl
        · exact .inr ⟨_, rfl, rfl, hfresh, hauth⟩

theorem onButton_effect (s : EngineCore) (payload : Option PointerButton) :
    Effect s (.control (.pointerButton payload)) (s.onButton payload).1
      (s.onButton payload).2 := by
  cases payload with
  | none => exact .quiet (ignores_frame rfl rfl) (.refl s) (by simp [onButton])
  | some b =>
    refine .inputCtr rfl ?_ ?_ (.inl ?_) ?_ <;> simp only [onButton]
    · split <;> exact ⟨rfl, rfl, rfl, rfl, rfl, rfl⟩
    · split <;> rfl
    · split <;> rfl
    · split
      · exact .inl rfl
      · next h =>
        obtain ⟨hfresh, hauth⟩ := not_dropped_iff.1 h
        exact .inr ⟨_, rfl, rfl, hfresh, hauth⟩

theorem onScroll_effect (s : EngineCore) (payload : Option Scroll) :
    Effect s (.control (.scroll payload)) (s.onScroll payload).1 (s.onScroll payload).2 := by
  cases payload with
  | none => exact .quiet (ignores_frame rfl rfl) (.refl s) (by simp [onScroll])
  | some w =>
    refine .inputCtr rfl ?_ ?_ (.inl ?_) ?_ <;> simp only [onScroll]
    · split
      · exact ⟨rfl, rfl, rfl, rfl, rfl, rfl⟩
      · split <;> exact ⟨rfl, rfl, rfl, rfl, rfl, rfl⟩
    · split
      · rfl
      · split <;> rfl
    · split
      · rfl
      · split <;> rfl
    · split
      · exact .inl rfl
      · next h =>
        obtain ⟨hfresh, hauth⟩ := not_dropped_iff.1 h
        split
        · exact .inl rfl
        · exact .inr ⟨_, rfl, rfl, hfresh, hauth⟩

theorem onControl_effect (s : EngineCore) (f : ControlFrame) :
    Effect s (.control f) (s.onControl f).1 (s.onControl f).2 := by
  cases f with
  | ownershipTransfer p => exact onTransfer_effect s p
  | ownershipAck p => exact onOwnershipAck_effect s p
  | keyEvent p => exact onKey_effect s p
  | pointerButton p => exact onButton_effect s p
  | scroll p => exact onScroll_effect s p
  | ping p =>
    cases p <;> exact .quiet (ignores_frame rfl rfl) ⟨⟨rfl, rfl, rfl, rfl, rfl, rfl⟩, rfl, rfl⟩
      (by simp [onControl, onPing, Action.isQuiet])
  | pong | heartbeat =>
    exact .quiet (ignores_frame rfl rfl) ⟨⟨rfl, rfl, rfl, rfl, rfl, rfl⟩, rfl, rfl⟩
      (by simp [onControl])
  | goodbye p =>
    simp only [onControl, onGoodbye]
    split
    · next h =>
      simp only [Bool.not_eq_true'] at h
      exact .ofReclaim rfl (.refl s) (.inl h)
    · exact .quiet (ignores_frame rfl rfl) (.refl s) (by simp)
  | other => exact .quiet (ignores_frame rfl rfl) (.refl s) (by simp [onControl])

theorem onMotion_effect (s : EngineCore) (d : Datagram) :
    Effect s (.motion d) (s.onMotion d).1 (s.onMotion d).2 := by
  cases d with
  | motion m =>
    refine .inputSeq ?_ ?_ ?_ ?_ <;> simp only [onMotion]
    · split <;> exact ⟨rfl, rfl, rfl, rfl, rfl, rfl⟩
    · split <;> rfl
    · split <;> rfl
    · split
      · exact .inl rfl
      · next h =>
        obtain ⟨hfresh, hauth⟩ := not_dropped_iff.1 h
        exact .inr ⟨rfl, hfresh, hauth⟩
  | motionRel | unknown =>
    exact .quiet ⟨by simp, by simp [Call.transfer?], by simp [Call.ack?]⟩ (.refl s)
      (by simp [onMotion])

/-- **What a call can do.** Every call has one of the effects above. -/
theorem call_effect (s : EngineCore) (c : Call) : Effect s c (s.call c).1 (s.call c).2 := by
  match c with
  | .runtime (.localInput event) => exact onLocalInput_effect s event
  | .runtime .tick => exact onTick_effect s
  | .runtime .suppressUnavailable => exact onSuppressUnavailable_effect s
  | .runtime .injectionFailed => exact .failed
  | .runtime (.setPeerTrusted b) => exact .trusted
  | .runtime (.setInputAllowed b) => exact .allowed
  | .control f => exact onControl_effect s f
  | .motion d => exact onMotion_effect s d

/-! ## What no call changes -/

/-- The fields of a core that are fixed when it is built. -/
structure SameDevice (s s' : EngineCore) : Prop where
  role : s'.role = s.role
  peer : s'.peer = s.peer
  layout : s'.layout = s.layout
  me : s'.me = s.me

theorem device_refl (s : EngineCore) : SameDevice s s := ⟨rfl, rfl, rfl, rfl⟩

theorem SameDevice.trans {s t u : EngineCore} (h : SameDevice s t) (h' : SameDevice t u) :
    SameDevice s u :=
  ⟨h'.role.trans h.role, h'.peer.trans h.peer, h'.layout.trans h.layout, h'.me.trans h.me⟩

theorem SameOwnership.device {s s' : EngineCore} (h : SameOwnership s s') : SameDevice s s' :=
  ⟨h.role, h.peer, h.layout, congrArg Ownership.me h.ownership⟩

theorem Effect.device {s s' : EngineCore} {c : Call} {acts : List Action}
    (h : Effect s c s' acts) : SameDevice s s' := by
  cases h with
  | quiet hc hs => exact hs.device
  | cross hrole hown =>
    rw [crossToPeer_eq s hown, Ownership.grantTo_of_isOwner hown]
    exact ⟨rfl, rfl, rfl, rfl⟩
  | reclaim pre post hc ht => exact ⟨ht.role, ht.peer, ht.layout, ht.device.me⟩
  | adopt =>
    refine ⟨by simp, by simp, by simp, ?_⟩
    rw [me, acceptTransfer_ownership]
    rfl
  | refuse => exact ⟨rfl, rfl, rfl, rfl⟩
  | settle hp he hacc hs => exact ⟨hs.role, hs.peer, hs.layout, hs.device.me⟩
  | inputCtr hf hs => exact hs.device
  | inputSeq hs => exact hs.device
  | failed =>
    cases hown : s.isOwner with
    | false =>
      rw [onInjectionFailed_of_not_isOwner s hown]
      exact ⟨rfl, rfl, rfl, rfl⟩
    | true =>
      rw [onInjectionFailed_of_isOwner s hown, Ownership.grantTo_of_isOwner hown]
      exact ⟨rfl, rfl, rfl, rfl⟩
  | trusted | allowed => exact ⟨rfl, rfl, rfl, rfl⟩

/-- No call changes the role, the peer, the layout or the device's own id. -/
theorem call_device (s : EngineCore) (c : Call) : SameDevice s (s.call c).1 :=
  (s.call_effect c).device

end EngineCore

end Mouser
