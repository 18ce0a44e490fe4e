import Mouser.Engine.Cursor

/-!
# What a call does to the latches

Next to the owner and the epoch the core keeps a few values that decide when input changes hands:
the two flags that arm an edge, the travel home, the grant that waits for an ack and the heartbeats
that were missed. `Turn` says once what every call does to all of them, and `call_turn` reads it off
the code; what holds of these values along a run is proved from it.
-/

namespace Mouser

/-- The values of the core that decide when input changes hands. -/
structure Latches where
  owner : DeviceId
  epoch : UInt64
  crossOutArmed : Bool
  reclaimArmed : Bool
  escapeTravel : Int32
  pendingAck : Option PendingAck
  misses : UInt32

/-- A frame that shows that the peer is alive. -/
def Call.isAlive : Call → Bool
  | .control (.ping _) | .control (.pong _) | .control (.heartbeat _) => true
  | _ => false

def Call.isTick : Call → Bool
  | .runtime .tick => true
  | _ => false

def PendingAck.tick (p : PendingAck) : PendingAck :=
  { p with ticksLeft := p.ticksLeft.saturatingSub 1 }

/-- What taking input back makes of the latches. -/
def Latches.reclaimed (l : Latches) (me : DeviceId) : Latches :=
  { l with
    owner := me
    epoch := l.epoch.saturatingAdd 1
    crossOutArmed := false
    reclaimArmed := true
    pendingAck := none }

namespace EngineCore

def latches (s : EngineCore) : Latches :=
  { owner := s.owner
    epoch := s.epoch
    crossOutArmed := s.crossOutArmed
    reclaimArmed := s.reclaimArmed
    escapeTravel := s.escapeTravel
    pendingAck := s.pendingAck
    misses := s.misses }

/-- The call counts no heartbeat and moves no peer cursor. -/
def Idles (s : EngineCore) (c : Call) : Prop :=
  c ≠ .runtime .tick ∧ (s.role = .source → c.isCursor = true → s.isOwner = true)

/-- A call that is neither a tick nor a cursor move. -/
theorem idles_of_not_isCursor {s : EngineCore} {c : Call} (htick : c ≠ .runtime .tick)
    (hcursor : c.isCursor = false) : s.Idles c :=
  ⟨htick, fun _ hc => absurd (hcursor.symm.trans hc) Bool.false_ne_true⟩

/-- What a call does to the latches. -/
inductive Turn (s : EngineCore) : Call → EngineCore → Prop
  | kept {c s'} (hc : s.Idles c) (hl : s'.latches = s.latches) : Turn s c s'
  | alive {c s'} (hc : c.isAlive = true) (hl : s'.latches = { s.latches with misses := 0 }) :
    Turn s c s'
  /-- The waiting grant was acked. -/
  | settled {ack p s'} (hp : s.pendingAck = some p) (he : ack.ownerEpoch = p.epoch)
      (hl : s'.latches = { s.latches with pendingAck := none }) :
      Turn s (.control (.ownershipAck (some ack))) s'
  | ticked {s'} (hp : ∀ p, s.pendingAck = some p → p.ticksLeft ≠ 0)
      (hm : s.role = .source → s.isOwner = false →
        s.misses.saturatingAdd 1 < heartbeatMissLimit)
      (hl : s'.latches = { s.latches with
        misses := s.misses.saturatingAdd 1, pendingAck := s.pendingAck.map PendingAck.tick }) :
      Turn s (.runtime .tick) s'
  /-- Input was taken back; the travel and the misses may have been counted up before. -/
  | reclaimed {c s'} (travel : Int32) (misses : UInt32)
      (htravel : travel = s.escapeTravel ∨
        ∃ dx dy, travel = max (s.escapeTravel + s.homewardDelta dx dy) 0)
      (hl : s'.latches = Latches.reclaimed
        { s.latches with escapeTravel := travel, misses := misses } s.me) : Turn s c s'
  /-- A claim of the peer was adopted. -/
  | adopted {t owner s'} (hto : toId t.recipient = some owner)
      (hauth : owner = s.me → s.inputAuth.canAcceptGrant = true)
      (had : s.ownership.Adopts owner t.ownerEpoch (t.reason = .localReclaim))
      (hl : s'.latches = { s.latches with
        owner := owner
        epoch := t.ownerEpoch
        crossOutArmed := if owner = s.me ∧ s.role = .source then false else s.crossOutArmed
        reclaimArmed := if owner ≠ s.me ∧ s.role = .source then false else s.reclaimArmed
        pendingAck := none
        misses := 0 }) :
      Turn s (.control (.ownershipTransfer (some t))) s'
  /-- A failed injection on the owner handed input to the peer. -/
  | handed {s'} (hown : s.isOwner = true)
      (hl : s'.latches = { s.latches with
        owner := s.peer, epoch := s.epoch.saturatingAdd 1 }) :
      Turn s (.runtime .injectionFailed) s'
  /-- The cursor left the edge that it came back over. -/
  | rearmed {d x y dx dy s'} (hown : s.isOwner = true) (hoff : s.crossOutArmed = false)
      (hleft : s.localLeftCrossEdge x y = true)
      (hl : s'.latches = { s.latches with crossOutArmed := true }) :
      Turn s (.runtime (.localInput (.cursorMoved d x y dx dy))) s'
  | crossed {d x y dx dy s'} (hrole : s.role = .source) (hown : s.isOwner = true)
      (hx : s.CrossesAt x y dx dy)
      (hl : s'.latches = { s.latches with
        owner := s.peer
        epoch := s.epoch.saturatingAdd 1
        reclaimArmed := false
        escapeTravel := 0
        pendingAck := some (.new (s.epoch.saturatingAdd 1)) }) :
      Turn s (.runtime (.localInput (.cursorMoved d x y dx dy))) s'
  /-- The peer cursor was moved. -/
  | moved {d x y dx dy s'} (hrole : s.role = .source) (hown : s.isOwner = false)
      (hescape : ¬ s.localEscapeBack x y dx dy = true)
      (htravel : ¬ (s.travelled dx dy).escapeTravel ≥ (s.travelled dx dy).escapeThreshold)
      (hback : ¬ (((s.travelled dx dy).movePeerCursor dx dy).reclaimArmed &&
        ((s.travelled dx dy).movePeerCursor dx dy).crossesBack dx dy) = true)
      (hs : s' = ((s.travelled dx dy).movePeerCursor dx dy).nextSeq.1)
      (hl : s'.latches = { s.latches with
        escapeTravel := (s.travelled dx dy).escapeTravel
        reclaimArmed := s.reclaimArmed || (s.shifted dx dy).peerLeftEntryEdge }) :
      Turn s (.runtime (.localInput (.cursorMoved d x y dx dy))) s'

variable {s : EngineCore}

theorem latches_reclaimLocal : s.reclaimLocal.1.latches = Latches.reclaimed s.latches s.me := rfl

/-- The move of the peer cursor, in the terms of the latches. -/
theorem latches_movePeerCursor (dx dy : Int32) :
    ((s.travelled dx dy).movePeerCursor dx dy).latches = { s.latches with
      escapeTravel := (s.travelled dx dy).escapeTravel
      reclaimArmed := s.reclaimArmed || (s.shifted dx dy).peerLeftEntryEdge } := by
  have hshift : ((s.travelled dx dy).shifted dx dy).peerLeftEntryEdge =
      (s.shifted dx dy).peerLeftEntryEdge := by
    simp only [peerLeftEntryEdge, shifted, travelled]
    rfl
  rw [movePeerCursor_eq, hshift]
  simp only [latches, shifted, travelled, owner, epoch]

theorem turn_cursorMoved (hrole : s.role = .source) (d : UInt32) (x y dx dy : Int32) :
    Turn s (.runtime (.localInput (.cursorMoved d x y dx dy)))
      (s.onCursor x y dx dy s.isOwner).1 := by
  have hmove := latches_movePeerCursor (s := s) dx dy
  have hcases := s.onCursor_cases x y dx dy s.isOwner
  generalize s.onCursor x y dx dy s.isOwner = r at hcases ⊢
  generalize hown : s.isOwner = owns at hcases
  cases hcases with
  | crossed hx =>
    refine .crossed hrole hown hx ?_
    rw [crossToPeer_eq s hown, Ownership.grantTo_of_isOwner hown]
    rfl
  | rearmed hoff hleft => exact .rearmed hown hoff hleft rfl
  | passed => exact .kept ⟨by simp, fun _ _ => hown⟩ rfl
  | escaped => exact .reclaimed _ _ (.inl rfl) rfl
  | pushed => exact .reclaimed _ _ (.inr ⟨dx, dy, rfl⟩) latches_reclaimLocal
  | returned ht =>
    subst ht
    have hme := (movePeerCursor_same (s.travelled dx dy) dx dy).device.me
    refine .reclaimed (s.travelled dx dy).escapeTravel s.misses (.inr ⟨dx, dy, rfl⟩) ?_
    dsimp only
    rw [latches_reclaimLocal, hmove, hme]
    rfl
  | moved ht hescape htravel hback =>
    subst ht
    exact .moved hrole hown hescape htravel hback rfl hmove

theorem turn_localInput (s : EngineCore) (event : LocalInputEvent) :
    Turn s (.runtime (.localInput event)) (s.onLocalInput event).1 := by
  by_cases hrole : s.role = .source
  · cases event with
    | cursorMoved d x y dx dy =>
      rw [onLocalInput, if_neg (not_not.2 hrole)]
      exact turn_cursorMoved hrole d x y dx dy
    | key | button | scroll =>
      rw [onLocalInput, if_neg (not_not.2 hrole)]
      dsimp only
      split <;> exact .kept (idles_of_not_isCursor (by simp) rfl) rfl
  · rw [onLocalInput, if_pos hrole]
    exact .kept ⟨by simp, fun h => absurd h hrole⟩ rfl

theorem turn_tick (s : EngineCore) : Turn s (.runtime .tick) s.onTick.1 := by
  -- once the waiting grant is counted down, the misses are counted up
  have hmisses : ∀ (pending : Option PendingAck) (acts : List Action),
      (∀ p, s.pendingAck = some p → p.ticksLeft ≠ 0) → pending = s.pendingAck.map PendingAck.tick →
        Turn s (.runtime .tick) (tickMisses { s with
          hbSeq := s.hbSeq.saturatingAdd 1
          inputRate := s.inputRate.refill
          pendingAck := pending } acts).1 := by
    rintro pending acts hp rfl
    unfold tickMisses
    dsimp only
    split
    · exact .reclaimed _ _ (.inl rfl) latches_reclaimLocal
    · next hlimit =>
      refine .ticked hp ?_ rfl
      intro hrole haway
      have haway' : ({ s with
          hbSeq := s.hbSeq.saturatingAdd 1
          inputRate := s.inputRate.refill
          pendingAck := s.pendingAck.map PendingAck.tick
          misses := s.misses.saturatingAdd 1 } : EngineCore).isOwner = false := haway
      rw [haway'] at hlimit
      exact UInt32.not_le.1 fun hle => hlimit ⟨hrole, rfl, hle⟩
  cases hp : s.pendingAck with
  | none =>
    simp only [onTick, hp]
    exact hmisses none _ (by simp [hp]) (by rw [hp]; rfl)
  | some p =>
    simp only [onTick, hp]
    split
    · exact .reclaimed _ _ (.inl rfl) latches_reclaimLocal
    · next hlate =>
      refine hmisses (some p.tick) _ ?_ (by rw [hp]; rfl)
      intro q hq
      rw [hp] at hq
      cases hq
      exact hlate

theorem turn_suppressUnavailable (s : EngineCore) :
    Turn s (.runtime .suppressUnavailable) s.onSuppressUnavailable.1 := by
  unfold onSuppressUnavailable
  split
  · exact .kept (idles_of_not_isCursor (by simp) rfl) rfl
  · dsimp only
    split
    · exact .kept (idles_of_not_isCursor (by simp) rfl) rfl
    · exact .reclaimed _ _ (.inl rfl) latches_reclaimLocal

theorem turn_injectionFailed (s : EngineCore) :
    Turn s (.runtime .injectionFailed) s.onInjectionFailed.1 := by
  cases hown : s.isOwner with
  | false =>
    rw [onInjectionFailed_of_not_isOwner s hown]
    exact .kept (idles_of_not_isCursor (by simp) rfl) rfl
  | true =>
    rw [onInjectionFailed_of_isOwner s hown, Ownership.grantTo_of_isOwner hown]
    exact .handed hown rfl

theorem latches_acceptTransfer (s : EngineCore) (o : Ownership) (owner : DeviceId)
    (epoch : UInt64) :
    (s.acceptTransfer o owner epoch).1.latches =
      { s.latches with
        owner := o.owner
        epoch := o.epoch
        crossOutArmed := if owner = o.me ∧ s.role = .source then false else s.crossOutArmed
        reclaimArmed := if owner ≠ o.me ∧ s.role = .source then false else s.reclaimArmed
        pendingAck := none
        misses := 0 } := by
  by_cases h : owner = o.me <;> cases hrole : s.role <;>
    simp [acceptTransfer, latches, me, resetOut, h, hrole, EngineCore.owner, EngineCore.epoch]

theorem turn_transfer (s : EngineCore) (payload : Option OwnershipTransfer) :
    Turn s (.control (.ownershipTransfer payload)) (s.onTransfer payload).1 := by
  have hcases := s.onTransfer_cases payload
  generalize s.onTransfer payload = result at hcases
  cases hcases with
  | unread => exact .kept (idles_of_not_isCursor (by simp) rfl) rfl
  | refused => exact .kept (idles_of_not_isCursor (by simp) rfl) rfl
  | adopted hto hauth had =>
    exact .adopted hto hauth had (s.latches_acceptTransfer _ _ _)

theorem turn_ownershipAck (s : EngineCore) (payload : Option OwnershipAck) :
    Turn s (.control (.ownershipAck payload)) (s.onOwnershipAck payload).1 := by
  cases payload with
  | none => exact .kept (idles_of_not_isCursor (by simp) rfl) rfl
  | some ack =>
    cases hp : s.pendingAck with
    | none =>
      simp only [onOwnershipAck, hp]
      exact .kept (idles_of_not_isCursor (by simp) rfl) rfl
    | some p =>
      simp only [onOwnershipAck, hp]
      split
      · exact .kept (idles_of_not_isCursor (by simp) rfl) rfl
      · next he =>
        split
        · exact .reclaimed _ _ (.inl rfl) latches_reclaimLocal
        · exact .settled hp (not_not.1 he) rfl

theorem turn_control (s : EngineCore) (f : ControlFrame) :
    Turn s (.control f) (s.onControl f).1 := by
  cases f with
  | ownershipTransfer payload => exact turn_transfer s payload
  | ownershipAck payload => exact turn_ownershipAck s payload
  | keyEvent payload =>
    cases payload with
    | none => exact .kept (idles_of_not_isCursor (by simp) rfl) rfl
    | some k =>
      simp only [onControl, onKey]
      split
      · exact .kept (idles_of_not_isCursor (by simp) rfl) rfl
      · split <;> exact .kept (idles_of_not_isCursor (by simp) rfl) rfl
  | pointerButton payload =>
    cases payload with
    | none => exact .kept (idles_of_not_isCursor (by simp) rfl) rfl
    | some b =>
      simp only [onControl, onButton]
      split <;> exact .kept (idles_of_not_isCursor (by simp) rfl) rfl
  | scroll payload =>
    cases payload with
    | none => exact .kept (idles_of_not_isCursor (by simp) rfl) rfl
    | some w =>
      simp only [onControl, onScroll]
      split
      · exact .kept (idles_of_not_isCursor (by simp) rfl) rfl
      · split <;> exact .kept (idles_of_not_isCursor (by simp) rfl) rfl
  | ping payload => cases payload <;> exact .alive rfl rfl
  | pong | heartbeat => exact .alive rfl rfl
  | goodbye payload =>
    simp only [onControl, onGoodbye]
    split
    · exact .reclaimed _ _ (.inl rfl) latches_reclaimLocal
    · exact .kept (idles_of_not_isCursor (by simp) rfl) rfl
  | other => exact .kept (idles_of_not_isCursor (by simp) rfl) rfl

theorem turn_motion (s : EngineCore) (d : Datagram) : Turn s (.motion d) (s.onMotion d).1 := by
  cases d with
  | motion m =>
    simp only [onMotion]
    split <;> exact .kept (idles_of_not_isCursor (by simp) rfl) rfl
  | motionRel | unknown => exact .kept (idles_of_not_isCursor (by simp) rfl) rfl

/-- **What a call does to the latches.** -/
theorem call_turn (s : EngineCore) (c : Call) : Turn s c (s.call c).1 := by
  match c with
  | .runtime (.localInput event) => exact turn_localInput s event
  | .runtime .tick => exact turn_tick s
  | .runtime .suppressUnavailable => exact turn_suppressUnavailable s
  | .runtime .injectionFailed => exact turn_injectionFailed s
  | .runtime (.setPeerTrusted _) | .runtime (.setInputAllowed _) =>
    exact .kept (idles_of_not_isCursor (by simp) rfl) rfl
  | .control f => exact turn_control s f
  | .motion d => exact turn_motion s d

/-- The ticks among the steps. -/
def ticks (steps : List (Machine.Entry EngineCore Call (List Action))) : ℕ :=
  steps.countP fun en => en.input.isTick

theorem ticks_concat (steps : List (Machine.Entry EngineCore Call (List Action))) (s : EngineCore)
    (c : Call) : ticks (steps ++ [machine.entry s c]) = ticks steps + c.isTick.toNat := by
  rw [ticks, List.countP_append, ← ticks]
  cases hc : c.isTick <;> simp [hc]

/-! ## Owners before and after -/

theorem isOwner_of_owner {s' : EngineCore} (howner : s'.owner = s.owner) (hme : s'.me = s.me) :
    s'.isOwner = s.isOwner := by
  rw [Bool.eq_iff_iff]
  calc s'.isOwner = true ↔ s'.owner = s'.me := Ownership.isOwner_iff
    _ ↔ s.owner = s.me := by rw [howner, hme]
    _ ↔ s.isOwner = true := Ownership.isOwner_iff.symm

theorem isOwner_of_me {s' : EngineCore} (howner : s'.owner = s.me) (hme : s'.me = s.me) :
    s'.isOwner = true :=
  Ownership.isOwner_iff.2 (howner.trans hme.symm)

theorem not_isOwner_of_owner {s' : EngineCore} {other : DeviceId} (howner : s'.owner = other)
    (hother : other ≠ s.me) (hme : s'.me = s.me) : s'.isOwner = false := by
  rw [Bool.eq_false_iff]
  intro hown
  exact hother (howner.symm.trans ((Ownership.isOwner_iff.1 hown).trans hme))

/-- The latches after a crossing. -/
theorem latches_of_crosses (hrole : s.role = .source) {c : Call} (hcross : s.Crosses c) :
    (s.call c).1.latches = { s.latches with
      owner := s.peer
      epoch := s.epoch.saturatingAdd 1
      reclaimArmed := false
      escapeTravel := 0
      pendingAck := some (.new (s.epoch.saturatingAdd 1)) } := by
  unfold Crosses at hcross
  split at hcross
  · obtain ⟨hown, hx⟩ := hcross
    rw [call_cursorMoved hrole, hown, onCursor_of_crosses hx, crossToPeer_eq s hown,
      Ownership.grantTo_of_isOwner hown]
    rfl
  · exact hcross.elim

theorem not_isOwner_of_crosses (hrole : s.role = .source) (hpeer : s.peer ≠ s.me) {c : Call}
    (hcross : s.Crosses c) : (s.call c).1.isOwner = false :=
  not_isOwner_of_owner (congrArg Latches.owner (latches_of_crosses hrole hcross)) hpeer
    (s.call_device c).me

/-- The step accepted a claim of the peer. -/
def Accepts (en : Machine.Entry EngineCore Call (List Action)) : Prop :=
  ∃ t, en.input = .control (.ownershipTransfer (some t)) ∧
    ackFrame t.ownerEpoch true none ∈ en.output

/-- The step announced that this machine takes input back. -/
def Reclaims (en : Machine.Entry EngineCore Call (List Action)) : Prop :=
  ∃ t, .sendControl (.ownershipTransfer (some t)) ∈ en.output ∧ t.reason = .localReclaim

theorem accepts_of_adopts {t : OwnershipTransfer} {owner : DeviceId}
    (hto : toId t.recipient = some owner)
    (hauth : owner = s.me → s.inputAuth.canAcceptGrant = true)
    (had : s.ownership.Adopts owner t.ownerEpoch (t.reason = .localReclaim)) :
    Accepts (machine.entry s (.control (.ownershipTransfer (some t)))) := by
  refine ⟨t, rfl, ?_⟩
  change _ ∈ (s.onTransfer (some t)).2
  rw [onTransfer_of_adopts hto hauth had, acceptTransfer_actions]
  simp

/-- Input comes back by a claim of the peer or by a reclaim. -/
theorem accepts_or_reclaims {c : Call} (haway : s.isOwner = false)
    (hnow : (s.call c).1.isOwner = true) :
    Accepts (machine.entry s c) ∨ Reclaims (machine.entry s c) := by
  have heff := s.call_effect c
  have hentry : machine.entry s c = ⟨s, c, (s.call c).2, (s.call c).1⟩ := rfl
  have hsame : ¬ (s.call c).1.ownership = s.ownership := by
    intro ho
    have hown : (s.call c).1.isOwner = s.isOwner := congrArg Ownership.isOwner ho
    rw [hown, haway] at hnow
    cases hnow
  rw [hentry]
  generalize (s.call c).1 = s' at heff hnow hsame ⊢
  generalize (s.call c).2 = acts at heff ⊢
  cases heff with
  | quiet _ hs | settle _ _ _ hs | inputCtr _ hs | inputSeq hs => exact absurd hs.ownership hsame
  | refuse | trusted | allowed => exact absurd rfl hsame
  | cross _ hown =>
    rw [hown] at haway
    cases haway
  | @reclaim _ t pre post =>
    refine .inr ⟨⟨t.me.bytes, t.ownership.reclaim.2, 0, .localReclaim⟩, ?_, rfl⟩
    exact List.mem_append_left _ (List.mem_append_right _ (.tail _ (.head _)))
  | @adopt t =>
    refine .inl ⟨t, rfl, ?_⟩
    rw [acceptTransfer_actions]
    simp
  | failed =>
    have hkeep : s.onInjectionFailed.1.isOwner = s.isOwner := by
      rw [onInjectionFailed_of_not_isOwner s haway]
      rfl
    rw [hkeep, haway] at hnow
    cases hnow

end EngineCore

end Mouser
