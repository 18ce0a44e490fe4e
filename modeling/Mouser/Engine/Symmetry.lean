import Mouser.Engine.Cursor

/-!
# A core in other coordinates

A change of coordinates (`Symmetry`) gives the layout that a core has afterwards and says what
becomes of a delta, of a position on this machine's screen and of a position on the peer's. Only
`onCursor` reads the layout, so every other call commutes with every change of coordinates
(`call_relayout`); `onCursor` does where the eight geometric helpers do (`CarriesHome` for the owner
of input, `CarriesAway` for a source that has given it away).
-/

namespace Mouser

/-- A change of coordinates. -/
structure Symmetry where
  layout : EdgeLayout
  delta : Int32 → Int32 → Int32 × Int32
  /-- A position on this machine's screen. -/
  here : Int32 → Int32 → Int32 × Int32
  /-- A position on the peer's screen. -/
  there : Int32 → Int32 → Int32 × Int32

/-! ## Calls and actions -/

section under

variable (σ : Symmetry)

def LocalInputEvent.under : LocalInputEvent → LocalInputEvent
  | .cursorMoved d x y dx dy =>
    .cursorMoved d (σ.here x y).1 (σ.here x y).2 (σ.delta dx dy).1 (σ.delta dx dy).2
  | .scroll dx dy => .scroll (σ.delta dx dy).1 (σ.delta dx dy).2
  | event => event

def ControlFrame.under : ControlFrame → ControlFrame
  | .scroll (some w) =>
    .scroll (some { w with dx := (σ.delta w.dx w.dy).1, dy := (σ.delta w.dx w.dy).2 })
  | frame => frame

/-- The peer's motion is on this machine's screen. -/
def Datagram.under : Datagram → Datagram
  | .motion m => .motion { m with x := (σ.here m.x m.y).1, y := (σ.here m.x m.y).2 }
  | datagram => datagram

def Call.under : Call → Call
  | .runtime (.localInput event) => .runtime (.localInput (event.under σ))
  | .control frame => .control (frame.under σ)
  | .motion datagram => .motion (datagram.under σ)
  | c => c

def Inject.under : Inject → Inject
  | .moveCursor d x y => .moveCursor d (σ.here x y).1 (σ.here x y).2
  | .warpCursor d x y => .warpCursor d (σ.here x y).1 (σ.here x y).2
  | .scroll dx dy unit => .scroll (σ.delta dx dy).1 (σ.delta dx dy).2 unit
  | i => i

/-- The motion that is sent is on the peer's screen. -/
def Action.under : Action → Action
  | .sendControl frame => .sendControl (frame.under σ)
  | .sendMotion m =>
    .sendMotion { m with x := (σ.there m.x m.y).1, y := (σ.there m.x m.y).2 }
  | .inject i => .inject (i.under σ)
  | a => a

end under

namespace EngineCore

/-- The core with another layout and its peer cursor elsewhere. -/
def relayout (s : EngineCore) (layout : EdgeLayout) (p : Int32 × Int32) : EngineCore :=
  { s with layout, peerX := p.1, peerY := p.2 }

/-- The core in other coordinates. -/
def under (s : EngineCore) (σ : Symmetry) : EngineCore :=
  s.relayout σ.layout (σ.there s.peerX s.peerY)

/-- The same for a core and its actions. -/
def resultUnder (σ : Symmetry) (r : EngineCore × List Action) : EngineCore × List Action :=
  (r.1.under σ, r.2.map (·.under σ))

/-- The same with the peer cursor at `p`. -/
def resultAt (σ : Symmetry) (p : Int32 × Int32) (r : EngineCore × List Action) :
    EngineCore × List Action :=
  (r.1.relayout σ.layout p, r.2.map (·.under σ))

/-! ## What does not read the layout -/

section relayout

variable {s : EngineCore} {σ : Symmetry} {p : Int32 × Int32}

/-- Both arms of a choice that does not look at the layout. -/
theorem ite_resultAt {c : Prop} [Decidable c] {a a' b b' : EngineCore × List Action}
    (ha : a' = resultAt σ p a) (hb : b' = resultAt σ p b) :
    (if c then a' else b') = resultAt σ p (if c then a else b) := by
  rw [ha, hb, apply_ite (resultAt σ p)]

theorem tickMisses_relayout {acts : List Action} (hacts : acts.map (·.under σ) = acts) :
    (s.relayout σ.layout p).tickMisses acts = resultAt σ p (s.tickMisses acts) := by
  refine ite_resultAt ?_ ?_
  · simp only [resultAt, List.map_append, hacts]
    rfl
  · rw [resultAt, hacts]
    rfl

theorem onTick_relayout : (s.relayout σ.layout p).onTick = resultAt σ p s.onTick := by
  cases hp : s.pendingAck with
  | none =>
    have hp' : (s.relayout σ.layout p).pendingAck = none := hp
    simp only [onTick, hp, hp']
    refine tickMisses_relayout (s := { s with
      hbSeq := s.hbSeq.saturatingAdd 1, inputRate := s.inputRate.refill, pendingAck := none }) ?_
    rfl
  | some pending =>
    have hp' : (s.relayout σ.layout p).pendingAck = some pending := hp
    simp only [onTick, hp, hp']
    refine ite_resultAt rfl (tickMisses_relayout (s := { s with
      hbSeq := s.hbSeq.saturatingAdd 1
      inputRate := s.inputRate.refill
      pendingAck := some { pending with ticksLeft := pending.ticksLeft.saturatingSub 1 } }) ?_)
    rfl

theorem onSuppressUnavailable_relayout :
    (s.relayout σ.layout p).onSuppressUnavailable = resultAt σ p s.onSuppressUnavailable :=
  ite_resultAt rfl (ite_resultAt rfl rfl)

theorem onInjectionFailed_relayout :
    (s.relayout σ.layout p).onInjectionFailed = resultAt σ p s.onInjectionFailed := by
  cases hown : s.isOwner with
  | false =>
    have hown' : (s.relayout σ.layout p).isOwner = false := hown
    rw [onInjectionFailed_of_not_isOwner _ hown, onInjectionFailed_of_not_isOwner _ hown']
    rfl
  | true =>
    have hown' : (s.relayout σ.layout p).isOwner = true := hown
    rw [onInjectionFailed_of_isOwner _ hown, onInjectionFailed_of_isOwner _ hown']
    rfl

theorem onLocalInput_relayout {event : LocalInputEvent}
    (hevent : (Call.runtime (.localInput event)).isCursor = false) :
    (s.relayout σ.layout p).onLocalInput (event.under σ) =
      resultAt σ p (s.onLocalInput event) := by
  cases event with
  | cursorMoved => cases hevent
  | button | key | scroll => exact ite_resultAt rfl (ite_resultAt rfl rfl)

theorem acceptTransfer_relayout (o : Ownership) (owner : DeviceId) (epoch : UInt64) :
    (s.relayout σ.layout p).acceptTransfer o owner epoch =
      resultAt σ p (s.acceptTransfer o owner epoch) := by
  by_cases howner : owner = o.me <;> cases hrole : s.role <;>
    simp [acceptTransfer, howner, hrole, relayout, resultAt, resetOut, me, Action.under,
      ControlFrame.under, ackFrame, captureMode, isOwner]

theorem onTransfer_relayout (payload : Option OwnershipTransfer) :
    (s.relayout σ.layout p).onTransfer payload = resultAt σ p (s.onTransfer payload) := by
  cases payload with
  | none => rfl
  | some t =>
    cases hto : toId t.recipient with
    | none =>
      simp only [onTransfer, hto]
      rfl
    | some owner =>
      simp only [onTransfer, hto]
      refine ite_resultAt rfl ?_
      rcases s.ownership.observe_cases owner t.ownerEpoch (t.reason = .localReclaim) with
        ⟨-, heq⟩ | ⟨-, r, heq⟩
      · have heq' : (s.relayout σ.layout p).ownership.observe owner t.ownerEpoch
            (t.reason = .localReclaim) = _ := heq
        simp only [Ownership.observeWithReason, heq, heq', Ownership.adopt]
        exact acceptTransfer_relayout _ owner t.ownerEpoch
      · have heq' : (s.relayout σ.layout p).ownership.observe owner t.ownerEpoch
            (t.reason = .localReclaim) = _ := heq
        simp only [Ownership.observeWithReason, heq, heq']
        rfl

/-- The answer to a grant sends the peer cursor. -/
theorem onOwnershipAck_relayout (hp : s.pendingAck = none ∨ p = σ.there s.peerX s.peerY)
    (payload : Option OwnershipAck) :
    (s.relayout σ.layout p).onOwnershipAck payload = resultAt σ p (s.onOwnershipAck payload) := by
  cases payload with
  | none => rfl
  | some ack =>
    cases hpending : s.pendingAck with
    | none =>
      have hpending' : (s.relayout σ.layout p).pendingAck = none := hpending
      simp only [onOwnershipAck, hpending, hpending']
      rfl
    | some pending =>
      have hpending' : (s.relayout σ.layout p).pendingAck = some pending := hpending
      rcases hp with hp | rfl
      · rw [hpending] at hp
        cases hp
      · simp only [onOwnershipAck, hpending, hpending']
        exact ite_resultAt rfl (ite_resultAt rfl rfl)

theorem onKey_relayout (payload : Option KeyEvent) :
    (s.relayout σ.layout p).onKey payload = resultAt σ p (s.onKey payload) := by
  cases payload with
  | none => rfl
  | some k => exact ite_resultAt rfl (ite_resultAt rfl rfl)

theorem onButton_relayout (payload : Option PointerButton) :
    (s.relayout σ.layout p).onButton payload = resultAt σ p (s.onButton payload) := by
  cases payload with
  | none => rfl
  | some b => exact ite_resultAt rfl rfl

theorem onScroll_relayout (w : Scroll) :
    (s.relayout σ.layout p).onScroll
        (some { w with dx := (σ.delta w.dx w.dy).1, dy := (σ.delta w.dx w.dy).2 }) =
      resultAt σ p (s.onScroll (some w)) :=
  ite_resultAt rfl (ite_resultAt rfl rfl)

theorem onControl_relayout (hp : s.pendingAck = none ∨ p = σ.there s.peerX s.peerY)
    (frame : ControlFrame) :
    (s.relayout σ.layout p).onControl (frame.under σ) = resultAt σ p (s.onControl frame) := by
  cases frame with
  | ownershipTransfer payload => exact onTransfer_relayout payload
  | ownershipAck payload => exact onOwnershipAck_relayout hp payload
  | keyEvent payload => exact onKey_relayout payload
  | pointerButton payload => exact onButton_relayout payload
  | scroll payload =>
    cases payload with
    | none => rfl
    | some w => exact onScroll_relayout w
  | ping payload => cases payload <;> rfl
  | pong | heartbeat | other => rfl
  | goodbye payload => exact ite_resultAt rfl rfl

theorem onMotion_relayout (datagram : Datagram) :
    (s.relayout σ.layout p).onMotion (datagram.under σ) = resultAt σ p (s.onMotion datagram) := by
  cases datagram with
  | motion m => exact ite_resultAt rfl rfl
  | motionRel | unknown => rfl

/-- **A call that reports no cursor move** commutes with every change of coordinates. Where no grant
waits for its answer the peer cursor is not looked at. -/
theorem call_relayout (hp : s.pendingAck = none ∨ p = σ.there s.peerX s.peerY) {c : Call}
    (hc : c.isCursor = false) :
    (s.relayout σ.layout p).call (c.under σ) = resultAt σ p (s.call c) := by
  cases c with
  | control frame => exact onControl_relayout hp frame
  | motion datagram => exact onMotion_relayout datagram
  | runtime c =>
    cases c with
    | localInput event => exact onLocalInput_relayout hc
    | tick => exact onTick_relayout
    | suppressUnavailable => exact onSuppressUnavailable_relayout
    | injectionFailed => exact onInjectionFailed_relayout
    | setPeerTrusted | setInputAllowed => rfl

/-- Such a call leaves the peer cursor where it is. -/
theorem call_peerCursor (s : EngineCore) {c : Call} (hc : c.isCursor = false) :
    (s.call c).1.peerX = s.peerX ∧ (s.call c).1.peerY = s.peerY := by
  -- the core is itself in the coordinates that change nothing
  let same : Symmetry := ⟨s.layout, Prod.mk, Prod.mk, Prod.mk⟩
  have hcall : c.under same = c := by
    cases c with
    | control frame =>
      cases frame with
      | scroll payload => cases payload <;> rfl
      | _ => rfl
    | motion datagram => cases datagram <;> rfl
    | runtime c =>
      cases c with
      | localInput event => cases event <;> rfl
      | _ => rfl
  have h := call_relayout (s := s) (σ := same) (p := (s.peerX, s.peerY)) (.inr rfl) hc
  rw [hcall] at h
  exact ⟨congrArg (·.1.peerX) h, congrArg (·.1.peerY) h⟩

theorem call_under (s : EngineCore) (σ : Symmetry) {c : Call} (hc : c.isCursor = false) :
    (s.under σ).call (c.under σ) = resultUnder σ (s.call c) := by
  obtain ⟨hx, hy⟩ := s.call_peerCursor hc
  rw [resultUnder, under, under, hx, hy]
  exact call_relayout (.inr rfl) hc

end relayout

/-! ## Cursor moves -/

/-- The helpers that a source reads while it owns input, at `(x, y)` with the delta `(dx, dy)`. None
of them reads the peer cursor. -/
structure CarriesHome (σ : Symmetry) (s : EngineCore) (x y dx dy : Int32) : Prop where
  left : (s.under σ).localLeftCrossEdge (σ.here x y).1 (σ.here x y).2 = s.localLeftCrossEdge x y
  crosses : (s.under σ).crossesOut (σ.here x y).1 (σ.here x y).2 (σ.delta dx dy).1
    (σ.delta dx dy).2 = s.crossesOut x y dx dy
  entry : s.CrossesAt x y dx dy → (s.under σ).entryPoint (σ.here x y).1 (σ.here x y).2 =
    σ.there (s.entryPoint x y).1 (s.entryPoint x y).2

/-- The helpers that move the peer cursor by `(dx, dy)` and bring it back over the edge. -/
structure CarriesMove (σ : Symmetry) (s : EngineCore) (dx dy : Int32) : Prop where
  moved : (s.under σ).movePeerCursor (σ.delta dx dy).1 (σ.delta dx dy).2 =
    (s.movePeerCursor dx dy).under σ
  back : ((s.movePeerCursor dx dy).under σ).crossesBack (σ.delta dx dy).1 (σ.delta dx dy).2 =
    (s.movePeerCursor dx dy).crossesBack dx dy
  warp : (s.movePeerCursor dx dy).reclaimArmed = true →
    (s.movePeerCursor dx dy).crossesBack dx dy = true →
      ((s.movePeerCursor dx dy).under σ).entryEdgeWarp =
        (s.movePeerCursor dx dy).entryEdgeWarp.under σ

/-- The helpers that a source reads while the peer owns input. -/
structure CarriesAway (σ : Symmetry) (s : EngineCore) (x y dx dy : Int32) : Prop where
  escape : (s.under σ).localEscapeBack (σ.here x y).1 (σ.here x y).2 (σ.delta dx dy).1
    (σ.delta dx dy).2 = s.localEscapeBack x y dx dy
  homeward : (s.under σ).homewardDelta (σ.delta dx dy).1 (σ.delta dx dy).2 = s.homewardDelta dx dy
  threshold : (s.under σ).escapeThreshold = s.escapeThreshold
  move : ¬ s.localEscapeBack x y dx dy = true →
    ¬ (s.travelled dx dy).escapeTravel ≥ (s.travelled dx dy).escapeThreshold →
      CarriesMove σ (s.travelled dx dy) dx dy

variable {s : EngineCore} {σ : Symmetry} {x y dx dy : Int32}

/-- The crossing of the owner, from any peer cursor: it puts the cursor where it belongs. -/
theorem CarriesHome.onCursor_crosses (h : CarriesHome σ s x y dx dy) (hown : s.isOwner = true)
    (hx : s.CrossesAt x y dx dy) (p : Int32 × Int32) :
    (s.relayout σ.layout p).onCursor (σ.here x y).1 (σ.here x y).2 (σ.delta dx dy).1
        (σ.delta dx dy).2 true =
      resultUnder σ (s.onCursor x y dx dy true) := by
  have hx' : (s.relayout σ.layout p).CrossesAt (σ.here x y).1 (σ.here x y).2 (σ.delta dx dy).1
      (σ.delta dx dy).2 := ⟨hx.1, hx.2.1, h.crosses.trans hx.2.2⟩
  have hown' : (s.relayout σ.layout p).isOwner = true := hown
  have hentry : (s.relayout σ.layout p).entryPoint (σ.here x y).1 (σ.here x y).2 =
      σ.there (s.entryPoint x y).1 (s.entryPoint x y).2 := h.entry hx
  rw [onCursor_of_crosses hx, onCursor_of_crosses hx', crossToPeer_eq _ hown,
    crossToPeer_eq _ hown', hentry]
  rfl

/-- The owner's other steps leave the peer cursor alone. -/
theorem CarriesHome.onCursor_stays (h : CarriesHome σ s x y dx dy) (hx : ¬ s.CrossesAt x y dx dy)
    (p : Int32 × Int32) :
    (s.relayout σ.layout p).onCursor (σ.here x y).1 (σ.here x y).2 (σ.delta dx dy).1
        (σ.delta dx dy).2 true =
      resultAt σ p (s.onCursor x y dx dy true) := by
  have hx' : ¬ (s.relayout σ.layout p).CrossesAt (σ.here x y).1 (σ.here x y).2 (σ.delta dx dy).1
      (σ.delta dx dy).2 := fun h' => hx ⟨h'.1, h'.2.1, h.crosses.symm.trans h'.2.2⟩
  have hleft : (s.relayout σ.layout p).localLeftCrossEdge (σ.here x y).1 (σ.here x y).2 =
      s.localLeftCrossEdge x y := h.left
  rw [onCursor_of_stays hx, onCursor_of_stays hx', hleft]
  exact ite_resultAt rfl rfl

theorem onCursor_of_stays_peerCursor (hx : ¬ s.CrossesAt x y dx dy) :
    (s.onCursor x y dx dy true).1.peerX = s.peerX ∧
      (s.onCursor x y dx dy true).1.peerY = s.peerY := by
  rw [onCursor_of_stays hx]
  split <;> exact ⟨rfl, rfl⟩

theorem CarriesHome.onCursor_under (h : CarriesHome σ s x y dx dy) (hown : s.isOwner = true) :
    (s.under σ).onCursor (σ.here x y).1 (σ.here x y).2 (σ.delta dx dy).1 (σ.delta dx dy).2 true =
      resultUnder σ (s.onCursor x y dx dy true) := by
  by_cases hx : s.CrossesAt x y dx dy
  · exact h.onCursor_crosses hown hx _
  · obtain ⟨hpx, hpy⟩ := onCursor_of_stays_peerCursor hx
    rw [resultUnder, under, under, hpx, hpy]
    exact h.onCursor_stays hx _

/-- A choice that two cores make alike. -/
theorem ite_resultUnder {c : Prop} [Decidable c] {a a' b b' : EngineCore × List Action}
    (ha : c → a' = resultUnder σ a) (hb : ¬ c → b' = resultUnder σ b) :
    (if c then a' else b') = resultUnder σ (if c then a else b) := by
  split
  · next h => exact ha h
  · next h => exact hb h

theorem CarriesMove.forwardCursor (h : CarriesMove σ s dx dy) :
    ((s.under σ).movePeerCursor (σ.delta dx dy).1 (σ.delta dx dy).2).forwardCursor
        (σ.delta dx dy).1 (σ.delta dx dy).2 =
      resultUnder σ ((s.movePeerCursor dx dy).forwardCursor dx dy) := by
  have hback := h.back
  have hwarp := h.warp
  rw [h.moved]
  generalize s.movePeerCursor dx dy = t at hback hwarp ⊢
  simp only [EngineCore.forwardCursor, hback]
  refine ite_resultUnder ?_ fun _ => rfl
  intro hboth
  rw [Bool.and_eq_true] at hboth
  rw [hwarp hboth.1 hboth.2, resultUnder, List.map_append]
  rfl

theorem CarriesAway.onCursor_under (h : CarriesAway σ s x y dx dy) :
    (s.under σ).onCursor (σ.here x y).1 (σ.here x y).2 (σ.delta dx dy).1 (σ.delta dx dy).2 false =
      resultUnder σ (s.onCursor x y dx dy false) := by
  have htravelled : (s.under σ).travelled (σ.delta dx dy).1 (σ.delta dx dy).2 =
      (s.travelled dx dy).under σ := by
    rw [travelled, h.homeward]
    rfl
  have hthreshold : ((s.travelled dx dy).under σ).escapeThreshold =
      (s.travelled dx dy).escapeThreshold := h.threshold
  rw [onCursor_away, onCursor_away, htravelled, h.escape, hthreshold]
  exact ite_resultUnder (fun _ => rfl) fun hescape =>
    ite_resultUnder (fun _ => rfl) fun htravel => (h.move hescape htravel).forwardCursor

/-! ## The step -/

/-- The coordinates carry what `c` reads of `s`. -/
def Carries (σ : Symmetry) (s : EngineCore) : Call → Prop
  | .runtime (.localInput (.cursorMoved _ x y dx dy)) =>
    (s.isOwner = true → CarriesHome σ s x y dx dy) ∧
      (s.isOwner = false → CarriesAway σ s x y dx dy)
  | _ => True

/-- **A step in other coordinates.** -/
theorem Carries.call_under {c : Call} (h : Carries σ s c) (hrole : s.role = .source) :
    (s.under σ).call (c.under σ) = resultUnder σ (s.call c) := by
  cases hc : c.isCursor with
  | false => exact s.call_under σ hc
  | true =>
    obtain ⟨d, x, y, dx, dy, rfl⟩ := eq_cursorMoved hc
    have hrole' : (s.under σ).role = .source := hrole
    have hown : (s.under σ).isOwner = s.isOwner := rfl
    rw [call_cursorMoved hrole]
    refine (call_cursorMoved hrole' ..).trans ?_
    rw [hown]
    cases hs : s.isOwner with
    | true => exact (h.1 hs).onCursor_under hs
    | false => exact (h.2 hs).onCursor_under

/-- A crossing, from any peer cursor. -/
theorem Carries.call_crosses {c : Call} (h : Carries σ s c) (hrole : s.role = .source)
    (hx : s.Crosses c) (p : Int32 × Int32) :
    (s.relayout σ.layout p).call (c.under σ) = resultUnder σ (s.call c) := by
  unfold Crosses at hx
  split at hx
  · obtain ⟨hown, hx⟩ := hx
    have hrole' : (s.relayout σ.layout p).role = .source := hrole
    have hown' : (s.relayout σ.layout p).isOwner = true := hown
    rw [call_cursorMoved hrole, hown]
    refine (call_cursorMoved hrole' ..).trans ?_
    rw [hown']
    exact (h.1 hown).onCursor_crosses hown hx p
  · cases hx

/-- The other steps, as long as nothing looks at the peer cursor. -/
theorem Carries.call_stays {c : Call} (h : Carries σ s c) (hrole : s.role = .source)
    (hx : ¬ s.Crosses c) (hown : c.isCursor = true → s.isOwner = true) (hp : s.pendingAck = none)
    (p : Int32 × Int32) :
    (s.relayout σ.layout p).call (c.under σ) = resultAt σ p (s.call c) := by
  cases hc : c.isCursor with
  | false => exact call_relayout (.inl hp) hc
  | true =>
    have howner := hown hc
    obtain ⟨d, x, y, dx, dy, rfl⟩ := eq_cursorMoved hc
    have hrole' : (s.relayout σ.layout p).role = .source := hrole
    have hown' : (s.relayout σ.layout p).isOwner = true := howner
    rw [call_cursorMoved hrole, howner]
    refine (call_cursorMoved hrole' ..).trans ?_
    rw [hown']
    exact (h.1 howner).onCursor_stays (fun hcross => hx ⟨howner, hcross⟩) p

end EngineCore

end Mouser
