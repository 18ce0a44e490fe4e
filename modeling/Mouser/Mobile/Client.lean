import Mathlib.Algebra.BigOperators.Group.List.Basic
import Mathlib.Data.List.Chain
import Mouser.Engine.Effect

/-!
# The mobile controller

A phone drives a peer through a source engine of its own. It has no screen edge to cross: `connect`
feeds the engine two cursor reports, the first of which crosses out of a screen one pixel wide, and
the second moves the peer cursor off the edge. From then on the phone reports the samples of its
trackpad, which are both positions and, from one sample to the next, deltas.

The layout's peer is on the right, so three rules give input back: a sample at the left margin that
moves left, leftward travel of an emergency escape, and a peer cursor pushed to its left edge.
`keepsControl_iff` says which samples trip none of them.
-/

namespace Mouser

/-- `VIRTUAL_SPAN`, the side of the box the peer cursor moves in. -/
def virtualSpan : Int32 := 1048576

def seedStep : Int32 := 16

/-- What the phone reports of its trackpad. -/
structure PointerSample where
  displayId : UInt32
  x : Int32
  y : Int32

structure MobileClient where
  core : EngineCore
  lastPointer : Option (Int32 × Int32)

namespace MobileClient

/-- The engine of `connect`. -/
def newCore (me peer : DeviceId) : EngineCore :=
  .newSource me peer (.sideBySide 1 virtualSpan virtualSpan virtualSpan)

/-- The first two events `connect` feeds the engine. -/
def seeds : List LocalInputEvent :=
  [.cursorMoved 0 0 (virtualSpan / 2) 0 0, .cursorMoved 0 seedStep (virtualSpan / 2) seedStep 0]

/-- The client once `connect` has returned and the events are through. -/
def connect (me peer : DeviceId) : MobileClient where
  core := seeds.foldl (fun core event => (core.onLocalInput event).1) (newCore me peer)
  lastPointer := none

/-- The peer accepts the grant. -/
def acked (c : MobileClient) : MobileClient :=
  { c with
    core := (c.core.onControl (.ownershipAck (some
      { ownerEpoch := c.core.epoch, accepted := true, reason := none }))).1 }

def feed (c : MobileClient) (event : LocalInputEvent) : MobileClient × List Action :=
  let (core, acts) := c.core.onLocalInput event
  ({ c with core }, acts)

/-- The delta of a sample from the one before it. -/
def pointerDelta (last : Option (Int32 × Int32)) (x y : Int32) : Int32 × Int32 :=
  match last with
  | some (px, py) => (x.saturatingSub px, y.saturatingSub py)
  | none => (0, 0)

def sendPointerMoved (c : MobileClient) (p : PointerSample) : MobileClient × List Action :=
  let (dx, dy) := pointerDelta c.lastPointer p.x p.y
  { c with lastPointer := some (p.x, p.y) }.feed (.cursorMoved p.displayId p.x p.y dx dy)

def sendButton (c : MobileClient) (button : UInt8) (down : Bool) : MobileClient × List Action :=
  c.feed (.button button down)

def sendKey (c : MobileClient) (usage : UInt16) (down : Bool) (mods : UInt16) :
    MobileClient × List Action :=
  c.feed (.key usage down mods)

def sendScroll (c : MobileClient) (dx dy : Int32) : MobileClient × List Action :=
  c.feed (.scroll dx dy)

/-- A run is the samples of the trackpad. -/
def pointerMachine : Machine MobileClient PointerSample (List Action) := ⟨sendPointerMoved⟩

/-! ## What is asked of the samples -/

/-- The horizontal deltas of the samples that follow `last`. -/
def deltas (last : Option Int32) : List PointerSample → List Int
  | [] => []
  | p :: samples =>
    (last.elim 0 fun px => (p.x.saturatingSub px).toInt) :: deltas (some p.x) samples

/-- Where the samples put the peer cursor, from the seed on, in the box. -/
def virtualCursor (samples : List PointerSample) : Int :=
  max 0 (min (virtualSpan.toInt - 1) (seedStep.toInt + (deltas none samples).sum))

/-- No sample lies a home-ward escape to the left of an earlier one, and none at the left margin
moves left. -/
structure StaysRight (samples : List PointerSample) : Prop where
  escape : samples.Pairwise fun p q => p.x.toInt - q.x.toInt < escapeMinTravel.toInt
  margin : samples.IsChain fun p q => ¬ (q.x ≤ edgeRearmMargin ∧ q.x < p.x)

/-- Every sample is forwarded as motion, and the peer stays the owner. -/
def KeepsControl (peer : DeviceId)
    (steps : List (Machine.Entry MobileClient PointerSample (List Action))) : Prop :=
  ∀ e ∈ steps, (∃ m, e.output = [.sendMotion m, .capture .suppress]) ∧ e.post.core.owner = peer

/-! ## One sample -/

/-- The peer owns input, and its cursor has left the edge. -/
structure Controls (s : EngineCore) (peer : DeviceId) (cursor travel : Int) : Prop where
  role : s.role = .source
  layout : s.layout = .sideBySide 1 virtualSpan virtualSpan virtualSpan
  isOwner : s.isOwner = false
  owner : s.owner = peer
  armed : s.reclaimArmed = true
  peerX : s.peerX.toInt = cursor
  escapeTravel : s.escapeTravel.toInt = travel
  inBox : 0 < cursor ∧ cursor < 2 ^ 20
  calm : 0 ≤ travel ∧ travel < 64

/-- The sample trips none of the three rules. -/
structure Forwards (x dx cursor travel : Int) : Prop where
  margin : ¬ (x ≤ 8 ∧ dx < 0)
  escape : travel - dx < 64
  edge : 0 < cursor + dx

section step

variable {s : EngineCore} {peer : DeviceId} {cursor travel : Int}

theorem Controls.onLocalInput_cursor (h : Controls s peer cursor travel) (d : UInt32)
    (x y dx dy : Int32) :
    s.onLocalInput (.cursorMoved d x y dx dy) = s.onCursor x y dx dy false := by
  rw [EngineCore.onLocalInput, if_neg (by simp [h.role]), h.isOwner]

theorem Controls.homewardDelta (h : Controls s peer cursor travel) (dx dy : Int32) :
    s.homewardDelta dx dy = -dx := by
  rw [EngineCore.homewardDelta, h.layout]
  rfl

theorem Controls.escapeThreshold (h : Controls s peer cursor travel) :
    s.escapeThreshold = 64 := by
  rw [EngineCore.escapeThreshold, h.layout]
  decide

theorem Controls.localEscapeBack_iff (h : Controls s peer cursor travel) (x y dx dy : Int32) :
    s.localEscapeBack x y dx dy = true ↔ x.toInt ≤ 8 ∧ dx.toInt < 0 := by
  rw [EngineCore.localEscapeBack, h.layout]
  simp [EdgeLayout.sideBySide, EdgeLayout.withEdge, Int32.le_iff_toInt_le, Int32.lt_iff_toInt_lt,
    edgeRearmMargin]

/-- The travel of the escape; the sum wraps only for a delta longer than the box. -/
theorem Controls.travel_toInt (h : Controls s peer cursor travel) (dx : Int32) :
    (max (s.escapeTravel + -dx) 0).toInt =
      if travel - dx.toInt < 2 ^ 31 then max (travel - dx.toInt) 0 else 0 := by
  have hlo := dx.le_toInt
  have hhi := dx.toInt_lt
  have hcalm := h.calm
  have hwrap : (s.escapeTravel + -dx).toInt = (travel - dx.toInt).bmod (2 ^ 32) := by
    rw [Int32.toInt_add, Int32.toInt_neg, Int.add_bmod_bmod, h.escapeTravel, Int.sub_eq_add_neg]
  rw [Int32.toInt_max, hwrap, Int.bmod_def]
  have h0 : (0 : Int32).toInt = 0 := rfl
  split <;> split <;> omega

/-- An armed cursor that moves stays armed. -/
theorem movePeerCursor_of_armed (h : s.reclaimArmed = true) (dx dy : Int32) :
    s.movePeerCursor dx dy = { s with
      peerX := clamp (s.peerX.saturatingAdd dx) 0 (max (s.layout.peerWidth.saturatingSub 1) 0)
      peerY :=
        clamp (s.peerY.saturatingAdd dy) 0 (max (s.layout.peerHeight.saturatingSub 1) 0) } := by
  simp [EngineCore.movePeerCursor, h]

/-- The peer cursor moves within the box. -/
theorem Controls.cursor_toInt (h : Controls s peer cursor travel) (dx : Int32) :
    (clamp (s.peerX.saturatingAdd dx) 0 (max (s.layout.peerWidth.saturatingSub 1) 0)).toInt =
      max 0 (min (cursor + dx.toInt) (2 ^ 20 - 1)) := by
  have hwidth : (max (s.layout.peerWidth.saturatingSub 1) 0).toInt = 2 ^ 20 - 1 := by
    rw [h.layout]
    decide
  have hbox := h.inBox
  have hlo := dx.le_toInt
  have hhi := dx.toInt_lt
  rw [toInt_clamp, hwidth, Int32.toInt_saturatingAdd, h.peerX]
  have h0 : (0 : Int32).toInt = 0 := rfl
  omega

theorem head_reclaimLocal (s : EngineCore) :
    s.reclaimLocal.2.head? = some (.setCaptureMode .passiveEdge) := rfl

/-- A travel below the threshold is kept. -/
theorem Controls.withTravel (h : Controls s peer cursor travel) {escapeTravel : Int32}
    (hcalm : 0 ≤ escapeTravel.toInt ∧ escapeTravel.toInt < 64) :
    Controls { s with escapeTravel } peer cursor escapeTravel.toInt :=
  { h with escapeTravel := rfl, calm := hcalm }

/-- The peer cursor moves, and is forwarded unless it comes back to the edge. -/
theorem Controls.moved (h : Controls s peer cursor travel) (dx dy : Int32) :
    (0 < cursor + dx.toInt ∧
      ∃ t m, (s.movePeerCursor dx dy).forwardCursor dx dy =
          (t, [.sendMotion m, .capture .suppress]) ∧
        Controls t peer (min (cursor + dx.toInt) (2 ^ 20 - 1)) travel) ∨
    (cursor + dx.toInt ≤ 0 ∧
      ((s.movePeerCursor dx dy).forwardCursor dx dy).2.head? =
        some (.setCaptureMode .passiveEdge)) := by
  have hcursor := h.cursor_toInt dx
  have hbox := h.inBox
  rw [movePeerCursor_of_armed h.armed]
  generalize clamp (s.peerX.saturatingAdd dx) 0 (max (s.layout.peerWidth.saturatingSub 1) 0) = peerX
    at hcursor
  generalize clamp (s.peerY.saturatingAdd dy) 0 (max (s.layout.peerHeight.saturatingSub 1) 0) =
    peerY
  have hback : (s.reclaimArmed && EngineCore.crossesBack { s with peerX, peerY } dx dy) = true ↔
      peerX.toInt ≤ 0 ∧ dx.toInt < 0 := by
    simp [EngineCore.crossesBack, h.armed, h.layout, EdgeLayout.sideBySide, EdgeLayout.withEdge,
      Int32.le_iff_toInt_le, Int32.lt_iff_toInt_lt]
  unfold EngineCore.forwardCursor
  by_cases hedge : 0 < cursor + dx.toInt
  · refine .inl ⟨hedge, ?_⟩
    rw [if_neg fun hb => absurd (hback.1 hb).1 (by omega)]
    refine ⟨_, _, rfl, ?_⟩
    exact
      { role := h.role
        layout := h.layout
        isOwner := h.isOwner
        owner := h.owner
        armed := h.armed
        peerX := hcursor.trans (by omega)
        escapeTravel := h.escapeTravel
        inBox := by omega
        calm := h.calm }
  · refine .inr ⟨by omega, ?_⟩
    rw [if_pos (hback.2 (by omega))]
    rfl

/-- **One sample.** A sample that trips none of the rules is forwarded, and any other one gives
input back. -/
theorem Controls.cursorMoved (h : Controls s peer cursor travel) (d : UInt32) (x y dx dy : Int32) :
    (Forwards x.toInt dx.toInt cursor travel ∧
      ∃ t m, s.onLocalInput (.cursorMoved d x y dx dy) = (t, [.sendMotion m, .capture .suppress]) ∧
        Controls t peer (min (cursor + dx.toInt) (2 ^ 20 - 1)) (max (travel - dx.toInt) 0)) ∨
    (¬ Forwards x.toInt dx.toInt cursor travel ∧
      (s.onLocalInput (.cursorMoved d x y dx dy)).2.head? =
        some (.setCaptureMode .passiveEdge)) := by
  have hlo := dx.le_toInt
  have hcalm := h.calm
  have hbox := h.inBox
  rw [h.onLocalInput_cursor, EngineCore.onCursor, if_neg Bool.false_ne_true]
  by_cases hmargin : s.localEscapeBack x y dx dy = true
  · rw [if_pos hmargin]
    exact .inr ⟨fun hf => hf.margin ((h.localEscapeBack_iff x y dx dy).1 hmargin),
      head_reclaimLocal s⟩
  rw [if_neg hmargin, h.homewardDelta]
  have htravel := h.travel_toInt dx
  generalize max (s.escapeTravel + -dx) 0 = escapeTravel at htravel
  have hthreshold : EngineCore.escapeThreshold { s with escapeTravel } = 64 := h.escapeThreshold
  have hescape : escapeTravel ≥ EngineCore.escapeThreshold { s with escapeTravel } ↔
      64 ≤ escapeTravel.toInt := by
    rw [hthreshold, ge_iff_le, Int32.le_iff_toInt_le]
    rfl
  by_cases htrips : 64 ≤ escapeTravel.toInt
  · dsimp only
    rw [if_pos (hescape.2 htrips)]
    refine .inr ⟨fun hf => ?_, head_reclaimLocal _⟩
    have hshort := hf.escape
    rw [htravel] at htrips
    split at htrips <;> omega
  · dsimp only
    rw [if_neg (mt hescape.1 htrips)]
    have hcontrols : Controls { s with escapeTravel } peer cursor escapeTravel.toInt :=
      h.withTravel (by rw [htravel] at htrips ⊢; split <;> omega)
    rcases hcontrols.moved dx dy with ⟨hedge, hmoved⟩ | ⟨hedge, hback⟩
    · -- The cursor has kept off the edge, so the delta was no longer than the box.
      have hshort : travel - dx.toInt < 2 ^ 31 := by omega
      rw [if_pos hshort] at htravel
      rw [htravel] at hmoved htrips
      refine .inl ⟨⟨?_, by omega, hedge⟩, ?_⟩
      · exact fun hm => hmargin ((h.localEscapeBack_iff x y dx dy).2 hm)
      exact hmoved
    · exact .inr ⟨fun hf => absurd hf.edge (by omega), hback⟩

end step

/-! ## Runs of samples -/

/-- None of the samples that follow one at `px` trips a rule. -/
def ForwardsAll (px : Int32) (cursor travel : Int) : List PointerSample → Prop
  | [] => True
  | p :: samples =>
    let dx := (p.x.saturatingSub px).toInt
    Forwards p.x.toInt dx cursor travel ∧
      ForwardsAll p.x (min (cursor + dx) (2 ^ 20 - 1)) (max (travel - dx) 0) samples

theorem step_sample (c : MobileClient) (p : PointerSample) {dx dy : Int32}
    (hdelta : pointerDelta c.lastPointer p.x p.y = (dx, dy)) :
    pointerMachine.step c p =
      (⟨(c.core.onLocalInput (.cursorMoved p.displayId p.x p.y dx dy)).1, some (p.x, p.y)⟩,
        (c.core.onLocalInput (.cursorMoved p.displayId p.x p.y dx dy)).2) := by
  simp only [pointerMachine, sendPointerMoved, hdelta, feed]

/-- A sample that is forwarded leaves the rest to the samples after it. -/
theorem keepsControl_cons_of_forwarded {c : MobileClient} {peer : DeviceId} {p : PointerSample}
    {dx dy : Int32} (samples : List PointerSample)
    (hdelta : pointerDelta c.lastPointer p.x p.y = (dx, dy)) {t : EngineCore} {m : PointerMotion}
    (hforward : c.core.onLocalInput (.cursorMoved p.displayId p.x p.y dx dy) =
      (t, [.sendMotion m, .capture .suppress])) (howner : t.owner = peer) :
    KeepsControl peer (pointerMachine.trace c (p :: samples)) ↔
      KeepsControl peer (pointerMachine.trace ⟨t, some (p.x, p.y)⟩ samples) := by
  have hstep := step_sample c p hdelta
  rw [hforward] at hstep
  rw [Machine.trace_cons, KeepsControl, List.forall_mem_cons, Machine.entry, hstep]
  exact and_iff_right ⟨⟨m, rfl⟩, howner⟩

/-- A sample whose first action is another one ends it. -/
theorem not_keepsControl_cons {c : MobileClient} {peer : DeviceId} {p : PointerSample}
    {dx dy : Int32} (samples : List PointerSample)
    (hdelta : pointerDelta c.lastPointer p.x p.y = (dx, dy))
    (hback : ∀ m, (c.core.onLocalInput (.cursorMoved p.displayId p.x p.y dx dy)).2.head? ≠
      some (.sendMotion m)) :
    ¬ KeepsControl peer (pointerMachine.trace c (p :: samples)) := by
  intro hkeeps
  obtain ⟨⟨m, hm⟩, -⟩ := hkeeps _ (.head _)
  rw [Machine.entry_output, step_sample c p hdelta] at hm
  exact hback m (congrArg List.head? hm)

/-- The run of the engine, as a condition on the samples. -/
theorem keepsControl_iff_forwardsAll {c : MobileClient} {peer : DeviceId} {cursor travel : Int}
    {px py : Int32} (h : Controls c.core peer cursor travel) (hlast : c.lastPointer = some (px, py))
    (samples : List PointerSample) :
    KeepsControl peer (pointerMachine.trace c samples) ↔
      ForwardsAll px cursor travel samples := by
  induction samples generalizing c cursor travel px py with
  | nil => exact iff_of_true (List.forall_mem_nil _) trivial
  | cons p samples ih =>
    have hdelta : pointerDelta c.lastPointer p.x p.y =
        (p.x.saturatingSub px, p.y.saturatingSub py) := by
      rw [hlast]
      rfl
    rw [ForwardsAll]
    rcases h.cursorMoved p.displayId p.x p.y (p.x.saturatingSub px) (p.y.saturatingSub py) with
      ⟨hforwards, t, m, hforward, hcontrols⟩ | ⟨hnot, hback⟩
    · rw [keepsControl_cons_of_forwarded samples hdelta hforward hcontrols.owner,
        ih hcontrols rfl]
      exact (and_iff_right hforwards).symm
    · refine iff_of_false (not_keepsControl_cons samples hdelta ?_) fun hall => hnot hall.1
      intro m
      rw [hback]
      nofun

/-! ### The samples that trip no rule -/

section samples

variable {px x : Int32} {cursor travel sum : Int}

/-- A delta saturates to the right, and to the left only from the left margin. -/
theorem delta_eq (h : ¬ (x.toInt ≤ 8 ∧ x.toInt < px.toInt)) :
    (x.saturatingSub px).toInt = min (x.toInt - px.toInt) (2 ^ 31 - 1) := by
  have hx := x.le_toInt
  have hpx := px.toInt_lt
  rw [Int32.toInt_saturatingSub]
  omega

/-- While the sum of the deltas is positive, a sample trips a rule only by its position: at the left
margin, or too far to the left of the rightmost one. -/
theorem forwards_iff (hcalm : 0 ≤ travel ∧ travel < 64)
    (hcursor : min sum (2 ^ 20 - 1 - travel) ≤ cursor)
    (hsum : 0 < sum + (x.saturatingSub px).toInt) :
    Forwards x.toInt (x.saturatingSub px).toInt cursor travel ↔
      ¬ (x.toInt ≤ 8 ∧ x.toInt < px.toInt) ∧ px.toInt + travel - x.toInt < 64 := by
  have hx := x.le_toInt
  have hx' := x.toInt_lt
  have hpx := px.le_toInt
  have hpx' := px.toInt_lt
  refine ⟨?_, ?_⟩
  · intro h
    have hmargin := h.margin
    have hescape := h.escape
    rw [Int32.toInt_saturatingSub] at hmargin hescape
    omega
  · rintro ⟨hmargin, hescape⟩
    have hdelta := delta_eq hmargin
    refine ⟨?_, ?_, ?_⟩ <;> omega

/-- The travel keeps the distance to the rightmost sample. -/
theorem travel_eq (hcalm : 0 ≤ travel ∧ travel < 64)
    (hmargin : ¬ (x.toInt ≤ 8 ∧ x.toInt < px.toInt)) :
    x.toInt + max (travel - (x.saturatingSub px).toInt) 0 = max (px.toInt + travel) x.toInt := by
  have hdelta := delta_eq hmargin
  omega

end samples

theorem staysRight_nil : StaysRight [] := ⟨.nil, .nil⟩

theorem staysRight_cons (p : PointerSample) (samples : List PointerSample) :
    StaysRight (p :: samples) ↔
      (∀ q ∈ samples.head?, ¬ (q.x.toInt ≤ 8 ∧ q.x.toInt < p.x.toInt)) ∧
      (∀ q ∈ samples, p.x.toInt - q.x.toInt < 64) ∧ StaysRight samples := by
  have hmargin : ∀ q : PointerSample, ¬ (q.x ≤ edgeRearmMargin ∧ q.x < p.x) ↔
      ¬ (q.x.toInt ≤ 8 ∧ q.x.toInt < p.x.toInt) := fun q => by
    rw [Int32.le_iff_toInt_le, Int32.lt_iff_toInt_lt]
    rfl
  refine ⟨?_, ?_⟩
  · rintro ⟨hescape, hchain⟩
    obtain ⟨hfirst, hescape⟩ := List.pairwise_cons.1 hescape
    obtain ⟨hnext, hchain⟩ := List.isChain_cons.1 hchain
    exact ⟨fun q hq => (hmargin q).1 (hnext q hq), hfirst, hescape, hchain⟩
  · rintro ⟨hnext, hfirst, hescape, hchain⟩
    exact ⟨List.pairwise_cons.2 ⟨hfirst, hescape⟩,
      List.isChain_cons.2 ⟨fun q hq => (hmargin q).2 (hnext q hq), hchain⟩⟩

/-- The samples that follow one at `px`, when the rightmost sample so far is `travel` to the right
of it. -/
theorem forwardsAll_iff {px : Int32} {cursor travel sum : Int} (samples : List PointerSample)
    (hcalm : 0 ≤ travel ∧ travel < 64) (hcursor : min sum (2 ^ 20 - 1 - travel) ≤ cursor)
    (hsum : ∀ ps, ps <+: samples → 0 < sum + (deltas (some px) ps).sum) :
    ForwardsAll px cursor travel samples ↔
      (∀ q ∈ samples.head?, ¬ (q.x.toInt ≤ 8 ∧ q.x.toInt < px.toInt)) ∧
      (∀ q ∈ samples, px.toInt + travel - q.x.toInt < 64) ∧ StaysRight samples := by
  induction samples generalizing px cursor travel sum with
  | nil => exact iff_of_true trivial ⟨nofun, nofun, staysRight_nil⟩
  | cons p samples ih =>
    have hone : 0 < sum + (p.x.saturatingSub px).toInt := by
      simpa [deltas] using hsum [p] ⟨samples, rfl⟩
    have hrest : ∀ ps, ps <+: samples →
        0 < sum + (p.x.saturatingSub px).toInt + (deltas (some p.x) ps).sum := by
      intro ps hps
      have hps' := hsum (p :: ps) ((List.prefix_cons_inj p).2 hps)
      simpa [deltas, add_assoc] using hps'
    have hforwards := forwards_iff hcalm hcursor hone
    rw [ForwardsAll, List.head?_cons, List.forall_mem_cons, staysRight_cons]
    rw [hforwards]
    refine ⟨?_, ?_⟩
    · rintro ⟨⟨hmargin, hescape⟩, hall⟩
      have htravel := travel_eq hcalm hmargin
      have hdelta := delta_eq hmargin
      obtain ⟨hnext, hpeak, hstays⟩ := (ih (by omega) (by omega) hrest).1 hall
      refine ⟨by simpa using hmargin, ⟨hescape, ?_⟩, hnext, ?_, hstays⟩
      · intro q hq
        have := hpeak q hq
        omega
      · intro q hq
        have := hpeak q hq
        omega
    · rintro ⟨hmargin, ⟨hescape, hfar⟩, hnext, hnear, hstays⟩
      have hmargin' : ¬ (p.x.toInt ≤ 8 ∧ p.x.toInt < px.toInt) := hmargin p rfl
      have htravel := travel_eq hcalm hmargin'
      have hdelta := delta_eq hmargin'
      refine ⟨⟨hmargin', hescape⟩, (ih (by omega) (by omega) hrest).2 ⟨hnext, ?_, hstays⟩⟩
      intro q hq
      have := hfar q hq
      have := hnear q hq
      omega

/-! ## The connection -/

/-- A peer cursor that does not come back to the edge is forwarded. -/
theorem forwardCursor_of_not_crossesBack {s : EngineCore} {dx dy : Int32}
    (h : s.crossesBack dx dy = false) :
    s.forwardCursor dx dy =
      ({ s with outSeq := s.outSeq.saturatingAdd 1 },
        [.sendMotion
          { ownerEpoch := s.epoch, seq := s.outSeq.saturatingAdd 1, displayId := 0,
            x := s.peerX, y := s.peerY },
         .capture .suppress]) := by
  rw [EngineCore.forwardCursor, h, Bool.and_false, if_neg Bool.false_ne_true]
  rfl

/-- The second seed moves the peer cursor off the edge, which arms the rule for coming back. -/
theorem movePeerCursor_seed {s : EngineCore}
    (hlayout : s.layout = .sideBySide 1 virtualSpan virtualSpan virtualSpan) (hx : s.peerX = 0)
    (harmed : s.reclaimArmed = false) :
    s.movePeerCursor seedStep 0 =
      { s with
        peerX := seedStep
        peerY := clamp (s.peerY.saturatingAdd 0) 0 (max (s.layout.peerHeight.saturatingSub 1) 0)
        reclaimArmed := true } := by
  have hclamp : clamp ((0 : Int32).saturatingAdd seedStep) 0
      (max (virtualSpan.saturatingSub 1) 0) = seedStep := by decide
  have hleft : (0 : Int32) < seedStep := by decide
  simp only [EngineCore.movePeerCursor, EngineCore.peerLeftEntryEdge, harmed, hx, hlayout,
    EdgeLayout.sideBySide, EdgeLayout.withEdge, hclamp]
  simp [hleft]

/-- The second seed is no way back: it is forwarded. -/
theorem secondSeed (y : Int32) {s : EngineCore} (hrole : s.role = .source)
    (howner : s.isOwner = false)
    (hlayout : s.layout = .sideBySide 1 virtualSpan virtualSpan virtualSpan)
    (htravel : s.escapeTravel = 0) (hx : s.peerX = 0) (harmed : s.reclaimArmed = false) :
    Controls (s.onLocalInput (.cursorMoved 0 seedStep y seedStep 0)).1 s.owner 16 0 ∧
      (s.onLocalInput (.cursorMoved 0 seedStep y seedStep 0)).1.pendingAck = s.pendingAck ∧
      (s.onLocalInput (.cursorMoved 0 seedStep y seedStep 0)).1.epoch = s.epoch := by
  have hmargin : ¬ s.localEscapeBack seedStep y seedStep 0 = true := by
    rw [EngineCore.localEscapeBack, hlayout]
    exact Bool.false_ne_true
  have hstay : max (s.escapeTravel + s.homewardDelta seedStep 0) 0 = 0 := by
    rw [EngineCore.homewardDelta, htravel, hlayout]
    decide
  have hthreshold : ¬ (0 : Int32) ≥ EngineCore.escapeThreshold { s with escapeTravel := 0 } := by
    rw [EngineCore.escapeThreshold, hlayout]
    decide
  rw [EngineCore.onLocalInput, if_neg fun hnot => hnot hrole, howner]
  simp only [EngineCore.onCursor, Bool.false_eq_true, if_false, if_neg hmargin, hstay,
    if_neg hthreshold]
  have hmove := movePeerCursor_seed (s := { s with escapeTravel := 0 }) hlayout hx harmed
  rw [hmove, forwardCursor_of_not_crossesBack]
  · refine ⟨?_, rfl, rfl⟩
    exact
      { role := hrole
        layout := hlayout
        isOwner := howner
        owner := rfl
        armed := rfl
        peerX := rfl
        escapeTravel := rfl
        inBox := by decide
        calm := by decide }
  · rw [EngineCore.crossesBack, hlayout]
    rfl

theorem newCore_isOwner (me peer : DeviceId) : (newCore me peer).isOwner = true := by
  simp [newCore, EngineCore.newSource, EngineCore.new, EngineCore.isOwner, Ownership.isOwner,
    Ownership.new]

/-- The first seed crosses out. -/
theorem firstSeed (y : Int32) {s : EngineCore} (hrole : s.role = .source)
    (howner : s.isOwner = true)
    (hlayout : s.layout = .sideBySide 1 virtualSpan virtualSpan virtualSpan)
    (harmed : s.crossOutArmed = true) (hfree : s.suppressBlocked = false) :
    s.onLocalInput (.cursorMoved 0 0 y 0 0) = s.crossToPeer 0 y := by
  have hout : s.crossesOut 0 y 0 0 = true := by
    rw [EngineCore.crossesOut, hlayout]
    rfl
  rw [EngineCore.onLocalInput, if_neg fun h => h hrole, howner]
  simp only [EngineCore.onCursor, harmed, hfree, hout]
  rfl

/-- The ack of the grant that waits for one. -/
theorem acked_core {c : MobileClient} (hack : c.core.pendingAck = some (.new c.core.epoch)) :
    c.acked.core =
      { c.core with pendingAck := none, outSeq := c.core.outSeq.saturatingAdd 1 } := by
  simp only [acked, EngineCore.onControl, EngineCore.onOwnershipAck, hack]
  simp [PendingAck.new, EngineCore.nextSeq]

/-- The peer owns input once it has accepted the grant, with its cursor off the edge. -/
theorem controls_acked {me peer : DeviceId} (hne : peer ≠ me) :
    Controls (connect me peer).acked.core peer 16 0 := by
  have hown := newCore_isOwner me peer
  have hcross := (newCore me peer).crossToPeer_eq hown 0 (virtualSpan / 2)
  have howner : ((newCore me peer).crossToPeer 0 (virtualSpan / 2)).1.isOwner = false := by
    rw [EngineCore.crossToPeer_isOwner _ hown]
    exact decide_eq_false hne
  have hcore : (connect me peer).core =
      (((newCore me peer).crossToPeer 0 (virtualSpan / 2)).1.onLocalInput
        (.cursorMoved 0 seedStep (virtualSpan / 2) seedStep 0)).1 := by
    rw [connect, seeds, List.foldl_cons, List.foldl_cons, List.foldl_nil,
      firstSeed (virtualSpan / 2) rfl hown rfl rfl rfl]
  obtain ⟨hcontrols, hpending, hepoch⟩ := secondSeed (virtualSpan / 2)
    (s := ((newCore me peer).crossToPeer 0 (virtualSpan / 2)).1) (by rw [hcross]; rfl) howner
    (by rw [hcross]; rfl) (by rw [hcross]) (by rw [hcross]; rfl) (by rw [hcross])
  rw [← hcore] at hcontrols hpending hepoch
  have hpeer : ((newCore me peer).crossToPeer 0 (virtualSpan / 2)).1.owner = peer := by
    rw [hcross]
    change ((newCore me peer).ownership.grantTo peer).1.owner = peer
    rw [Ownership.grantTo_of_isOwner hown]
  have hgrant : ((newCore me peer).ownership.grantTo peer).1.epoch =
      (newCore me peer).epoch.saturatingAdd 1 := by
    rw [Ownership.grantTo_of_isOwner hown]
    rfl
  have hack : (connect me peer).core.pendingAck = some (.new (connect me peer).core.epoch) := by
    rw [hpending, hepoch, hcross]
    exact congrArg (fun e => some (PendingAck.new e)) hgrant.symm
  rw [hpeer] at hcontrols
  rw [acked_core hack]
  exact { hcontrols with }

/-- A device that owns input forwards no sample. -/
theorem head_of_isOwner {s : EngineCore} (hown : s.isOwner = true) (event : LocalInputEvent)
    (m : PointerMotion) : (s.onLocalInput event).2.head? ≠ some (.sendMotion m) := by
  unfold EngineCore.onLocalInput
  split
  · nofun
  · rw [hown]
    cases event with
    | cursorMoved d x y dx dy =>
      simp only [EngineCore.onCursor, if_true]
      split
      · nofun
      · split
        · rw [EngineCore.crossToPeer_eq s hown]
          nofun
        · nofun
    | key | button | scroll => nofun

/-- The device has input, and does not hand it to another one. -/
structure KeepsInput (s : EngineCore) : Prop where
  role : s.role = .source
  isOwner : s.isOwner = true
  stays : s.suppressBlocked = true ∨ s.peer = s.me

theorem KeepsInput.localInput {s : EngineCore} (h : KeepsInput s) (event : LocalInputEvent) :
    KeepsInput (s.onLocalInput event).1 := by
  unfold EngineCore.onLocalInput
  split
  · exact h
  · rw [h.isOwner]
    cases event with
    | cursorMoved d x y dx dy =>
      simp only [EngineCore.onCursor, if_true]
      split
      · exact ⟨h.role, h.isOwner, h.stays⟩
      · split
        · next hx =>
          have hself : s.peer = s.me := h.stays.resolve_left fun hblocked => by
            simp [hblocked] at hx
          refine ⟨?_, ?_, .inr ?_⟩
          · rw [s.crossToPeer_eq h.isOwner]
            exact h.role
          · rw [s.crossToPeer_isOwner h.isOwner]
            exact decide_eq_true hself
          · rw [s.crossToPeer_eq h.isOwner, Ownership.grantTo_of_isOwner h.isOwner]
            exact hself
        · exact h
    | key | button | scroll => exact h

theorem isOwner_acked {c : MobileClient} (hown : c.core.isOwner = true) :
    c.acked.core.isOwner = true := by
  simp only [acked, EngineCore.onControl, EngineCore.onOwnershipAck]
  split
  · exact hown
  · split
    · exact hown
    · exact hown

/-- **The phone keeps control exactly while its samples stay right.** For the engine that `connect`
builds, after the peer's ack, and samples whose sum keeps the virtual peer cursor off the left edge:
every sample is forwarded and the peer stays the owner if and only if no sample lies 64 or more to
the left of an earlier one, none at 8 or less moves left, and the peer is another device. -/
theorem keepsControl_iff (me peer : DeviceId) (samples : List PointerSample)
    (hcursor : ∀ ps, ps <+: samples → 0 < virtualCursor ps) :
    KeepsControl peer (pointerMachine.trace (connect me peer).acked samples) ↔
      StaysRight samples ∧ (samples = [] ∨ peer ≠ me) := by
  cases samples with
  | nil => exact iff_of_true (List.forall_mem_nil _) ⟨staysRight_nil, .inl rfl⟩
  | cons p samples =>
    have hdelta : pointerDelta (connect me peer).acked.lastPointer p.x p.y = (0, 0) := rfl
    have h0 : (0 : Int32).toInt = 0 := rfl
    by_cases hne : peer = me
    · refine iff_of_false (not_keepsControl_cons samples hdelta (head_of_isOwner ?_ _)) ?_
      · subst hne
        have hkeeps : KeepsInput (newCore peer peer) :=
          ⟨rfl, newCore_isOwner peer peer, .inr rfl⟩
        exact isOwner_acked ((hkeeps.localInput _).localInput _).isOwner
      · rintro ⟨-, hnil | hother⟩
        · cases hnil
        · exact hother hne
    · have hcontrols := controls_acked hne
      rcases hcontrols.cursorMoved p.displayId p.x p.y 0 0 with
        ⟨-, t, m, hforward, hnext⟩ | ⟨hnot, -⟩
      · have hsum : ∀ ps, ps <+: samples → 0 < (16 : Int) + (deltas (some p.x) ps).sum := by
          intro ps hps
          have hpos := hcursor (p :: ps) ((List.prefix_cons_inj p).2 hps)
          have hseed : seedStep.toInt = 16 := rfl
          simp only [virtualCursor, deltas, List.sum_cons, Option.elim_none, zero_add] at hpos
          omega
        rw [h0] at hnext
        rw [keepsControl_cons_of_forwarded samples hdelta hforward hnext.owner,
          keepsControl_iff_forwardsAll hnext rfl samples,
          forwardsAll_iff samples (by omega) (by omega) hsum, staysRight_cons]
        simp [hne]
      · exact absurd ⟨fun hm => by rw [h0] at hm; omega, by rw [h0]; omega, by rw [h0]; omega⟩ hnot

/-- A drag to the right and back. -/
def drag : List PointerSample := [⟨0, 500, 300⟩, ⟨0, 560, 310⟩, ⟨0, 520, 320⟩]

theorem drag_keepsControl :
    KeepsControl (.fill 2) (pointerMachine.trace (connect (.fill 1) (.fill 2)).acked drag) ↔
      StaysRight drag ∧ (drag = [] ∨ DeviceId.fill 2 ≠ .fill 1) := by
  have hcursor : ∀ ps ∈ drag.inits, 0 < virtualCursor ps := by decide
  exact keepsControl_iff _ _ drag fun ps hps => hcursor ps ((List.mem_inits _ _).2 hps)

/-- Samples at 0, 1000 and 936. The peer cursor ends at 952, far from the edge. -/
def leftward : List PointerSample := [⟨0, 0, 0⟩, ⟨0, 1000, 0⟩, ⟨0, 936, 0⟩]

/-- **A leftward drag gives input back.** -/
theorem leftward_reclaims :
    ¬ ∀ samples : List PointerSample, (∀ ps, ps <+: samples → 0 < virtualCursor ps) →
      KeepsControl (.fill 2)
        (pointerMachine.trace (connect (.fill 1) (.fill 2)).acked samples) := by
  intro h
  have hcursor : ∀ ps ∈ leftward.inits, 0 < virtualCursor ps := by decide
  have hkeeps := h leftward fun ps hps => hcursor ps ((List.mem_inits _ _).2 hps)
  have howner : ∀ e ∈ pointerMachine.trace (connect (.fill 1) (.fill 2)).acked leftward,
      e.post.core.owner = .fill 2 := fun e he => (hkeeps e he).2
  revert howner
  decide

end MobileClient

end Mouser
