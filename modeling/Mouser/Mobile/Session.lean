import Mouser.Engine.Runtime
import Mouser.Mobile.Client

/-!
# The session of a mobile controller

`connect` starts the runtime with an injector and a capture adapter that do nothing, and feeds it
the two seeds. The phone's calls come one after the other, on one thread: each holds the session's
lock.

The adapter says that it cannot suppress local input. When the mode task comes to the forwarding
mode, which the first seed asked for, the runtime fails closed: the core takes input back and does
not cross out again. `forwarded_iff` says that this is all that can go wrong.
-/

namespace Mouser

/-- A call of the phone that the engine forwards on the control stream. -/
inductive AppCall where
  | key (usage : UInt16) (down : Bool) (mods : UInt16)
  | button (button : UInt8) (down : Bool)
  | scroll (dx dy : Int32)
deriving DecidableEq

/-- What `send_key`, `send_button` and `send_scroll` feed the engine. -/
def AppCall.event : AppCall → LocalInputEvent
  | .key usage down mods => .key usage down mods
  | .button b down => .button b down
  | .scroll dx dy => .scroll dx dy

/-- The call an input frame carries, and its epoch. -/
def ControlFrame.appCall? : ControlFrame → Option (AppCall × UInt64)
  | .keyEvent (some k) => some (.key k.usage k.down k.mods, k.ownerEpoch)
  | .pointerButton (some b) => some (.button b.button b.down, b.ownerEpoch)
  | .scroll (some w) => some (.scroll w.dx w.dy, w.ownerEpoch)
  | _ => none

/-- The calls that the frames on `out_tx` carry. -/
def sentCalls (out : List Outgoing) : List (AppCall × UInt64) :=
  out.filterMap fun
    | .control frame => frame.appCall?
    | .motion _ => none

/-- The calls that go to `out_tx` when the actions are handed out. -/
def inputCalls (acts : List Action) : List (AppCall × UInt64) :=
  sentCalls (acts.filterMap (·.outgoing?))

/-- The frames of a peer that accepts the grant and stays: it claims nothing, refuses nothing and
does not leave. -/
def ControlFrame.isCooperative : ControlFrame → Bool
  | .ownershipTransfer _ | .goodbye _ => false
  | .ownershipAck (some ack) => ack.accepted
  | _ => true

/-- The connection to one peer. -/
structure Session where
  runtime : Runtime
  /-- The seeds that `connect` has not fed. -/
  seeds : List LocalInputEvent
  /-- The calls made so far. -/
  calls : List AppCall

inductive SessionEvent where
  /-- `connect` feeds the next seed. -/
  | seed
  | call (call : AppCall)
  /-- A control frame of the peer arrives. -/
  | peer (frame : ControlFrame)
  | tick
  /-- The mode task takes the next mode. -/
  | mode
  /-- A task hands out its next action. -/
  | dispatch (t : RuntimeTask)

namespace Session

open MobileClient (KeepsInput)

/-- The thread the phone calls on. -/
def app : RuntimeTask := .local 0

def start (me peer : DeviceId) : Session where
  runtime := .start (MobileClient.newCore me peer) 0
  seeds := MobileClient.seeds
  calls := []

/-- `connect` feeds the next seed. -/
def feedSeed (s : Session) : Session :=
  match s.runtime.pending app, s.seeds with
  | [], event :: seeds => { s with runtime := s.runtime.step (.localInput 0 event), seeds }
  | _, _ => s

/-- The phone calls, once `connect` has returned. -/
def feed (s : Session) (call : AppCall) : Session :=
  match s.runtime.pending app, s.seeds with
  | [], [] =>
    { s with
      runtime := s.runtime.step (.localInput 0 call.event)
      calls := s.calls ++ [call] }
  | _, _ => s

/-- `NoopCapture` takes every mode and cannot suppress; `NoopInjector` never fails. -/
def step (s : Session) : SessionEvent → Session
  | .seed => s.feedSeed
  | .call call => s.feed call
  | .peer frame => { s with runtime := s.runtime.step (.control frame) }
  | .tick => { s with runtime := s.runtime.step .tick }
  | .mode => { s with runtime := s.runtime.step (.mode true false) }
  | .dispatch t => { s with runtime := s.runtime.step (.dispatch t true) }

def machine : Machine Session SessionEvent Unit := ⟨fun s e => (s.step e, ())⟩

/-! ## What is asked of a run -/

/-- The tick that comes next finds the peer alive: it has answered the grant in time, and its
heartbeats have kept the misses below the limit. -/
def Alive (s : EngineCore) : Prop :=
  s.misses.saturatingAdd 1 < heartbeatMissLimit ∧ ∀ p ∈ s.pendingAck, p.ticksLeft ≠ 0

instance (s : EngineCore) : Decidable (Alive s) := by unfold Alive; infer_instance

/-- The peer accepts the grant and keeps sending heartbeats. -/
def PeerStays (e : Machine.Entry Session SessionEvent Unit) : Prop :=
  match e.input with
  | .peer frame => frame.isCooperative = true
  | .tick => e.pre.runtime.pending .ticker = [] → Alive e.pre.runtime.core
  | _ => True

instance (e : Machine.Entry Session SessionEvent Unit) : Decidable (PeerStays e) := by
  unfold PeerStays
  split <;> infer_instance

/-- The mode task comes to the forwarding mode. -/
def TakesForward (e : Machine.Entry Session SessionEvent Unit) : Prop :=
  match e.input with
  | .mode =>
    e.pre.runtime.pending .mode = [] ∧ e.pre.runtime.modes.head? = some .activeForward
  | _ => False

/-- After the seeds the peer owns input, and the calls made so far are the calls on `out_tx` and the
one being handed out, each once, in order and with the current epoch. -/
def Forwarded (peer : DeviceId) (s : Session) : Prop :=
  s.seeds = [] →
    s.runtime.core.owner = peer ∧
      sentCalls s.runtime.out ++ inputCalls (s.runtime.pending app) =
        s.calls.map fun call => (call, s.runtime.core.epoch)

/-! ## The calls on the core -/

/-- What the seeds and the calls go by. -/
structure Stance where
  role : Role
  peer : DeviceId
  layout : EdgeLayout
  ownership : Ownership
  peerX : Int32
  escapeTravel : Int32
  reclaimArmed : Bool
  crossOutArmed : Bool
  suppressBlocked : Bool

def stance (s : EngineCore) : Stance where
  role := s.role
  peer := s.peer
  layout := s.layout
  ownership := s.ownership
  peerX := s.peerX
  escapeTravel := s.escapeTravel
  reclaimArmed := s.reclaimArmed
  crossOutArmed := s.crossOutArmed
  suppressBlocked := s.suppressBlocked

/-- The result of a call that moves counters and timers, and forwards no input. -/
structure Steady (s : EngineCore) (r : EngineCore × List Action) : Prop where
  stance : stance r.1 = stance s
  inputs : inputCalls r.2 = []

section core

variable {s : EngineCore}

theorem inputCalls_cons (act : Action) (acts : List Action) :
    inputCalls (act :: acts) = sentCalls act.outgoing?.toList ++ inputCalls acts := by
  unfold inputCalls sentCalls
  cases h : act.outgoing? with
  | none => rw [List.filterMap_cons_none h]; rfl
  | some o => rw [List.filterMap_cons_some h, ← List.filterMap_append]; rfl

theorem sentCalls_append (as bs : List Outgoing) :
    sentCalls (as ++ bs) = sentCalls as ++ sentCalls bs :=
  List.filterMap_append

theorem inputCalls_append (as bs : List Action) :
    inputCalls (as ++ bs) = inputCalls as ++ inputCalls bs := by
  rw [inputCalls, List.filterMap_append, sentCalls_append]
  rfl

theorem steady_tickMisses {r : EngineCore} {acts : List Action} (hr : stance r = stance s)
    (ha : inputCalls acts = []) (h : r.misses.saturatingAdd 1 < heartbeatMissLimit) :
    Steady s (r.tickMisses acts) := by
  have hlimit : ¬ (r.misses.saturatingAdd 1 ≥ heartbeatMissLimit) := by
    rw [UInt32.lt_iff_toNat_lt] at h
    exact fun hle => absurd (UInt32.le_iff_toNat_le.1 hle) (Nat.not_le.2 h)
  unfold EngineCore.tickMisses
  dsimp only
  rw [if_neg fun hdead => hlimit hdead.2.2]
  exact ⟨hr, ha⟩

theorem steady_tick (h : Alive s) : Steady s s.onTick := by
  obtain ⟨hmisses, hwaits⟩ := h
  unfold EngineCore.onTick
  dsimp only
  split
  · next p hp =>
    rw [if_neg (hwaits p hp)]
    exact steady_tickMisses rfl rfl hmisses
  · exact steady_tickMisses rfl rfl hmisses

theorem steady_ack {ack : OwnershipAck} (hacc : ack.accepted = true) :
    Steady s (s.onOwnershipAck (some ack)) := by
  simp only [EngineCore.onOwnershipAck]
  split
  · exact ⟨rfl, rfl⟩
  · split
    · exact ⟨rfl, rfl⟩
    · rw [hacc]
      exact ⟨rfl, rfl⟩

theorem steady_key (payload : Option KeyEvent) : Steady s (s.onKey payload) := by
  cases payload with
  | none => exact ⟨rfl, rfl⟩
  | some k =>
    simp only [EngineCore.onKey]
    split
    · exact ⟨rfl, rfl⟩
    · split <;> exact ⟨rfl, rfl⟩

theorem steady_button (payload : Option PointerButton) : Steady s (s.onButton payload) := by
  cases payload with
  | none => exact ⟨rfl, rfl⟩
  | some b =>
    simp only [EngineCore.onButton]
    split <;> exact ⟨rfl, rfl⟩

theorem steady_scroll (payload : Option Scroll) : Steady s (s.onScroll payload) := by
  cases payload with
  | none => exact ⟨rfl, rfl⟩
  | some w =>
    simp only [EngineCore.onScroll]
    split
    · exact ⟨rfl, rfl⟩
    · split <;> exact ⟨rfl, rfl⟩

theorem steady_control {f : ControlFrame} (hf : f.isCooperative = true) :
    Steady s (s.onControl f) := by
  cases f with
  | ownershipTransfer | goodbye => cases hf
  | ownershipAck payload =>
    cases payload with
    | none => exact ⟨rfl, rfl⟩
    | some ack => exact steady_ack hf
  | keyEvent payload => exact steady_key payload
  | pointerButton payload => exact steady_button payload
  | scroll payload => exact steady_scroll payload
  | ping payload => cases payload <;> exact ⟨rfl, rfl⟩
  | pong | heartbeat | other => exact ⟨rfl, rfl⟩

/-! ### A device that has input -/

/-- The cursor sends no input frame. -/
theorem inputCalls_onCursor (s : EngineCore) (x y dx dy : Int32) (owns : Bool) :
    inputCalls (s.onCursor x y dx dy owns).2 = [] := by
  have hwarp : ∀ r : EngineCore, inputCalls [r.entryEdgeWarp] = [] := by
    intro r
    unfold EngineCore.entryEdgeWarp
    dsimp only
    split <;> rfl
  have hcross : inputCalls (s.crossToPeer x y).2 = [] := by
    unfold EngineCore.crossToPeer
    split <;> rfl
  unfold EngineCore.onCursor
  split
  · dsimp only
    split
    · rfl
    · split
      · exact hcross
      · rfl
  · split
    · rfl
    · dsimp only
      split
      · rfl
      · unfold EngineCore.forwardCursor
        split
        · exact (inputCalls_append _ _).trans (by rw [hwarp]; rfl)
        · rfl

theorem inputCalls_cursorMoved (s : EngineCore) (d : UInt32) (x y dx dy : Int32) :
    inputCalls (s.onLocalInput (.cursorMoved d x y dx dy)).2 = [] := by
  unfold EngineCore.onLocalInput
  split
  · rfl
  · exact inputCalls_onCursor s x y dx dy s.isOwner

/-- The owner forwards nothing. -/
theorem inputCalls_of_isOwner (hown : s.isOwner = true) (event : LocalInputEvent) :
    inputCalls (s.onLocalInput event).2 = [] := by
  cases event with
  | cursorMoved d x y dx dy => exact inputCalls_cursorMoved s d x y dx dy
  | key | button | scroll =>
    unfold EngineCore.onLocalInput
    split
    · rfl
    · rw [hown]
      rfl

/-- A report that the source cannot suppress leaves it with input. -/
theorem keepsInput_suppressUnavailable (hrole : s.role = .source) :
    KeepsInput s.onSuppressUnavailable.1 ∧ inputCalls s.onSuppressUnavailable.2 = [] := by
  unfold EngineCore.onSuppressUnavailable
  rw [if_neg (by simp [hrole])]
  dsimp only
  split
  · next hown => exact ⟨⟨hrole, hown, .inl rfl⟩, rfl⟩
  · exact ⟨⟨hrole, decide_eq_true rfl, .inl rfl⟩, rfl⟩

theorem keepsInput_steady {r : EngineCore × List Action} (h : KeepsInput s) (hr : Steady s r) :
    KeepsInput r.1 := by
  have hown : r.1.ownership = s.ownership := congrArg Stance.ownership hr.stance
  have hpeer : r.1.peer = s.peer := congrArg Stance.peer hr.stance
  have hblocked : r.1.suppressBlocked = s.suppressBlocked :=
    congrArg Stance.suppressBlocked hr.stance
  refine ⟨(congrArg Stance.role hr.stance).trans h.role, ?_, ?_⟩
  · rw [EngineCore.isOwner, hown]
    exact h.isOwner
  · rw [hblocked, hpeer, EngineCore.me, hown]
    exact h.stays

/-! ### From the seeds on -/

/-- What the seeds that are left say of the core, as long as the core is not told that it cannot
suppress. -/
inductive Course (peer : DeviceId) (left : List LocalInputEvent) (st : Stance) : Prop
  /-- The core has input, and the first seed will cross out. -/
  | fresh (hleft : left = MobileClient.seeds) (hrole : st.role = .source)
      (hlayout : st.layout = .sideBySide 1 virtualSpan virtualSpan virtualSpan)
      (hpeer : st.peer = peer) (hne : peer ≠ st.ownership.me)
      (hown : st.ownership.isOwner = true) (harmed : st.crossOutArmed = true)
      (hfree : st.suppressBlocked = false)
  /-- The peer has input, its cursor on the edge. -/
  | crossed (hleft : left = MobileClient.seeds.tail) (hrole : st.role = .source)
      (hlayout : st.layout = .sideBySide 1 virtualSpan virtualSpan virtualSpan)
      (hown : st.ownership.isOwner = false) (howner : st.ownership.owner = peer)
      (htravel : st.escapeTravel = 0) (hx : st.peerX = 0) (harmed : st.reclaimArmed = false)
  /-- The peer has input. -/
  | forwarding (hleft : left = []) (hrole : st.role = .source)
      (hown : st.ownership.isOwner = false) (howner : st.ownership.owner = peer)

theorem course_start {me peer : DeviceId} (hne : peer ≠ me) :
    Course peer MobileClient.seeds (stance (MobileClient.newCore me peer)) :=
  .fresh rfl rfl rfl rfl hne (MobileClient.newCore_isOwner me peer) rfl rfl

/-- The next seed. -/
theorem Course.seed {peer : DeviceId} {event : LocalInputEvent} {left : List LocalInputEvent}
    (h : Course peer (event :: left) (stance s)) :
    Course peer left (stance (s.onLocalInput event).1) ∧
      inputCalls (s.onLocalInput event).2 = [] := by
  cases h with
  | fresh hleft hrole hlayout hpeer hne hown harmed hfree =>
    obtain ⟨rfl, rfl⟩ := List.cons.inj hleft
    have howns : s.isOwner = true := hown
    rw [MobileClient.firstSeed _ hrole howns hlayout harmed hfree, s.crossToPeer_eq howns]
    refine ⟨.crossed rfl hrole hlayout ?_ ?_ rfl ?_ rfl, rfl⟩
    · refine (s.grantTo_isOwner howns).trans (decide_eq_false ?_)
      exact fun hself => hne (hpeer.symm.trans hself)
    · show (s.ownership.grantTo s.peer).1.owner = peer
      rw [Ownership.grantTo_of_isOwner howns]
      exact hpeer
    · show (s.entryPoint 0 _).1 = 0
      have hedge : s.layout = .sideBySide 1 virtualSpan virtualSpan virtualSpan := hlayout
      rw [EngineCore.entryPoint, hedge]
      rfl
  | crossed hleft hrole hlayout hown howner htravel hx harmed =>
    obtain ⟨rfl, rfl⟩ := List.cons.inj hleft
    obtain ⟨hcontrols, -, -⟩ :=
      MobileClient.secondSeed (virtualSpan / 2) hrole hown hlayout htravel hx harmed
    have hpeer : s.owner = peer := howner
    rw [hpeer] at hcontrols
    exact ⟨.forwarding rfl hcontrols.role hcontrols.isOwner hcontrols.owner,
      inputCalls_cursorMoved s ..⟩
  | forwarding hleft => cases hleft

/-- A call once the seeds are fed. -/
theorem Course.call {peer : DeviceId} (h : Course peer [] (stance s)) (call : AppCall) :
    stance (s.onLocalInput call.event).1 = stance s ∧
      inputCalls (s.onLocalInput call.event).2 = [(call, s.epoch)] := by
  cases h with
  | fresh hleft | crossed hleft => cases hleft
  | forwarding hleft hrole hown howner =>
    have howns : s.isOwner = false := hown
    have hsource : s.role = .source := hrole
    unfold EngineCore.onLocalInput
    rw [if_neg fun hnot => hnot hsource, howns]
    cases call with
    | key | button | scroll => exact ⟨rfl, rfl⟩

end core

/-! ## The session, step by step -/

/-- The step of the runtime that an event of the session is. -/
inductive Runs : SessionEvent → RuntimeEvent → Prop
  | seed (event : LocalInputEvent) : Runs .seed (.localInput 0 event)
  | call (call : AppCall) : Runs (.call call) (.localInput 0 call.event)
  | peer (frame : ControlFrame) : Runs (.peer frame) (.control frame)
  | tick : Runs .tick .tick
  | mode : Runs .mode (.mode true false)
  | dispatch (t : RuntimeTask) : Runs (.dispatch t) (.dispatch t true)

section run

variable {peer : DeviceId} {s : Session}

/-- The invariant of a session whose mode task has not come to the forwarding mode. -/
structure Follows (peer : DeviceId) (s : Session) : Prop where
  course : Course peer s.seeds (stance s.runtime.core)
  early : s.seeds ≠ [] → s.calls = []
  sent : sentCalls s.runtime.out ++ inputCalls (s.runtime.pending app) =
    s.calls.map fun call => (call, s.runtime.core.epoch)
  others : ∀ t ≠ app, inputCalls (s.runtime.pending t) = []

theorem follows_start {me : DeviceId} (hne : peer ≠ me) : Follows peer (start me peer) where
  course := course_start hne
  early _ := rfl
  sent := rfl
  others t ht := by
    show inputCalls (Function.update (fun _ => []) app _ t) = []
    rw [Function.update_of_ne ht]
    rfl

/-- A task with no input frame to hand out has none after a step, unless it gets one from a call. -/
theorem inputs_moved {e : RuntimeEvent} {r : Runtime} (hmoved : s.runtime.Moved e r)
    (hinjected : ∀ t, e ≠ .dispatch t false) {t : RuntimeTask}
    (hcall : ∀ c, s.runtime.Calls e t c → inputCalls (s.runtime.core.call c).2 = [])
    (hnone : inputCalls (s.runtime.pending t) = []) : inputCalls (r.pending t) = [] := by
  cases hmoved with
  | still hcore hpending =>
    rw [hpending]
    exact hnone
  | @called t' c hcalls hcore hpending =>
    rw [hpending]
    by_cases heq : t = t'
    · subst heq
      rw [Function.update_self]
      exact hcall c hcalls
    · rw [Function.update_of_ne heq]
      exact hnone
  | @handed t' injected act rest he hact hcore hpending =>
    rw [hpending]
    by_cases heq : t = t'
    · subst heq
      rw [hact, inputCalls_cons] at hnone
      rw [Function.update_self]
      exact (List.append_eq_nil_iff.1 hnone).2
    · rw [Function.update_of_ne heq]
      exact hnone
  | failed he => exact absurd he (hinjected _)

/-- While the other tasks have no input frame, a step only moves those of `t` to `out_tx`. -/
theorem sent_moved {e : RuntimeEvent} {r : Runtime} (hmoved : s.runtime.Moved e r)
    (hinjected : ∀ t, e ≠ .dispatch t false) {t : RuntimeTask}
    (hcall : ∀ c, s.runtime.Calls e t c → inputCalls (s.runtime.core.call c).2 = [])
    (hothers : ∀ t' ≠ t, inputCalls (s.runtime.pending t') = []) :
    sentCalls r.out ++ inputCalls (r.pending t) =
      sentCalls s.runtime.out ++ inputCalls (s.runtime.pending t) := by
  cases hmoved with
  | still hcore hpending hout => rw [hpending, hout]
  | @called t' c hcalls hcore hpending hout =>
    rw [hpending, hout]
    by_cases heq : t = t'
    · subst heq
      rw [Function.update_self, hcall c hcalls, hcalls.idle]
      rfl
    · rw [Function.update_of_ne heq]
  | @handed t' injected act rest he hact hcore hpending hout =>
    have hinputs : inputCalls (s.runtime.pending t') =
        sentCalls act.outgoing?.toList ++ inputCalls rest := by
      rw [hact]
      exact inputCalls_cons act rest
    rw [hpending, hout, sentCalls_append]
    by_cases heq : t = t'
    · subst heq
      rw [Function.update_self, hinputs, List.append_assoc]
    · -- Another task hands out no input frame.
      have hnone := hothers t' (Ne.symm heq)
      rw [hinputs] at hnone
      rw [Function.update_of_ne heq, (List.append_eq_nil_iff.1 hnone).1, List.append_nil]
  | failed he => exact absurd he (hinjected _)

/-- A step of the runtime that makes at most a steady call, on a task other than the app. -/
theorem Follows.moved (h : Follows peer s) {e : RuntimeEvent}
    (hcall : ∀ t c, s.runtime.Calls e t c →
      t ≠ app ∧ Steady s.runtime.core (s.runtime.core.call c))
    (hinjected : ∀ t, e ≠ .dispatch t false) :
    Follows peer { s with runtime := s.runtime.step e } := by
  have hmoved := s.runtime.step_moved e
  have hstance : stance (s.runtime.step e).core = stance s.runtime.core := by
    cases hmoved with
    | still hcore | handed _ _ hcore => rw [hcore]
    | called hcalls hcore =>
      rw [hcore]
      exact (hcall _ _ hcalls).2.stance
    | failed he => exact absurd he (hinjected _)
  have hepoch : (s.runtime.step e).core.epoch = s.runtime.core.epoch :=
    congrArg (fun st => st.ownership.epoch) hstance
  exact
    { course := by
        rw [hstance]
        exact h.course
      early := h.early
      sent := by
        rw [hepoch, ← h.sent]
        refine sent_moved hmoved hinjected ?_ h.others
        exact fun c hcalls => absurd rfl (hcall _ c hcalls).1
      others := by
        intro t ht
        refine inputs_moved hmoved hinjected ?_ (h.others t ht)
        exact fun c hcalls => (hcall t c hcalls).2.inputs }

/-- The phone's thread feeds the core. -/
theorem step_input (hidle : s.runtime.pending app = []) (event : LocalInputEvent) :
    s.runtime.step (.localInput 0 event) =
      { s.runtime with
        core := (s.runtime.core.onLocalInput event).1
        pending := Function.update s.runtime.pending app (s.runtime.core.onLocalInput event).2 } :=
  Runtime.run_of_idle hidle (.runtime (.localInput event))

theorem Follows.seed (h : Follows peer s) {event : LocalInputEvent} {seeds : List LocalInputEvent}
    (hidle : s.runtime.pending app = []) (hseeds : s.seeds = event :: seeds) :
    Follows peer { s with runtime := s.runtime.step (.localInput 0 event), seeds } := by
  have hcalls : s.calls = [] := h.early (by rw [hseeds]; exact List.cons_ne_nil _ _)
  have hsent : sentCalls s.runtime.out = [] := by
    have hsent' := h.sent
    rw [hcalls] at hsent'
    exact (List.append_eq_nil_iff.1 hsent').1
  have hcourse := h.course
  rw [hseeds] at hcourse
  obtain ⟨hnext, hinputs⟩ := hcourse.seed
  rw [step_input hidle]
  exact
    { course := hnext
      early := fun _ => hcalls
      sent := by
        show sentCalls s.runtime.out ++ inputCalls (Function.update s.runtime.pending app _ app) = _
        rw [Function.update_self, hsent, hcalls]
        exact hinputs
      others := fun t ht => by
        show inputCalls (Function.update s.runtime.pending app _ t) = []
        rw [Function.update_of_ne ht]
        exact h.others t ht }

theorem Follows.call (h : Follows peer s) (call : AppCall) (hidle : s.runtime.pending app = [])
    (hseeds : s.seeds = []) :
    Follows peer
      { s with
        runtime := s.runtime.step (.localInput 0 call.event)
        calls := s.calls ++ [call] } := by
  have hcourse := h.course
  rw [hseeds] at hcourse
  obtain ⟨hstance, hinputs⟩ := hcourse.call call
  have hepoch : (s.runtime.core.onLocalInput call.event).1.epoch = s.runtime.core.epoch :=
    congrArg (fun st => st.ownership.epoch) hstance
  have hsent' := h.sent
  rw [hidle] at hsent'
  rw [step_input hidle]
  exact
    { course := by
        show Course peer s.seeds (stance (s.runtime.core.onLocalInput call.event).1)
        rw [hstance]
        exact h.course
      early := fun hne => absurd hseeds hne
      sent := by
        show sentCalls s.runtime.out ++ inputCalls (Function.update s.runtime.pending app _ app) = 
          (s.calls ++ [call]).map fun call' =>
            (call', (s.runtime.core.onLocalInput call.event).1.epoch)
        rw [Function.update_self, hepoch, List.map_append, ← hsent']
        show _ ++ inputCalls (s.runtime.core.onLocalInput call.event).2 = _
        rw [hinputs]
        simp [inputCalls, sentCalls]
      others := fun t ht => by
        show inputCalls (Function.update s.runtime.pending app _ t) = []
        rw [Function.update_of_ne ht]
        exact h.others t ht }

/-- **One step of a session.** -/
theorem Follows.step (h : Follows peer s) {e : SessionEvent}
    (hstays : PeerStays (machine.entry s e)) (hforward : ¬ TakesForward (machine.entry s e)) :
    Follows peer (s.step e) := by
  cases e with
  | seed =>
    show Follows peer s.feedSeed
    unfold feedSeed
    split
    · next event seeds hidle hseeds => exact h.seed hidle hseeds
    · exact h
  | call call =>
    show Follows peer (s.feed call)
    unfold feed
    split
    · next hidle hseeds => exact h.call call hidle hseeds
    · exact h
  | peer f =>
    refine h.moved ?_ nofun
    rintro t c ⟨he, hidle, hmode⟩
    cases he
    exact ⟨nofun, steady_control hstays⟩
  | tick =>
    refine h.moved ?_ nofun
    rintro t c ⟨he, hidle, hmode⟩
    cases he
    exact ⟨nofun, steady_tick (hstays hidle)⟩
  | mode =>
    refine h.moved ?_ nofun
    rintro t c ⟨he, hidle, hmode⟩
    cases he
    exact absurd ⟨hidle, hmode rfl⟩ hforward
  | dispatch t =>
    refine h.moved ?_ nofun
    rintro t c ⟨he, -, -⟩
    cases he

theorem Follows.forwarded (h : Follows peer s) : Forwarded peer s := by
  intro hseeds
  refine ⟨?_, h.sent⟩
  have hcourse := h.course
  rw [hseeds] at hcourse
  cases hcourse with
  | fresh hleft | crossed hleft => cases hleft
  | forwarding hleft hrole hown howner => exact howner

/-! ## After a report that the adapter cannot suppress -/

theorem step_runtime (s : Session) (e : SessionEvent) :
    (s.step e).runtime = s.runtime ∨
      ∃ e', Runs e e' ∧ (s.step e).runtime = s.runtime.step e' := by
  cases e with
  | seed =>
    simp only [step, feedSeed]
    split
    · next event seeds hidle hseeds => exact .inr ⟨_, .seed event, rfl⟩
    · exact .inl rfl
  | call call =>
    simp only [step, feed]
    split
    · exact .inr ⟨_, .call call, rfl⟩
    · exact .inl rfl
  | peer frame => exact .inr ⟨_, .peer frame, rfl⟩
  | tick => exact .inr ⟨_, .tick, rfl⟩
  | mode => exact .inr ⟨_, .mode, rfl⟩
  | dispatch t => exact .inr ⟨_, .dispatch t, rfl⟩

theorem step_device (s : Session) (e : SessionEvent) :
    EngineCore.SameDevice s.runtime.core (s.step e).runtime.core := by
  rcases s.step_runtime e with h | ⟨e', -, h⟩
  · rw [h]
    exact EngineCore.device_refl _
  · rw [h]
    exact s.runtime.step_device e'

/-- The calls of a session leave the device with input. -/
theorem keepsInput_call {e : SessionEvent} {e' : RuntimeEvent} {t : RuntimeTask} {c : Call}
    (h : KeepsInput s.runtime.core) (hruns : Runs e e') (hstays : PeerStays (machine.entry s e))
    (hcalls : s.runtime.Calls e' t c) :
    KeepsInput (s.runtime.core.call c).1 ∧ inputCalls (s.runtime.core.call c).2 = [] := by
  obtain ⟨he, hidle, -⟩ := hcalls
  cases hruns with
  | seed event | call call =>
    cases he
    exact ⟨h.localInput _, inputCalls_of_isOwner h.isOwner _⟩
  | peer frame =>
    cases he
    have hsteady := steady_control (s := s.runtime.core) hstays
    exact ⟨keepsInput_steady h hsteady, hsteady.inputs⟩
  | tick =>
    cases he
    have hsteady := steady_tick (hstays hidle)
    exact ⟨keepsInput_steady h hsteady, hsteady.inputs⟩
  | mode =>
    cases he
    exact keepsInput_suppressUnavailable h.role
  | dispatch => cases he

theorem Runs.injected {e : SessionEvent} {e' : RuntimeEvent} (h : Runs e e') (t : RuntimeTask) :
    e' ≠ .dispatch t false := by
  cases h <;> nofun

theorem keepsInput_step {e : SessionEvent} (h : KeepsInput s.runtime.core)
    (hstays : PeerStays (machine.entry s e)) : KeepsInput (s.step e).runtime.core := by
  rcases s.step_runtime e with hstep | ⟨e', hruns, hstep⟩
  · rw [hstep]
    exact h
  · rw [hstep]
    cases s.runtime.step_moved e' with
    | still hcore | handed _ _ hcore =>
      rw [hcore]
      exact h
    | called hcalls hcore =>
      rw [hcore]
      exact (keepsInput_call h hruns hstays hcalls).1
    | failed he => exact absurd he (hruns.injected _)

/-- The device keeps input, and no call was ever forwarded. -/
structure Silent (s : Session) : Prop where
  keeps : KeepsInput s.runtime.core
  pending : ∀ t, inputCalls (s.runtime.pending t) = []
  out : sentCalls s.runtime.out = []

theorem Silent.step {e : SessionEvent} (h : Silent s) (hstays : PeerStays (machine.entry s e)) :
    Silent (s.step e) := by
  have hkeeps := keepsInput_step h.keeps hstays
  rcases s.step_runtime e with hstep | ⟨e', hruns, hstep⟩
  · exact ⟨hkeeps, by rw [hstep]; exact h.pending, by rw [hstep]; exact h.out⟩
  · have hmoved := s.runtime.step_moved e'
    have hcall : ∀ t c, s.runtime.Calls e' t c → inputCalls (s.runtime.core.call c).2 = [] :=
      fun t c hcalls => (keepsInput_call h.keeps hruns hstays hcalls).2
    refine ⟨hkeeps, ?_, ?_⟩
    · intro t
      rw [hstep]
      exact inputs_moved hmoved hruns.injected (hcall t) (h.pending t)
    · have hsent := sent_moved hmoved hruns.injected (hcall app) fun t _ => h.pending t
      rw [h.out, h.pending app] at hsent
      rw [hstep]
      exact (List.append_eq_nil_iff.1 hsent).1

/-- Where the mode task comes to the forwarding mode, the device takes input back. -/
theorem keepsInput_of_takesForward {e : SessionEvent} (hrole : s.runtime.core.role = .source)
    (hforward : TakesForward (machine.entry s e)) : KeepsInput (s.step e).runtime.core := by
  cases e with
  | mode =>
    obtain ⟨hidle, hhead⟩ := hforward
    obtain ⟨rest, hmodes⟩ := List.head?_eq_some_iff.1 hhead
    rw [Machine.entry_pre] at hidle hmodes
    show KeepsInput (s.runtime.onMode true false).core
    rw [Runtime.onMode_core hidle hmodes rfl]
    exact (keepsInput_suppressUnavailable hrole).1
  | seed | call | peer | tick | dispatch => exact hforward.elim

theorem calls_step (s : Session) (e : SessionEvent) : s.calls <+: (s.step e).calls := by
  cases e with
  | call call =>
    simp only [step, feed]
    split
    · exact List.prefix_append _ _
    · exact List.prefix_rfl
  | seed =>
    simp only [step, feedSeed]
    split <;> exact List.prefix_rfl
  | peer | tick | mode | dispatch => exact List.prefix_rfl

end run

/-! ## Runs -/

section

variable {me peer : DeviceId}

/-- No step changes the role or the device's own id. -/
theorem device_exec (me peer : DeviceId) (events : List SessionEvent) :
    (machine.exec (start me peer) events).runtime.core.role = .source ∧
      (machine.exec (start me peer) events).runtime.core.me = me := by
  refine machine.inv_exec (I := fun s : Session => s.runtime.core.role = .source ∧
    s.runtime.core.me = me) ⟨rfl, rfl⟩ ?_ events
  rintro s e ⟨hrole, hme⟩
  have hdevice := s.step_device e
  exact ⟨hdevice.role.trans hrole, hdevice.me.trans hme⟩

/-- While the mode task has not come to the forwarding mode, everything is forwarded. -/
theorem follows_exec (hne : peer ≠ me) (events : List SessionEvent)
    (hstays : ∀ e ∈ machine.trace (start me peer) events, PeerStays e)
    (hforward : ∀ e ∈ machine.trace (start me peer) events, ¬ TakesForward e) :
    Follows peer (machine.exec (start me peer) events) :=
  machine.inv_exec_of (G := fun e => PeerStays e ∧ ¬ TakesForward e) (follows_start hne)
    (fun _ _ h hg => h.step hg.1 hg.2) events fun e he => ⟨hstays e he, hforward e he⟩

/-- Once it has, the device has input for good. -/
theorem keepsInput_exec (events : List SessionEvent)
    (hstays : ∀ e ∈ machine.trace (start me peer) events, PeerStays e)
    {e : Machine.Entry Session SessionEvent Unit} (he : e ∈ machine.trace (start me peer) events)
    (hforward : TakesForward e) :
    KeepsInput (machine.exec (start me peer) events).runtime.core := by
  obtain ⟨before, input, after, rfl, rfl⟩ := machine.mem_trace_iff.1 he
  rw [Machine.trace_append, Machine.trace_cons] at hstays
  rw [Machine.exec_append, Machine.exec_cons]
  refine machine.inv_exec_of (I := fun s : Session => KeepsInput s.runtime.core) (G := PeerStays)
    (keepsInput_of_takesForward (device_exec me peer before).1 hforward)
    (fun _ _ h hg => keepsInput_step h hg) after ?_
  intro e he
  exact hstays e (List.mem_append_right _ (List.mem_cons_of_mem _ he))

/-- A device that is its own peer forwards nothing. -/
theorem silent_exec (events : List SessionEvent)
    (hstays : ∀ e ∈ machine.trace (start me me) events, PeerStays e) :
    Silent (machine.exec (start me me) events) := by
  refine machine.inv_exec_of (I := Silent) (G := PeerStays) ⟨?_, ?_, rfl⟩
    (fun _ _ h hg => h.step hg) events hstays
  · exact ⟨rfl, MobileClient.newCore_isOwner me me, .inr rfl⟩
  · intro t
    by_cases ht : t = app
    · rw [ht]
      rfl
    · show inputCalls (Function.update (fun _ => []) app _ t) = []
      rw [Function.update_of_ne ht]
      rfl

/-- **Everything is forwarded exactly until the mode task comes to the forwarding mode.** For every
interleaving of the phone's calls, the peer's frames, the ticks, the mode task and the handing out
of actions in which `connect` has fed both seeds, with a peer that accepts the grant and keeps
sending heartbeats: the peer owns input after the seeds and every call is forwarded once, in the
current epoch, all along the run, if and only if the mode task never took `ActiveForward`, and the
peer is another device (or there was no call). -/
theorem forwarded_iff (me peer : DeviceId) (events : List SessionEvent)
    (hstays : ∀ e ∈ machine.trace (start me peer) events, PeerStays e)
    (hfed : (machine.exec (start me peer) events).seeds = []) :
    (∀ es, es <+: events → Forwarded peer (machine.exec (start me peer) es)) ↔
      (peer ≠ me ∧ ∀ e ∈ machine.trace (start me peer) events, ¬ TakesForward e) ∨
      (peer = me ∧ (machine.exec (start me peer) events).calls = []) := by
  have htrace : ∀ {es}, es <+: events → ∀ e ∈ machine.trace (start me peer) es,
      e ∈ machine.trace (start me peer) events :=
    fun hes e he => (machine.trace_prefix _ hes).subset he
  refine ⟨?_, ?_⟩
  · intro hall
    obtain ⟨howner, hsent⟩ := hall events List.prefix_rfl hfed
    by_cases hself : peer = me
    · subst hself
      have hsilent := silent_exec events hstays
      rw [hsilent.out, hsilent.pending, List.nil_append] at hsent
      exact .inr ⟨rfl, List.map_eq_nil_iff.1 hsent.symm⟩
    · refine .inl ⟨hself, fun e he hforward => hself ?_⟩
      have hkeeps := keepsInput_exec events hstays he hforward
      have hme : (machine.exec (start me peer) events).runtime.core.owner = me :=
        (Ownership.isOwner_iff.1 hkeeps.isOwner).trans (device_exec me peer events).2
      exact howner.symm.trans hme
  · rintro (⟨hne, hforward⟩ | ⟨rfl, hcalls⟩) es hes
    · exact (follows_exec hne es (fun e he => hstays e (htrace hes e he))
        fun e he => hforward e (htrace hes e he)).forwarded
    · have hsilent := silent_exec es fun e he => hstays e (htrace hes e he)
      have hnone : (machine.exec (start peer peer) es).calls = [] := by
        obtain ⟨rest, rfl⟩ := hes
        rw [Machine.exec_append] at hcalls
        have hle := machine.inv_exec (I := fun s : Session =>
          (machine.exec (start peer peer) es).calls <+: s.calls) List.prefix_rfl
          (fun s e h => h.trans (s.calls_step e)) rest
        exact List.prefix_nil.1 (hcalls ▸ hle)
      intro _
      have howner := Ownership.isOwner_iff.1 hsilent.keeps.isOwner
      refine ⟨howner.trans (device_exec peer peer es).2, ?_⟩
      rw [hsilent.out, hsilent.pending, hnone]
      rfl

/-- `connect`, up to the modes it asked for; the peer's ack and a heartbeat; a tick. -/
def connected : List SessionEvent :=
  .replicate 2 (.dispatch app) ++ [.seed] ++ .replicate 5 (.dispatch app) ++ [.seed] ++
    .replicate 2 (.dispatch app) ++
    [.peer (.ownershipAck (some { ownerEpoch := 1, accepted := true, reason := none })),
     .peer (.heartbeat (some ⟨1⟩)), .tick]

/-- A key is pressed before the mode task comes to the modes. -/
def pressed : List SessionEvent :=
  connected ++ [.call (.key 4 true 0)] ++ .replicate 2 (.dispatch app)

theorem pressed_forwarded :
    (∀ es, es <+: pressed →
      Forwarded (.fill 2) (machine.exec (start (.fill 1) (.fill 2)) es)) ↔
      (DeviceId.fill 2 ≠ .fill 1 ∧
        ∀ e ∈ machine.trace (start (.fill 1) (.fill 2)) pressed, ¬ TakesForward e) ∨
      (DeviceId.fill 2 = .fill 1 ∧
        (machine.exec (start (.fill 1) (.fill 2)) pressed).calls = []) :=
  forwarded_iff (.fill 1) (.fill 2) pressed (by decide) (by decide)

/-- The mode task takes `PassiveEdge` and `ActiveForward`; then the key is pressed. -/
def reclaimed : List SessionEvent :=
  connected ++ [.mode, .mode, .call (.key 4 true 0)] ++ .replicate 2 (.dispatch app)

/-- **The forwarding mode takes the phone's input away.** -/
theorem reclaimed_not_forwarded :
    ¬ ∀ events : List SessionEvent,
      (∀ e ∈ machine.trace (start (.fill 1) (.fill 2)) events, PeerStays e) →
      Forwarded (.fill 2) (machine.exec (start (.fill 1) (.fill 2)) events) := by
  intro h
  have hall := h reclaimed (by decide) (by decide)
  exact absurd hall.2 (by decide)

end

end Session

end Mouser
