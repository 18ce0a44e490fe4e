import Mouser.Engine.Move

/-!
# The tasks of the runtime

Every task of the runtime runs one operation of the core under the mutex, and then, with the mutex
released, hands the actions it got to the channels one by one (`Shared::dispatch`). Any other task
may run between two of these steps, so `Runtime.pending` holds what each task has still to hand out.

The capture-mode task takes the modes off their channel and asks the adapter for them. Where the
adapter cannot suppress local input in the forwarding mode, it tells the core.
-/

namespace Mouser

/-- The tasks that call the core. -/
inductive RuntimeTask where
  /-- A thread that feeds local input: a capture thread, or the embedder's. -/
  | local (thread : ℕ)
  | control
  | motion
  | ticker
  | mode
deriving DecidableEq

/-- What is put on `out_tx`. -/
inductive Outgoing where
  | control (frame : ControlFrame)
  | motion (motion : PointerMotion)
deriving DecidableEq

/-- What an action puts on `out_tx`. -/
def Action.outgoing? : Action → Option Outgoing
  | .sendControl frame => some (.control frame)
  | .sendMotion motion => some (.motion motion)
  | _ => none

/-- The core and the channels. -/
structure Runtime where
  core : EngineCore
  /-- The actions that a task has not handed out. -/
  pending : RuntimeTask → List Action
  /-- What was put on `out_tx`, in order. -/
  out : List Outgoing
  /-- The modes that the mode task has not taken. -/
  modes : List CaptureMode
  /-- What was put on `owner_tx`, in order. -/
  owners : List (DeviceId × UInt64)

inductive RuntimeEvent where
  /-- `feed_local` -/
  | localInput (thread : ℕ) (event : LocalInputEvent)
  /-- The control receiver gets a frame for the core. -/
  | control (frame : ControlFrame)
  /-- The control receiver gets a motion sample. -/
  | fallback (motion : PointerMotion)
  | motion (datagram : Datagram)
  | tick
  /-- The mode task takes the next mode, and the adapter answers. -/
  | mode (setMode canSuppress : Bool)
  /-- The task hands out its next action; `injected` is the injector's answer to an injection. -/
  | dispatch (t : RuntimeTask) (injected : Bool)

/-- The task an event is of and the call it makes on the core, if it makes one. -/
def RuntimeEvent.call? : RuntimeEvent → Option (RuntimeTask × Call)
  | .localInput thread event => some (.local thread, .runtime (.localInput event))
  | .control frame => some (.control, .control frame)
  | .fallback m => some (.control, .motion (.motion m))
  | .motion datagram => some (.motion, .motion datagram)
  | .tick => some (.ticker, .runtime .tick)
  | .mode _ _ => some (.mode, .runtime .suppressUnavailable)
  | .dispatch _ _ => none

namespace Runtime

/-- `start`, run by `thread`: the initial actions of the core are about to be handed out. -/
def start (core : EngineCore) (thread : ℕ) : Runtime where
  core := core
  pending := Function.update (fun _ => []) (.local thread) core.initialActions
  out := []
  modes := []
  owners := []

/-- Task `t` runs an operation of the core, if it has handed out what it got before. -/
def run (s : Runtime) (t : RuntimeTask) (c : Call) : Runtime :=
  match s.pending t with
  | [] =>
    let (core, acts) := s.core.call c
    { s with core, pending := Function.update s.pending t acts }
  | _ :: _ => s

/-- The mode task. -/
def onMode (s : Runtime) (setMode canSuppress : Bool) : Runtime :=
  match s.pending .mode, s.modes with
  | [], mode :: rest =>
    if mode = .activeForward && (!setMode || !canSuppress) then
      { s with modes := rest }.run .mode (.runtime .suppressUnavailable)
    else { s with modes := rest }
  | _, _ => s

/-- Task `t` hands out its next action. A failed injection is reported to the core at once, and what
the core answers is handed out first. -/
def onDispatch (s : Runtime) (t : RuntimeTask) (injected : Bool) : Runtime :=
  match s.pending t with
  | [] => s
  | act :: rest =>
    let s := { s with pending := Function.update s.pending t rest }
    match act with
    | .sendControl frame => { s with out := s.out ++ [.control frame] }
    | .sendMotion motion => { s with out := s.out ++ [.motion motion] }
    | .inject _ =>
      if injected then s
      else
        let (core, acts) := s.core.onInjectionFailed
        { s with core, pending := Function.update s.pending t (acts ++ rest) }
    | .setCaptureMode mode => { s with modes := s.modes ++ [mode] }
    | .ownerChanged owner epoch => { s with owners := s.owners ++ [(owner, epoch)] }
    | .setCursorVisible _ | .capture _ => s

def step (s : Runtime) : RuntimeEvent → Runtime
  | .localInput thread event => s.run (.local thread) (.runtime (.localInput event))
  | .control frame => s.run .control (.control frame)
  | .fallback motion => s.run .control (.motion (.motion motion))
  | .motion datagram => s.run .motion (.motion datagram)
  | .tick => s.run .ticker (.runtime .tick)
  | .mode setMode canSuppress => s.onMode setMode canSuppress
  | .dispatch t injected => s.onDispatch t injected

/-! ## One step -/

/-- The step makes the call `c` on the core, by task `t`. The mode task calls only for the
forwarding mode. -/
structure Calls (s : Runtime) (e : RuntimeEvent) (t : RuntimeTask) (c : Call) : Prop where
  call : e.call? = some (t, c)
  idle : s.pending t = []
  mode : t = .mode → s.modes.head? = some .activeForward

/-- What a step does to the core, the actions under way and `out_tx`. -/
inductive Moved (s : Runtime) (e : RuntimeEvent) (s' : Runtime) : Prop
  /-- The task was not idle, or had nothing to do. -/
  | still (hcore : s'.core = s.core) (hpending : s'.pending = s.pending) (hout : s'.out = s.out)
  | called {t c} (hcalls : s.Calls e t c)
      (hcore : s'.core = (s.core.call c).1)
      (hpending : s'.pending = Function.update s.pending t (s.core.call c).2)
      (hout : s'.out = s.out)
  /-- A task handed out an action. -/
  | handed {t injected act rest} (he : e = .dispatch t injected) (hact : s.pending t = act :: rest)
      (hcore : s'.core = s.core) (hpending : s'.pending = Function.update s.pending t rest)
      (hout : s'.out = s.out ++ act.outgoing?.toList)
  /-- An injection failed. -/
  | failed {t i rest} (he : e = .dispatch t false) (hact : s.pending t = .inject i :: rest)
      (hcore : s'.core = s.core.onInjectionFailed.1)
      (hpending : s'.pending = Function.update s.pending t (s.core.onInjectionFailed.2 ++ rest))
      (hout : s'.out = s.out)

theorem run_of_idle {s : Runtime} {t : RuntimeTask} (h : s.pending t = []) (c : Call) :
    s.run t c =
      { s with
        core := (s.core.call c).1
        pending := Function.update s.pending t (s.core.call c).2 } := by
  rw [run, h]

theorem run_of_busy {s : Runtime} {t : RuntimeTask} (h : s.pending t ≠ []) (c : Call) :
    s.run t c = s := by
  rw [run]
  split
  · next hnil => exact absurd hnil h
  · rfl

theorem run_moved (s : Runtime) {e : RuntimeEvent} {t : RuntimeTask} {c : Call}
    (he : e.call? = some (t, c)) (ht : t ≠ .mode) : s.Moved e (s.run t c) := by
  by_cases h : s.pending t = []
  · rw [run_of_idle h]
    exact .called ⟨he, h, fun hmode => absurd hmode ht⟩ rfl rfl rfl
  · rw [run_of_busy h]
    exact .still rfl rfl rfl

theorem onMode_moved (s : Runtime) (setMode canSuppress : Bool) :
    s.Moved (.mode setMode canSuppress) (s.onMode setMode canSuppress) := by
  unfold onMode
  split
  · next mode rest hidle hmodes =>
    split
    · next hfails =>
      have hmode : mode = .activeForward := by
        simp only [Bool.and_eq_true, decide_eq_true_eq] at hfails
        exact hfails.1
      rw [run_of_idle (by exact hidle)]
      exact .called ⟨rfl, hidle, fun _ => by rw [hmodes, hmode]; rfl⟩ rfl rfl rfl
    · exact .still rfl rfl rfl
  · exact .still rfl rfl rfl

/-- The mode task comes to the forwarding mode and the adapter does not bring it up. -/
theorem onMode_core {s : Runtime} {setMode canSuppress : Bool} {rest : List CaptureMode}
    (hidle : s.pending .mode = []) (hmodes : s.modes = .activeForward :: rest)
    (hfails : (!setMode || !canSuppress) = true) :
    (s.onMode setMode canSuppress).core = s.core.onSuppressUnavailable.1 := by
  unfold onMode
  rw [hidle, hmodes]
  dsimp only
  rw [if_pos (by simpa using hfails), run_of_idle (by exact hidle)]
  rfl

theorem onDispatch_moved (s : Runtime) (t : RuntimeTask) (injected : Bool) :
    s.Moved (.dispatch t injected) (s.onDispatch t injected) := by
  unfold onDispatch
  split
  · exact .still rfl rfl rfl
  · next act rest hact =>
    cases act with
    | sendControl | sendMotion => exact .handed rfl hact rfl rfl rfl
    | inject i =>
      cases injected with
      | true => exact .handed rfl hact rfl rfl (List.append_nil _).symm
      | false => exact .failed rfl hact rfl (Function.update_idem ..) rfl
    | setCaptureMode | ownerChanged | setCursorVisible | capture =>
      exact .handed rfl hact rfl rfl (List.append_nil _).symm

/-- **One step.** -/
theorem step_moved (s : Runtime) (e : RuntimeEvent) : s.Moved e (s.step e) := by
  cases e with
  | localInput | control | fallback | motion | tick =>
    rw [step]
    exact s.run_moved rfl nofun
  | mode setMode canSuppress => exact s.onMode_moved setMode canSuppress
  | dispatch t injected => exact s.onDispatch_moved t injected

theorem step_device (s : Runtime) (e : RuntimeEvent) :
    EngineCore.SameDevice s.core (s.step e).core := by
  cases s.step_moved e with
  | still hcore | handed _ _ hcore =>
    rw [hcore]
    exact EngineCore.device_refl s.core
  | called _ hcore =>
    rw [hcore]
    exact s.core.call_device _
  | failed _ _ hcore =>
    rw [hcore]
    exact s.core.call_device (.runtime .injectionFailed)

end Runtime

end Mouser
