import Mouser.Engine.HeldInput
import Mouser.Engine.Move

/-!
# Presses and releases of the local input

The source decides for each event at the instant it comes: while it owns input the event is passed
to the local desktop, and while another device does it is suppressed and forwarded. It keeps no
record of what is held down, so a release follows the owner of its own instant and not its press.
`sameMachine_iff` says when the two go to one machine.
-/

namespace Mouser

/-- The decision that `feed_local` returns for the actions of a call. -/
def decision (acts : List Action) : CaptureDecision :=
  ((acts.filterMap fun
    | .capture d => some d
    | _ => none).getLast?).getD .passThrough

/-- The switch a local event moves, and whether down. -/
def LocalInputEvent.transition? : LocalInputEvent → Option (Switch × Bool)
  | .key usage down _ => some (.key usage, down)
  | .button b down => some (.button b, down)
  | _ => none

/-- The switch a call moves, if it is a local event. -/
def Call.transition? : Call → Option (Switch × Bool)
  | .runtime (.localInput event) => event.transition?
  | _ => none

namespace EngineCore

/-- The run has the press `p` of the switch `x`, and `r` is the release that ends it. -/
def Releases (steps : List (Machine.Entry EngineCore Call (List Action))) (x : Switch)
    (p r : Machine.Entry EngineCore Call (List Action)) : Prop :=
  ∃ before between after, steps = before ++ p :: between ++ r :: after ∧
    p.input.transition? = some (x, true) ∧ r.input.transition? = some (x, false) ∧
    ∀ e ∈ between, ∀ b, e.input.transition? ≠ some (x, b)

/-- The event of the step is forwarded. -/
def ForwardsSwitch (e : Machine.Entry EngineCore Call (List Action)) : Prop :=
  ∃ f ∈ frames e.output, f.transition? = e.input.transition?

/-- A press that is passed to the local desktop has its release passed too, and one that is
suppressed and forwarded has its release suppressed and forwarded to the same owner. -/
structure SameMachine (p r : Machine.Entry EngineCore Call (List Action)) : Prop where
  passed : decision p.output = .passThrough → decision r.output = .passThrough ∧ ¬ ForwardsSwitch r
  forwarded : decision p.output = .suppress →
    ForwardsSwitch p ∧ decision r.output = .suppress ∧ ForwardsSwitch r ∧
      r.pre.owner = p.pre.owner

/-- What the source does with a press or a release. -/
theorem switch_cases {s : EngineCore} {c : Call} {x : Switch} {b : Bool} (hrole : s.role = .source)
    (hc : c.transition? = some (x, b)) :
    (s.isOwner = true ∧ (s.call c).2 = [.capture .passThrough]) ∨
      (s.isOwner = false ∧ ∃ f, f.transition? = some (x, b) ∧
        (s.call c).2 = [.sendControl f, .capture .suppress]) := by
  have hrole' : ¬ s.role ≠ .source := not_not.2 hrole
  match c, hc with
  | .runtime (.localInput (.key usage down mods)), hc =>
    rw [call, callLocal, onLocalInput, if_neg hrole']
    cases hown : s.isOwner with
    | true => exact .inl ⟨rfl, rfl⟩
    | false =>
      exact .inr ⟨rfl, .keyEvent (some
        { usage, down, mods, ownerEpoch := s.epoch, ctr := s.outCtr.saturatingAdd 1 }), hc, rfl⟩
  | .runtime (.localInput (.button button down)), hc =>
    rw [call, callLocal, onLocalInput, if_neg hrole']
    cases hown : s.isOwner with
    | true => exact .inl ⟨rfl, rfl⟩
    | false =>
      exact .inr ⟨rfl, .pointerButton (some
        { button, down, ownerEpoch := s.epoch, ctr := s.outCtr.saturatingAdd 1 }), hc, rfl⟩

/-- Where a press or a release goes, by the owner of its instant. -/
theorem switch_entry {s : EngineCore} {c : Call} {x : Switch} {b : Bool} (hrole : s.role = .source)
    (hc : c.transition? = some (x, b)) :
    (s.owner = s.me ∧ decision (machine.entry s c).output = .passThrough ∧
        ¬ ForwardsSwitch (machine.entry s c)) ∨
      (s.owner ≠ s.me ∧ decision (machine.entry s c).output = .suppress ∧
        ForwardsSwitch (machine.entry s c)) := by
  have howner : s.isOwner = true ↔ s.owner = s.me := Ownership.isOwner_iff
  rcases switch_cases hrole hc with ⟨hown, hout⟩ | ⟨hown, f, hf, hout⟩
  · have hout : (machine.entry s c).output = [.capture .passThrough] := hout
    refine .inl ⟨howner.1 hown, by rw [hout]; rfl, ?_⟩
    rintro ⟨f, hf, -⟩
    rw [hout] at hf
    cases hf
  · have hout : (machine.entry s c).output = [.sendControl f, .capture .suppress] := hout
    refine .inr ⟨?_, by rw [hout]; rfl, f, ?_, hf.trans hc.symm⟩
    · intro heq
      rw [howner.2 heq] at hown
      cases hown
    · rw [hout]
      exact .head _

/-- A press and a release of one device go to one machine exactly if input had one owner at both. -/
theorem sameMachine_iff_owner {s t : EngineCore} {c d : Call} {x : Switch}
    (hs : s.role = .source) (ht : t.role = .source) (hme : t.me = s.me)
    (hc : c.transition? = some (x, true)) (hd : d.transition? = some (x, false)) :
    SameMachine (machine.entry s c) (machine.entry t d) ↔ t.owner = s.owner := by
  rcases switch_entry hs hc with ⟨hown, hdec, -⟩ | ⟨hown, hdec, hfwd⟩ <;>
    rcases switch_entry ht hd with ⟨hown', hdec', hfwd'⟩ | ⟨hown', hdec', hfwd'⟩
  · refine iff_of_true ⟨fun _ => ⟨hdec', hfwd'⟩, ?_⟩ ?_
    · rw [hdec]
      exact nofun
    · rw [hown, hown', hme]
  · refine iff_of_false ?_ ?_
    · intro h
      exact (h.passed hdec).2 hfwd'
    · rw [hown, ← hme]
      exact hown'
  · refine iff_of_false ?_ ?_
    · intro h
      exact hfwd' (h.forwarded hdec).2.2.1
    · rw [hown', hme]
      exact Ne.symm hown
  · refine ⟨?_, ?_⟩
    · intro h
      exact (h.forwarded hdec).2.2.2
    · intro heq
      refine ⟨?_, fun _ => ⟨hfwd, hdec', hfwd', heq⟩⟩
      rw [hdec]
      exact nofun

/-- **A release follows its press** all along a run of a source exactly if, for every press and the
release that ends it, the owner is the same when the two come. -/
theorem sameMachine_iff (me peer : DeviceId) (layout : EdgeLayout) (calls : List Call) :
    let steps := machine.trace (newSource me peer layout) calls
    (∀ x p r, Releases steps x p r → SameMachine p r) ↔
      ∀ x p r, Releases steps x p r → r.pre.owner = p.pre.owner := by
  intro steps
  have hdevice : ∀ e ∈ steps, e = machine.entry e.pre e.input ∧ e.pre.role = .source ∧
      e.pre.me = me := by
    intro e he
    have hpre := machine.inv_trace (I := fun s => s.role = .source ∧ s.me = me) ⟨rfl, rfl⟩
      (fun t c h => ⟨(t.call_device c).role.trans h.1, (t.call_device c).me.trans h.2⟩) he
    exact ⟨machine.entry_of_mem he, hpre⟩
  refine forall₄_congr ?_
  rintro x p r ⟨before, between, after, hsteps, hp, hr, -⟩
  obtain ⟨hpe, hprole, hpme⟩ := hdevice p (by simp [hsteps])
  obtain ⟨hre, hrrole, hrme⟩ := hdevice r (by simp [hsteps])
  rw [hpe, hre]
  exact sameMachine_iff_owner hprole hrrole (hrme.trans hpme.symm) hp hr

/-- A key goes down on the local desktop, the cursor crosses out, and the key comes up. -/
def heldOverEdge : List Call :=
  [.runtime (.localInput (.key 0xE1 true 2)), .runtime (.localInput (.cursorMoved 0 98 50 5 0)),
    .runtime (.localInput (.key 0xE1 false 0))]

/-- The release of that run is suppressed and sent to the peer. -/
theorem heldOverEdge_splits :
    let steps := machine.trace (newSource (.fill 1) (.fill 2) (.sideBySide 100 100 100 100))
      heldOverEdge
    ¬ ∀ x p r, Releases steps x p r → SameMachine p r := by
  intro steps h
  let s := newSource (.fill 1) (.fill 2) (.sideBySide 100 100 100 100)
  let crossing : Call := .runtime (.localInput (.cursorMoved 0 98 50 5 0))
  have hpass : decision (s.call (.runtime (.localInput (.key 0xE1 true 2)))).2 = .passThrough := by
    decide +kernel
  have hsuppress : decision ((s.call crossing).1.call
      (.runtime (.localInput (.key 0xE1 false 0)))).2 = .suppress := by
    decide +kernel
  have hsame := h (.key 0xE1) (machine.entry s (.runtime (.localInput (.key 0xE1 true 2))))
    (machine.entry (s.call crossing).1 (.runtime (.localInput (.key 0xE1 false 0))))
    ⟨[], [machine.entry s crossing], [], rfl, rfl, rfl, by simp [crossing, Call.transition?,
      LocalInputEvent.transition?]⟩
  have hpassed := (hsame.passed hpass).1
  rw [Machine.entry_output] at hpassed
  exact absurd (hsuppress.symm.trans hpassed) (by decide)

end EngineCore

end Mouser
