import Mouser.Engine.Cursor

/-!
# The capture mode and ownership

`capture_mode` is computed from role and ownership, but the platform only knows the modes it was
told. Every operation that moves ownership of a source tells it the new mode, with one exception:
a failed injection on the owner grants input to the peer and says nothing. `Drifts` is that step,
and the degenerate crossing of a device whose peer is itself; the mode last told is the capture
mode all along a run exactly when no step drifts.
-/

namespace Mouser

/-- The last capture mode the actions put the platform in. -/
def lastMode (acts : List Action) : Option CaptureMode :=
  (acts.filterMap fun
    | .setCaptureMode mode => some mode
    | _ => none).getLast?

theorem lastMode_append (as bs : List Action) :
    lastMode (as ++ bs) = (lastMode bs).or (lastMode as) := by
  unfold lastMode
  rw [List.filterMap_append, List.getLast?_append]

/-- Quiet actions leave the mode alone. -/
theorem lastMode_of_quiet {acts : List Action} (h : ∀ a ∈ acts, a.isQuiet = true) :
    lastMode acts = none := by
  have hnil : (acts.filterMap fun
      | .setCaptureMode mode => some mode
      | _ => none) = ([] : List CaptureMode) := by
    refine List.filterMap_eq_nil_iff.2 ?_
    intro a ha
    have hq := h a ha
    cases a with
    | setCaptureMode => cases hq
    | _ => rfl
  rw [lastMode, hnil]
  rfl

namespace EngineCore

/-- The step moves ownership without telling the platform the mode that goes with it: an injection
fails on the owner, who has a peer to grant input to, or the owner crosses out to itself. -/
def Drifts (s : EngineCore) (c : Call) : Prop :=
  s.isOwner = true ∧
    ((c = .runtime .injectionFailed ∧ s.peer ≠ s.me) ∨
      (s.peer = s.me ∧ ∃ d x y dx dy, c = .runtime (.localInput (.cursorMoved d x y dx dy)) ∧
        s.CrossesAt x y dx dy))

section step

variable {s s' : EngineCore} {c : Call} {acts : List Action}

theorem captureMode_of_source {b : Bool} (hr : s.role = .source) (ho : s.isOwner = b) :
    s.captureMode = if b then .passiveEdge else .activeForward := by
  rw [captureMode, hr, ho]

theorem captureMode_congr (hr : s'.role = s.role) (ho : s'.ownership = s.ownership) :
    s'.captureMode = s.captureMode := by
  unfold captureMode isOwner
  rw [hr, ho]

theorem crossToPeer_lastMode (h : s.isOwner = true) (x y : Int32) :
    lastMode (s.crossToPeer x y).2 = some .activeForward := by
  rw [crossToPeer_eq s h]
  rfl

/-- A failed injection never tells the platform a mode. -/
theorem onInjectionFailed_lastMode (s : EngineCore) : lastMode s.onInjectionFailed.2 = none := by
  cases h : s.isOwner with
  | false => rw [onInjectionFailed_of_not_isOwner s h]; rfl
  | true => rw [onInjectionFailed_of_isOwner s h]; rfl

/-- **A step that does not drift** leaves the platform in the capture mode. -/
theorem Effect.mode (heff : Effect s c s' acts) (hr : s.role = .source) (hd : ¬ Drifts s c) :
    (lastMode acts).or (some s.captureMode) = some s'.captureMode := by
  have hr' : s'.role = .source := heff.device.role.trans hr
  have hsame : SameOwnership s s' → lastMode acts = none →
      (lastMode acts).or (some s.captureMode) = some s'.captureMode := by
    intro hs hl
    rw [hl, captureMode_congr hs.role hs.ownership]
    rfl
  cases heff with
  | quiet hc hs ha => exact hsame hs.toSameOwnership (lastMode_of_quiet ha)
  | @cross d x y dx dy hrole hown hx =>
    have hne : s.peer ≠ s.me := fun h => hd ⟨hown, .inr ⟨h, d, x, y, dx, dy, rfl, hx⟩⟩
    rw [crossToPeer_lastMode hown, captureMode_of_source hr' (s.crossToPeer_isOwner hown x y)]
    simp [hne]
  | @reclaim _ t pre post hc ht hwhy hpre hpost =>
    have hown : t.reclaimLocal.1.isOwner = true := Ownership.isOwner_iff.2 rfl
    rw [lastMode_append, lastMode_append, lastMode_of_quiet hpre, lastMode_of_quiet hpost,
      captureMode_of_source hr' hown]
    rfl
  | adopt =>
    rw [captureMode_of_source hr' rfl, acceptTransfer_actions, if_pos hr, isOwner,
      acceptTransfer_ownership]
    rfl
  | refuse => exact hsame (.refl s) rfl
  | settle hp he hacc hs ha =>
    rw [lastMode_of_quiet ha, captureMode_congr hs.role hs.ownership]
    rfl
  | inputCtr hf hs hg hh ha =>
    refine hsame hs ?_
    rcases ha with rfl | ⟨i, rfl, -⟩ <;> rfl
  | inputSeq hs hg hh ha =>
    refine hsame hs ?_
    rcases ha with rfl | ⟨rfl, -⟩ <;> rfl
  | failed =>
    rw [onInjectionFailed_lastMode]
    cases hown : s.isOwner with
    | false =>
      rw [onInjectionFailed_of_not_isOwner s hown]
      rfl
    | true =>
      have heq : s.peer = s.me := not_not.1 fun h => hd ⟨hown, .inl ⟨rfl, h⟩⟩
      rw [captureMode_of_source hr hown,
        captureMode_of_source hr' (s.onInjectionFailed_isOwner hown)]
      simp [heq]
  | trusted | allowed => rfl

/-- **A step that drifts** leaves the platform in the other mode. -/
theorem Drifts.mode (hd : Drifts s c) (hr : s.role = .source) :
    (lastMode (s.call c).2).or (some s.captureMode) ≠ some (s.call c).1.captureMode := by
  have hr' : (s.call c).1.role = .source := (s.call_device c).role.trans hr
  obtain ⟨hown, ⟨rfl, hne⟩ | ⟨heq, d, x, y, dx, dy, rfl, hx⟩⟩ := hd
  · have hcall : s.call (.runtime .injectionFailed) = s.onInjectionFailed := rfl
    rw [hcall] at hr' ⊢
    rw [onInjectionFailed_lastMode, captureMode_of_source hr hown,
      captureMode_of_source hr' (s.onInjectionFailed_isOwner hown)]
    simp [hne]
  · rw [call_cursorMoved hr, hown, onCursor_of_crosses hx] at hr' ⊢
    rw [crossToPeer_lastMode hown, captureMode_of_source hr' (s.crossToPeer_isOwner hown x y)]
    simp [heq]

end step

/-- After the steps taken so far, the last mode told to the platform is the capture mode. -/
def ModeFollows (start : EngineCore) (steps : List (Machine.Entry EngineCore Call (List Action)))
    (s : EngineCore) : Prop :=
  lastMode (start.initialActions ++ steps.flatMap (·.output)) = some s.captureMode

/-- **The capture mode follows ownership, as long as no step drifts.** In a run of a source, the
last mode emitted is the capture mode after every call exactly when no call drifts. -/
theorem modeFollows_iff (me peer : DeviceId) (layout : EdgeLayout) (calls : List Call) :
    let start := newSource me peer layout
    (∀ before, before <+: calls →
      ModeFollows start (machine.trace start before) (machine.exec start before)) ↔
      ∀ en ∈ machine.trace start calls, ¬ Drifts en.pre en.input := by
  intro start
  -- the role never changes, but only a source is told a mode with every change of ownership
  have hrole : ∀ (t : EngineCore) (c : Call), t.role = .source → (t.call c).1.role = .source :=
    fun t c ht => (t.call_device c).role.trans ht
  have h := machine.forall_prefix_iff
    (P := fun steps s => s.role = .source ∧ ModeFollows start steps s)
    (D := fun en => Drifts en.pre en.input) ⟨rfl, rfl⟩ ?_ calls
  · rw [← h]
    refine forall₂_congr fun before _ => (and_iff_right ?_).symm
    exact machine.inv_exec (I := fun s => s.role = .source) rfl hrole before
  · rintro steps s c ⟨hr, hm⟩
    have hnext : ModeFollows start (steps ++ [machine.entry s c]) (s.call c).1 ↔
        (lastMode (s.call c).2).or (some s.captureMode) = some (s.call c).1.captureMode := by
      unfold ModeFollows at hm ⊢
      rw [List.flatMap_append, ← List.append_assoc, lastMode_append, hm, List.flatMap_singleton]
      rfl
    refine ⟨?_, ?_⟩
    · rintro ⟨-, h⟩ hd
      exact hd.mode hr (hnext.1 h)
    · intro hd
      exact ⟨hrole s c hr, hnext.2 ((s.call_effect c).mode hr hd)⟩

/-- The run in which the cursor crosses out, comes back, and the warp to the shared edge fails. -/
def warpFails : List Call :=
  [.runtime (.localInput (.cursorMoved 0 98 50 5 0)),
   .runtime (.localInput (.cursorMoved 0 98 50 50 0)),
   .runtime (.localInput (.cursorMoved 0 98 50 (-60) 0)),
   .runtime .injectionFailed]

/-- At the end of that run the peer owns input while the platform is still in the passive mode. -/
theorem warpFails_drifts :
    let start := newSource (.fill 1) (.fill 2) (.sideBySide 100 100 100 100)
    let s := machine.exec start warpFails
    ¬ ModeFollows start (machine.trace start warpFails) s ∧ s.owner = .fill 2 ∧
      lastMode (start.initialActions ++ (machine.trace start warpFails).flatMap (·.output)) =
        some .passiveEdge := by
  unfold ModeFollows
  decide +kernel

end EngineCore

end Mouser
