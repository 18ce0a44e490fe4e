import Mouser.Engine.Motions
import Mouser.Engine.Symmetry

/-!
# The cursors stay on their screens

Every position that the core hands out is on the screen it is for, for any layout and any deltas
(`cursors_on_screen`): the motion that is sent is on the peer's screen, since that is where the peer
cursor is kept, and a warp goes to the edge of this machine's screen.
-/

namespace Mouser

/-- The position that an action carries of the core's own is on the screen it is for. -/
def Action.OnScreen (layout : EdgeLayout) : Action → Prop
  | .sendMotion m => Within layout.peerWidth m.x ∧ Within layout.peerHeight m.y
  | .inject (.warpCursor _ x y) => Within layout.width x ∧ Within layout.height y
  | _ => True

namespace EngineCore

/-- The step keeps the peer cursor on the screen and hands out positions on screens only. -/
def StaysOnScreen (s : EngineCore) (r : EngineCore × List Action) : Prop :=
  r.1.InBox ∧ ∀ a ∈ r.2, a.OnScreen s.layout

variable {s : EngineCore}

theorem reclaimLocal_staysOnScreen (h : s.InBox) : s.StaysOnScreen s.reclaimLocal := by
  refine ⟨h, ?_⟩
  simp [reclaimLocal, Action.OnScreen]

theorem crossToPeer_staysOnScreen (h : s.InBox) (x y : Int32) :
    s.StaysOnScreen (s.crossToPeer x y) := by
  cases hown : s.isOwner with
  | true =>
    rw [crossToPeer_eq s hown]
    refine ⟨s.within_entryPoint x y, ?_⟩
    simp [Action.OnScreen]
  | false =>
    have hnone : s.crossToPeer x y = (s, [.capture .passThrough]) := by
      have hown : s.ownership.isOwner = false := hown
      simp [crossToPeer, Ownership.grantTo, hown]
    rw [hnone]
    exact ⟨h, by simp [Action.OnScreen]⟩

theorem onCursor_staysOnScreen (h : s.InBox) (x y dx dy : Int32) (owns : Bool) :
    s.StaysOnScreen (s.onCursor x y dx dy owns) := by
  have hmoved := inBox_movePeerCursor (s.travelled dx dy) dx dy
  have hlayout := (movePeerCursor_same (s.travelled dx dy) dx dy).layout
  have hcases := s.onCursor_cases x y dx dy owns
  generalize s.onCursor x y dx dy owns = r at hcases ⊢
  cases hcases with
  | crossed => exact crossToPeer_staysOnScreen h x y
  | rearmed | passed => exact ⟨h, by simp [Action.OnScreen]⟩
  | escaped => exact reclaimLocal_staysOnScreen h
  | pushed => exact reclaimLocal_staysOnScreen (s := s.travelled dx dy) h
  | @returned t ht =>
    rw [← ht] at hmoved hlayout
    obtain ⟨hbox, hacts⟩ := reclaimLocal_staysOnScreen hmoved
    obtain ⟨x, y, hwarp, hx, hy⟩ := t.entryEdgeWarp_within
    refine ⟨hbox, ?_⟩
    rw [hlayout] at hx hy hacts
    intro a ha
    rcases List.mem_append.1 ha with ha | ha
    · exact hacts a ha
    · rw [List.mem_singleton.1 ha, hwarp]
      exact ⟨hx, hy⟩
  | moved ht =>
    rw [← ht] at hmoved hlayout
    refine ⟨hmoved, ?_⟩
    rw [InBox, hlayout] at hmoved
    simp only [List.forall_mem_cons, Action.OnScreen]
    exact ⟨hmoved, trivial, by simp⟩

/-- Coordinates that change no call but put every position of this machine's screen at the origin
and every position of the peer's where its cursor is. -/
def blind (s : EngineCore) : Symmetry where
  layout := s.layout
  delta := Prod.mk
  here _ _ := (0, 0)
  there _ _ := (s.peerX, s.peerY)

theorem under_blind {c : Call} (hc : c.isCursor = false) (hm : c.motion? = none) :
    c.under s.blind = c := by
  cases c with
  | control frame =>
    cases frame with
    | scroll payload => cases payload <;> rfl
    | _ => rfl
  | motion datagram =>
    cases datagram with
    | motion => cases hm
    | _ => rfl
  | runtime c =>
    cases c with
    | localInput event =>
      cases event with
      | cursorMoved => cases hc
      | _ => rfl
    | _ => rfl

/-- A call that is handed no position makes none up: it does the same in blind coordinates. -/
theorem call_staysOnScreen_of_blind (h : s.InBox) {c : Call} (hc : c.isCursor = false)
    (hm : c.motion? = none) : s.StaysOnScreen (s.call c) := by
  obtain ⟨hx, hy⟩ := s.call_peerCursor hc
  have hsame : s.call c = resultAt s.blind (s.peerX, s.peerY) (s.call c) := by
    have hcall := call_relayout (s := s) (σ := s.blind) (.inr rfl) hc
    rwa [under_blind hc hm] at hcall
  refine ⟨?_, ?_⟩
  · rw [InBox, hx, hy, (s.call_device c).layout]
    exact h
  · rw [hsame]
    intro a ha
    obtain ⟨b, -, rfl⟩ := List.mem_map.1 ha
    cases b with
    | sendMotion => exact h
    | inject i =>
      cases i with
      | warpCursor => exact ⟨within_zero _, within_zero _⟩
      | _ => trivial
    | _ => trivial

theorem call_staysOnScreen (h : s.InBox) (c : Call) : s.StaysOnScreen (s.call c) := by
  cases hm : c.motion? with
  | some m =>
    rw [Call.eq_motion hm]
    simp only [call, onMotion]
    split <;> exact ⟨h, by simp [Action.OnScreen]⟩
  | none =>
    cases hc : c.isCursor with
    | false => exact call_staysOnScreen_of_blind h hc hm
    | true =>
      unfold Call.isCursor at hc
      split at hc
      · next d x y dx dy =>
        by_cases hrole : s.role = .source
        · rw [call_cursorMoved hrole]
          exact onCursor_staysOnScreen h x y dx dy _
        · have hstay : s.call (.runtime (.localInput (.cursorMoved d x y dx dy))) =
              (s, [.capture .passThrough]) := if_pos hrole
          rw [hstay]
          exact ⟨h, by simp [Action.OnScreen]⟩
      · cases hc

/-- The peer cursor is on the peer's screen in every state of a run from a state where it is. -/
theorem inBox_exec (h : s.InBox) (calls : List Call) : (machine.exec s calls).InBox :=
  machine.inv_exec h (fun _ c hs => (call_staysOnScreen hs c).1) calls

/-- **The cursors stay on their screens**, for any layout and any run: the peer cursor and the
motion sent on the peer's, the warps on this machine's. -/
theorem cursors_on_screen (me peer : DeviceId) (layout : EdgeLayout) (calls : List Call) :
    let s := machine.exec (newSource me peer layout) calls
    (0 ≤ s.peerX.toInt ∧ s.peerX.toInt ≤ max (layout.peerWidth.toInt - 1) 0) ∧
      (0 ≤ s.peerY.toInt ∧ s.peerY.toInt ≤ max (layout.peerHeight.toInt - 1) 0) ∧
        ∀ e ∈ machine.trace (newSource me peer layout) calls, ∀ a ∈ e.output,
          a.OnScreen layout := by
  have h0 : (newSource me peer layout).InBox := ⟨within_zero _, within_zero _⟩
  have hlayout : ∀ js, (machine.exec (newSource me peer layout) js).layout = layout := fun js =>
    machine.inv_exec (I := fun s => s.layout = layout) rfl
      (fun s c hs => (s.call_device c).layout.trans hs) js
  have hbox := inBox_exec h0 calls
  rw [InBox, hlayout] at hbox
  refine ⟨hbox.1, hbox.2, ?_⟩
  intro e he a ha
  obtain ⟨js, c, ks, -, rfl⟩ := machine.mem_trace_iff.1 he
  have hstep := (call_staysOnScreen (inBox_exec h0 js) c).2 a ha
  rwa [hlayout] at hstep

end EngineCore

end Mouser
