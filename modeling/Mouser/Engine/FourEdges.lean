import Mouser.Engine.Screen
import Mouser.Engine.Mirror

/-!
# The four edges are alike

Two runs of a source, the second in other coordinates. With the axes swapped, every run does the
same in the swapped coordinates. With left and right swapped two things can tell the runs apart: the
peer cursor starts in the corner `(0, 0)` of both screens, and a position half way between two is
rounded up on both. A run in which neither counts does the same in the mirrored coordinates; and
where the peer sits above or below, both touch the x-coordinates only.
-/

namespace Mouser

/-- The call has a mirror image on a screen of the given width. -/
def Call.HasMirror (width : Int32) : Call → Prop
  | .runtime (.localInput (.cursorMoved _ x _ dx _)) => OnAxis width x ∧ dx ≠ Int32.minValue
  | _ => True

instance (width : Int32) (c : Call) : Decidable (c.HasMirror width) :=
  match c with
  | .runtime (.localInput (.cursorMoved ..)) => inferInstanceAs (Decidable (_ ∧ _))
  | .runtime (.localInput (.button ..)) | .runtime (.localInput (.key ..))
  | .runtime (.localInput (.scroll ..)) | .runtime .tick | .runtime .suppressUnavailable
  | .runtime .injectionFailed | .runtime (.setPeerTrusted _) | .runtime (.setInputAllowed _)
  | .control _ | .motion _ => .isTrue trivial

namespace EngineCore

/-! ## What a step does -/

/-- The call moves the peer cursor. -/
def MovesPeerCursor (s : EngineCore) (c : Call) : Prop :=
  c.isCursor = true ∧ s.isOwner = false

/-- The call carries a position over a horizontal edge that falls half way between two of the other
screen. -/
def MapsHalfWay (s : EngineCore) : Call → Prop
  | .runtime (.localInput (.cursorMoved _ x y dx dy)) =>
    (s.layout.edge = .top ∨ s.layout.edge = .bottom) ∧
      (s.isOwner = true ∧ s.CrossesAt x y dx dy ∧
          HalfWay x s.layout.width s.layout.peerWidth ∨
        s.isOwner = false ∧ s.CrossesBackAt x y dx dy ∧
          HalfWay (s.movePeerCursor dx dy).peerX s.layout.peerWidth s.layout.width)
  | _ => False

/-- A grant that waits for an ack was made by a crossing. -/
theorem call_pendingAck {s : EngineCore} (h : s.pendingAck = none) {c : Call}
    (hc : ¬ s.Crosses c) : (s.call c).1.pendingAck = none := by
  have heff := s.call_effect c
  rw [← pendingEpoch_eq_none] at h ⊢
  generalize s.call c = r at heff ⊢
  obtain ⟨s', acts⟩ := r
  cases heff with
  | quiet _ hs => exact hs.pendingEpoch.trans h
  | cross _ hown hx => exact absurd ⟨hown, hx⟩ hc
  | reclaim => rfl
  | adopt => exact pendingEpoch_eq_none.2 (acceptTransfer_pendingAck ..)
  | refuse => exact h
  | settle _ _ _ hs => exact hs.pendingEpoch
  | inputCtr _ hs => exact hs.pendingEpoch.trans h
  | inputSeq hs => exact hs.pendingEpoch.trans h
  | failed => rw [pendingEpoch, onInjectionFailed_pendingAck, ← pendingEpoch, h]
  | trusted | allowed => exact h

/-! ## Steps side by side -/

/-- The two steps leave the same ownership, and the same edges armed. -/
structure SameFlags (e e' : Machine.Entry EngineCore Call (List Action)) : Prop where
  ownership : e'.post.ownership = e.post.ownership
  reclaimArmed : e'.post.reclaimArmed = e.post.reclaimArmed
  crossOutArmed : e'.post.crossOutArmed = e.post.crossOutArmed

/-- The second step is the first one in other coordinates. -/
structure Image (σ : Symmetry) (e e' : Machine.Entry EngineCore Call (List Action)) : Prop
    extends SameFlags e e' where
  output : e'.output = e.output.map (·.under σ)

/-- The two steps are the same but for the x-coordinates in their actions. -/
structure SameButX (layout : EdgeLayout) (e e' : Machine.Entry EngineCore Call (List Action)) : Prop
    extends SameFlags e e' where
  output : e'.output.map (·.under (.forgetX layout)) = e.output.map (·.under (.forgetX layout))

theorem image_of_resultUnder {σ : Symmetry} {s s' : EngineCore} {c : Call}
    (h : s'.call (c.under σ) = resultUnder σ (s.call c)) :
    Image σ (machine.entry s c) (machine.entry s' (c.under σ)) := by
  refine ⟨⟨?_, ?_, ?_⟩, congrArg Prod.snd h⟩
  · exact congrArg (fun r => r.1.ownership) h
  · exact congrArg (fun r => r.1.reclaimArmed) h
  · exact congrArg (fun r => r.1.crossOutArmed) h

theorem image_of_resultAt {σ : Symmetry} {p : Int32 × Int32} {s s' : EngineCore} {c : Call}
    (h : s'.call (c.under σ) = resultAt σ p (s.call c)) :
    Image σ (machine.entry s c) (machine.entry s' (c.under σ)) := by
  refine ⟨⟨?_, ?_, ?_⟩, congrArg Prod.snd h⟩
  · exact congrArg (fun r => r.1.ownership) h
  · exact congrArg (fun r => r.1.reclaimArmed) h
  · exact congrArg (fun r => r.1.crossOutArmed) h

/-- A source with the layout of the run. -/
structure SourceWith (layout : EdgeLayout) (s : EngineCore) : Prop where
  role : s.role = .source
  layout : s.layout = layout

theorem SourceWith.call {layout : EdgeLayout} {s : EngineCore} (h : SourceWith layout s)
    (c : Call) : SourceWith layout (s.call c).1 :=
  ⟨(s.call_device c).role.trans h.role, (s.call_device c).layout.trans h.layout⟩

section runs

variable (me peer : DeviceId) (layout : EdgeLayout) (calls : List Call)

/-- **Swapped axes.** -/
theorem transposed_run :
    List.Forall₂ (Image (.transpose layout)) (machine.trace (newSource me peer layout) calls)
      (machine.trace (newSource me peer layout.transpose)
        (calls.map (·.under (.transpose layout)))) := by
  refine machine.forall₂_trace machine (·.under (.transpose layout))
    (S := fun s s' => SourceWith layout s ∧ s' = s.under (.transpose layout))
    (G := fun _ => True) ?_ ⟨⟨rfl, rfl⟩, rfl⟩ calls fun _ _ => trivial
  rintro s _ c ⟨hs, rfl⟩ -
  have hcarries := s.carries_transpose c
  rw [hs.layout] at hcarries
  have hstep := hcarries.call_under hs.role
  exact ⟨⟨hs.call c, congrArg Prod.fst hstep⟩, image_of_resultUnder hstep⟩

theorem under_mirror_forgetX (c : Call) :
    (c.under (.mirror layout)).under (.forgetX layout) = c.under (.forgetX layout) := by
  cases c with
  | control frame =>
    cases frame with
    | scroll payload => cases payload <;> rfl
    | _ => rfl
  | motion datagram => cases datagram <;> rfl
  | runtime c =>
    cases c with
    | localInput event => cases event <;> rfl
    | _ => rfl

/-- **Left and right swapped, the peer above or below.** Both runs are the same run without its
x-coordinates. -/
theorem mirrored_run_of_vertical (hedge : layout.edge = .top ∨ layout.edge = .bottom) :
    List.Forall₂ (SameButX layout) (machine.trace (newSource me peer layout) calls)
      (machine.trace (newSource me peer layout.mirror)
        (calls.map (·.under (.mirror layout)))) := by
  have hmirror : layout.mirror = layout := by
    have hturned : layout.edge.mirror = layout.edge := by
      rcases hedge with hedge | hedge <;> rw [hedge] <;> rfl
    rw [EdgeLayout.mirror, hturned]
  rw [hmirror]
  refine machine.forall₂_trace machine (·.under (.mirror layout))
    (S := fun s s' => SourceWith layout s ∧ SourceWith layout s' ∧
      s.under (.forgetX layout) = s'.under (.forgetX layout))
    (G := fun _ => True) ?_ ⟨⟨rfl, rfl⟩, ⟨rfl, rfl⟩, rfl⟩ calls fun _ _ => trivial
  rintro s s' c ⟨hs, hs', hsame⟩ -
  have hcarries : ∀ {t : EngineCore}, SourceWith layout t → ∀ c : Call,
      (t.under (.forgetX layout)).call (c.under (.forgetX layout)) =
        resultUnder (.forgetX layout) (t.call c) := by
    intro t ht c
    have h := carries_forgetX (s := t) (by rwa [ht.layout]) c
    rw [ht.layout] at h
    exact h.call_under ht.role
  have hleft := hcarries hs c
  have hright := hcarries hs' (c.under (.mirror layout))
  rw [under_mirror_forgetX, ← hsame, hleft] at hright
  refine ⟨⟨hs.call c, hs'.call _, congrArg Prod.fst hright⟩, ⟨⟨?_, ?_, ?_⟩, ?_⟩⟩
  · exact (congrArg (fun r => r.1.ownership) hright).symm
  · exact (congrArg (fun r => r.1.reclaimArmed) hright).symm
  · exact (congrArg (fun r => r.1.crossOutArmed) hright).symm
  · exact (congrArg Prod.snd hright).symm

end runs

/-! ## Left and right swapped -/

/-- Before the peer cursor is moved, a crossing has put it in its place. -/
def Placed (tr : List (Machine.Entry EngineCore Call (List Action))) : Prop :=
  ∀ before e after, tr = before ++ e :: after → e.pre.MovesPeerCursor e.input →
    ∃ d ∈ before, d.pre.Crosses d.input

section mirror

variable {layout : EdgeLayout} (hw : 0 < layout.width) (hpw : 0 < layout.peerWidth)

include hw hpw

theorem carries_mirror {s : EngineCore} (hs : SourceWith layout s) (hbox : s.InBox) {c : Call}
    (hc : c.HasMirror layout.width) (hhalf : ¬ s.MapsHalfWay c) :
    Carries (.mirror layout) s c := by
  obtain rfl := hs.layout
  cases hcursor : c.isCursor with
  | false =>
    unfold Carries
    split
    · cases hcursor
    · trivial
  | true =>
    obtain ⟨d, x, y, dx, dy, rfl⟩ := eq_cursorMoved hcursor
    refine ⟨fun hown => ?_, fun hown => ?_⟩
    · refine carriesHome_mirror hw hpw hc.1 hc.2 y dy ?_
      exact fun hx hedge h => hhalf ⟨hedge, .inl ⟨hown, hx, h⟩⟩
    · refine carriesAway_mirror hw (hbox.1.onAxis hpw) hc.1 hc.2 y dy ?_
      exact fun hback hedge h => hhalf ⟨hedge, .inr ⟨hown, hback, h⟩⟩

/-- From where the peer cursor is in its place on both screens. -/
theorem mirrored_run_of_placed {s : EngineCore} (hs : SourceWith layout s) (hbox : s.InBox)
    {calls : List Call} (hcalls : ∀ c ∈ calls, c.HasMirror layout.width)
    (hhalf : ∀ e ∈ machine.trace s calls, ¬ e.pre.MapsHalfWay e.input) :
    List.Forall₂ (Image (.mirror layout)) (machine.trace s calls)
      (machine.trace (s.under (.mirror layout)) (calls.map (·.under (.mirror layout)))) := by
  refine machine.forall₂_trace machine (·.under (.mirror layout))
    (S := fun s s' => (SourceWith layout s ∧ s.InBox) ∧ s' = s.under (.mirror layout))
    (G := fun e => e.input.HasMirror layout.width ∧ ¬ e.pre.MapsHalfWay e.input) ?_
    ⟨⟨hs, hbox⟩, rfl⟩ calls ?_
  · rintro s _ c ⟨⟨hs, hbox⟩, rfl⟩ ⟨hc, hhalf⟩
    have hstep := (carries_mirror hw hpw hs hbox hc hhalf).call_under hs.role
    exact ⟨⟨⟨hs.call c, (call_staysOnScreen hbox c).1⟩, congrArg Prod.fst hstep⟩,
      image_of_resultUnder hstep⟩
  · intro e he
    refine ⟨?_, hhalf e he⟩
    obtain ⟨js, c, ks, rfl, rfl⟩ := machine.mem_trace_iff.1 he
    exact hcalls c (by simp)

/-- From a state in which no crossing has put the peer cursor in its place; the other core has it
wherever it likes. -/
theorem mirrored_run_of_unplaced {s : EngineCore} (hs : SourceWith layout s) (hbox : s.InBox)
    (hpending : s.pendingAck = none) (p : Int32 × Int32) {calls : List Call}
    (hcalls : ∀ c ∈ calls, c.HasMirror layout.width)
    (hplaced : Placed (machine.trace s calls))
    (hhalf : ∀ e ∈ machine.trace s calls, ¬ e.pre.MapsHalfWay e.input) :
    List.Forall₂ (Image (.mirror layout)) (machine.trace s calls)
      (machine.trace (s.relayout layout.mirror p) (calls.map (·.under (.mirror layout)))) := by
  induction calls generalizing s with
  | nil => exact .nil
  | cons c calls ih =>
    have hc := hcalls c (.head _)
    have hrest := fun c' hc' => hcalls c' (.tail _ hc')
    have hnow : ¬ s.MapsHalfWay c := hhalf _ (.head _)
    have hlater := fun e he => hhalf e (.tail _ he)
    have hs' := hs.call c
    have hbox' := (call_staysOnScreen hbox c).1
    have hmoves : ¬ s.MovesPeerCursor c := by
      intro hmoves
      obtain ⟨d, hd, -⟩ := hplaced [] _ _ rfl hmoves
      cases hd
    have hcarries := carries_mirror hw hpw hs hbox hc hnow
    rw [List.map_cons, machine.trace_cons, machine.trace_cons]
    by_cases hx : s.Crosses c
    · have hstep := hcarries.call_crosses hs.role hx p
      refine .cons (image_of_resultUnder hstep) ?_
      have hafter : (machine.step (s.relayout layout.mirror p) (c.under (.mirror layout))).1 =
          (s.call c).1.under (.mirror layout) := congrArg Prod.fst hstep
      rw [hafter]
      exact mirrored_run_of_placed hw hpw hs' hbox' hrest hlater
    · have hown : c.isCursor = true → s.isOwner = true := by
        intro hcursor
        by_contra haway
        exact hmoves ⟨hcursor, Bool.eq_false_iff.2 haway⟩
      have hstep := hcarries.call_stays hs.role hx hown hpending p
      refine .cons (image_of_resultAt hstep) ?_
      have hafter : (machine.step (s.relayout layout.mirror p) (c.under (.mirror layout))).1 =
          (s.call c).1.relayout layout.mirror p := congrArg Prod.fst hstep
      rw [hafter]
      refine ih hs' hbox' (call_pendingAck hpending hx) hrest ?_ hlater
      intro before e after heq he
      obtain ⟨d, hd, hdc⟩ := hplaced (machine.entry s c :: before) e after
        (congrArg (machine.entry s c :: ·) heq) he
      rcases List.mem_cons.1 hd with rfl | hd
      · exact absurd hdc hx
      · exact ⟨d, hd, hdc⟩

end mirror

theorem placed_of_crosses {e : Machine.Entry EngineCore Call (List Action)}
    (h : e.pre.Crosses e.input) (tr : List (Machine.Entry EngineCore Call (List Action))) :
    Placed (e :: tr) := by
  intro before d after heq hmoves
  cases before with
  | nil =>
    obtain ⟨rfl, -⟩ := List.cons.inj heq
    unfold Crosses at h
    split at h
    · exact absurd (h.1.symm.trans hmoves.2) (by decide)
    · exact h.elim
  | cons x before =>
    obtain ⟨rfl, -⟩ := List.cons.inj heq
    exact ⟨e, .head _, h⟩

/-- A position on a screen of even width is never half way. -/
theorem not_halfWay_of_even {pos srcLen dstLen : Int32} (h : srcLen.toInt % 2 = 0) :
    ¬ HalfWay pos srcLen dstLen := by
  rintro ⟨-, hhalf⟩
  omega

theorem not_mapsHalfWay_of_even {me peer : DeviceId} {layout : EdgeLayout} {calls : List Call}
    (hw : layout.width.toInt % 2 = 0) (hpw : layout.peerWidth.toInt % 2 = 0) :
    ∀ e ∈ machine.trace (newSource me peer layout) calls, ¬ e.pre.MapsHalfWay e.input := by
  intro e he hmaps
  have hlayout : e.pre.layout = layout :=
    machine.inv_trace (I := fun s => s.layout = layout) rfl
      (fun s c hs => (s.call_device c).layout.trans hs) he
  unfold MapsHalfWay at hmaps
  split at hmaps
  · rw [hlayout] at hmaps
    rcases hmaps.2 with ⟨-, -, hhalf⟩ | ⟨-, -, hhalf⟩
    · exact not_halfWay_of_even hw hhalf
    · exact not_halfWay_of_even hpw hhalf
  · exact hmaps

/-- The peer below, on a screen half as large. -/
def below : EdgeLayout := .withEdge 100 100 50 50 .bottom

/-- The cursor crosses out at the bottom, the grant is accepted, the cursor moves and comes back. -/
def thereAndBack : List Call :=
  [.runtime (.localInput (.cursorMoved 0 30 98 0 5)),
   .control (.ownershipAck (some ⟨1, true, none⟩)),
   .runtime (.localInput (.cursorMoved 0 30 98 4 20)),
   .runtime (.localInput (.cursorMoved 0 30 98 0 (-25)))]

/-- The peer to the right. -/
def beside : EdgeLayout := .sideBySide 100 100 100 100

/-- The peer is given input without a crossing, and the cursor moves left: away from the corner of
the peer's screen that its cursor starts in on the mirrored screen only. -/
def takenOver : List Call :=
  [.control (.ownershipTransfer (some ⟨(DeviceId.fill 2).bytes, 1, 0, .uiSelect⟩)),
   .runtime (.localInput (.cursorMoved 0 50 50 (-5) 0))]

/-- A screen of odd width, whose middle is half way between the two columns of the peer's. -/
def belowNarrow : EdgeLayout := .withEdge 101 100 2 100 .bottom

def crossedHalfWay : List Call :=
  [.runtime (.localInput (.cursorMoved 0 50 98 0 5)),
   .control (.ownershipAck (some ⟨1, true, none⟩))]

end EngineCore

end Mouser
