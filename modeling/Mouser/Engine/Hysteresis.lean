import Mouser.Engine.Turn

/-!
# No ping-pong at the edge

Two flags keep input from bouncing between the machines. `crossOutArmed` is cleared when input comes
back and set once the cursor has left the edge, and `reclaimArmed` is cleared when input goes to the
peer and set once the peer cursor has left the edge it entered by. So of two crossings in a row the
second waits for the first flag (`crossing_rearmed`) and a crossing back for the second (`Entered`).
-/

namespace Mouser

namespace EngineCore

/-- How far the cursor is from the edge that it crosses. -/
def edgeDistance (s : EngineCore) (x y : Int32) : ℤ :=
  match s.layout.edge with
  | .left => x.toInt
  | .right => max (s.layout.width.toInt - 1) 0 - x.toInt
  | .top => y.toInt
  | .bottom => max (s.layout.height.toInt - 1) 0 - y.toInt

/-- The owner's cursor was seen away from the edge, and the event did not cross. -/
def LeavesEdge (en : Machine.Entry EngineCore Call (List Action)) : Prop :=
  en.pre.isOwner = true ∧ ¬ en.pre.Crosses en.input ∧
    ∃ d x y dx dy, en.input = .runtime (.localInput (.cursorMoved d x y dx dy)) ∧
      edgeRearmMargin.toInt < en.pre.edgeDistance x y

/-- Input went to another device: the cursor crossed, or a claim for another device was adopted. -/
def HandsOver (en : Machine.Entry EngineCore Call (List Action)) : Prop :=
  en.pre.Crosses en.input ∨
    ∃ t owner, en.input = .control (.ownershipTransfer (some t)) ∧
      toId t.recipient = some owner ∧ owner ≠ en.pre.me ∧
        en.pre.ownership.Adopts owner t.ownerEpoch (t.reason = .localReclaim)

/-- The peer cursor took input back by coming home over the edge. -/
def CrossesBack (en : Machine.Entry EngineCore Call (List Action)) : Prop :=
  en.pre.isOwner = false ∧
    ∃ d x y dx dy, en.input = .runtime (.localInput (.cursorMoved d x y dx dy)) ∧
      en.pre.CrossesBackAt x y dx dy

section step

variable {s : EngineCore} {c : Call}

theorem localLeftCrossEdge_iff (s : EngineCore) (x y : Int32) :
    s.localLeftCrossEdge x y = true ↔ edgeRearmMargin.toInt < s.edgeDistance x y := by
  have hmargin : edgeRearmMargin.toInt = 8 := rfl
  have hx := toInt_last s.layout.width
  have hy := toInt_last s.layout.height
  unfold localLeftCrossEdge edgeDistance
  cases s.layout.edge with
  | left | top => exact decide_eq_true_iff.trans Int32.lt_iff_toInt_lt
  | right =>
    have hlt := (max (s.layout.width.saturatingSub 1) 0).toInt_lt
    dsimp only
    rw [decide_eq_true_iff, Int32.lt_iff_toInt_lt, Int32.toInt_saturatingSub]
    omega
  | bottom =>
    have hlt := (max (s.layout.height.saturatingSub 1) 0).toInt_lt
    dsimp only
    rw [decide_eq_true_iff, Int32.lt_iff_toInt_lt, Int32.toInt_saturatingSub]
    omega

/-! ## Out again -/

/-- Once the edge is disarmed it stays so until the cursor leaves it. -/
theorem disarmed_call (hrole : s.role = .source) (hpeer : s.peer ≠ s.me)
    (h : s.isOwner = false ∨ s.crossOutArmed = false) (hc : ¬ LeavesEdge (machine.entry s c)) :
    (s.call c).1.isOwner = false ∨ (s.call c).1.crossOutArmed = false := by
  have hturn := s.call_turn c
  have hme := (s.call_device c).me
  generalize (s.call c).1 = s' at hturn hme ⊢
  cases hturn with
  | kept _ hl | alive _ hl | settled _ _ hl | ticked _ _ hl | moved _ _ _ _ _ _ hl =>
    have hown := isOwner_of_owner (congrArg Latches.owner hl) hme
    have harmed : s'.crossOutArmed = s.crossOutArmed := congrArg Latches.crossOutArmed hl
    rwa [hown, harmed]
  | reclaimed _ _ _ hl => exact .inr (congrArg Latches.crossOutArmed hl)
  | @adopted t owner s' _ _ _ hl =>
    by_cases ho : owner = s.me
    · have harmed : s'.crossOutArmed = _ := congrArg Latches.crossOutArmed hl
      exact .inr (harmed.trans (if_pos ⟨ho, hrole⟩))
    · exact .inl (not_isOwner_of_owner (congrArg Latches.owner hl) ho hme)
  | handed _ hl | crossed _ _ _ hl =>
    exact .inl (not_isOwner_of_owner (congrArg Latches.owner hl) hpeer hme)
  | @rearmed d x y dx dy s' hown hoff hleft =>
    refine absurd ⟨hown, ?_, d, x, y, dx, dy, rfl, (s.localLeftCrossEdge_iff x y).1 hleft⟩ hc
    rintro ⟨-, harmed, -⟩
    exact Bool.false_ne_true (hoff.symm.trans harmed)

/-- Between two crossings the cursor leaves the edge. -/
theorem crossing_rearmed (hrole : s.role = .source) (hpeer : s.peer ≠ s.me)
    (hcross : s.Crosses c) (calls : List Call) {c' : Call}
    (hcross' : (machine.exec (s.call c).1 calls).Crosses c') :
    ∃ en ∈ machine.trace (s.call c).1 calls, LeavesEdge en := by
  by_contra hno
  have hdevice := s.call_device c
  have hend := machine.inv_exec_of (s := (s.call c).1)
    (I := fun t => t.role = .source ∧ t.peer ≠ t.me ∧
      (t.isOwner = false ∨ t.crossOutArmed = false)) (G := fun en => ¬ LeavesEdge en)
    ⟨hdevice.role.trans hrole, by rwa [hdevice.peer, hdevice.me],
      .inl (not_isOwner_of_crosses hrole hpeer hcross)⟩
    (fun t i ht hi => by
      have ht' : SameDevice t (machine.step t i).1 := t.call_device i
      exact ⟨ht'.role.trans ht.1, by rw [ht'.peer, ht'.me]; exact ht.2.1,
        disarmed_call ht.1 ht.2.1 ht.2.2 hi⟩)
    calls (fun en hen hleave => hno ⟨en, hen, hleave⟩)
  generalize machine.exec (s.call c).1 calls = t at hcross' hend
  unfold Crosses at hcross'
  split at hcross'
  · obtain ⟨hown, harmed, -⟩ := hcross'
    rw [hown, harmed] at hend
    rcases hend.2.2 with h | h <;> cases h
  · exact hcross'

/-! ## Back again -/

/-- A peer cursor that crosses back is at the edge it entered by. -/
theorem not_peerLeftEntryEdge {dx dy : Int32} (hbox : s.InBox)
    (hback : s.crossesBack dx dy = true) : s.peerLeftEntryEdge = false := by
  have hx := toInt_last s.layout.peerWidth
  have hy := toInt_last s.layout.peerHeight
  have h0 : (0 : Int32).toInt = 0 := rfl
  obtain ⟨⟨hx0, -⟩, hy0, -⟩ := hbox
  unfold crossesBack at hback
  unfold peerLeftEntryEdge
  cases hedge : s.layout.edge <;> rw [hedge] at hback <;>
    simp only [Bool.and_eq_true, decide_eq_true_eq, decide_eq_false_iff_not, ge_iff_le, gt_iff_lt,
      Int32.le_iff_toInt_le, Int32.lt_iff_toInt_lt, Int32.toInt_max] at hback hx hy ⊢ <;> omega

/-- Input that goes to another device disarms the way back. -/
theorem reclaimArmed_of_handsOver (hrole : s.role = .source)
    (h : HandsOver (machine.entry s c)) : (s.call c).1.reclaimArmed = false := by
  rcases h with hcross | ⟨t, owner, hc, hto, hne, had⟩
  · exact congrArg Latches.reclaimArmed (latches_of_crosses hrole hcross)
  · obtain rfl : c = .control (.ownershipTransfer (some t)) := hc
    have hcall : s.onTransfer (some t) = _ :=
      onTransfer_of_adopts hto (fun ho => absurd ho hne) had
    change (s.onTransfer (some t)).1.reclaimArmed = false
    rw [hcall]
    exact (congrArg Latches.reclaimArmed (s.latches_acceptTransfer _ owner t.ownerEpoch)).trans
      (if_pos ⟨hne, hrole⟩)

theorem peerLeftEntryEdge_moved (s : EngineCore) (dx dy : Int32) :
    ((s.travelled dx dy).movePeerCursor dx dy).nextSeq.1.peerLeftEntryEdge =
      (s.shifted dx dy).peerLeftEntryEdge := by
  have hkeep : ∀ (u : EngineCore) (armed : Bool),
      ({ u with reclaimArmed := armed } : EngineCore).nextSeq.1.peerLeftEntryEdge =
        u.peerLeftEntryEdge := fun _ _ => rfl
  rw [movePeerCursor_eq]
  exact hkeep ((s.travelled dx dy).shifted dx dy) _

/-- A call after which input is away, and that did not hand it over, found it away, and arms the way
back only if the peer cursor has left its edge. -/
theorem armed_call (hfail : c ≠ .runtime .injectionFailed)
    (hhand : ¬ HandsOver (machine.entry s c)) (haway : (s.call c).1.isOwner = false) :
    s.isOwner = false ∧ ((s.call c).1.reclaimArmed = true →
      s.reclaimArmed = true ∨ (s.call c).1.peerLeftEntryEdge = true) := by
  have hturn := s.call_turn c
  have hme := (s.call_device c).me
  generalize (s.call c).1 = s' at hturn hme haway ⊢
  cases hturn with
  | kept _ hl | alive _ hl | settled _ _ hl | ticked _ _ hl =>
    have hown := isOwner_of_owner (congrArg Latches.owner hl) hme
    have harmed : s'.reclaimArmed = s.reclaimArmed := congrArg Latches.reclaimArmed hl
    exact ⟨hown.symm.trans haway, fun h => .inl (harmed.symm.trans h)⟩
  | reclaimed _ _ _ hl =>
    rw [isOwner_of_me (congrArg Latches.owner hl) hme] at haway
    cases haway
  | @adopted t owner s' hto _ had hl =>
    by_cases ho : owner = s.me
    · rw [isOwner_of_me ((congrArg Latches.owner hl).trans ho) hme] at haway
      cases haway
    · exact absurd (.inr ⟨t, owner, rfl, hto, ho, had⟩) hhand
  | handed => exact absurd rfl hfail
  | rearmed hown _ _ hl =>
    rw [isOwner_of_owner (congrArg Latches.owner hl) hme, hown] at haway
    cases haway
  | crossed _ hown hx => exact absurd (.inl ⟨hown, hx⟩) hhand
  | @moved d x y dx dy _ _ hown _ _ _ hs hl =>
    refine ⟨hown, ?_⟩
    have hleft : s'.peerLeftEntryEdge = (s.shifted dx dy).peerLeftEntryEdge :=
      (congrArg peerLeftEntryEdge hs).trans (peerLeftEntryEdge_moved s dx dy)
    have harmed : s'.reclaimArmed = (s.reclaimArmed || (s.shifted dx dy).peerLeftEntryEdge) :=
      congrArg Latches.reclaimArmed hl
    rw [harmed, hleft, Bool.or_eq_true]
    exact id

end step

/-- While input is away: it was handed over, and if the way back is armed, the peer cursor has left
its edge since. -/
def Entered (steps : List (Machine.Entry EngineCore Call (List Action))) (s : EngineCore) : Prop :=
  s.isOwner = false → ∃ before h mid, steps = before ++ h :: mid ∧ HandsOver h ∧
    (∀ en ∈ mid, ¬ HandsOver en) ∧
      (s.reclaimArmed = true → ∃ en ∈ mid, en.post.peerLeftEntryEdge = true)

theorem Entered.call {steps : List (Machine.Entry EngineCore Call (List Action))} {s : EngineCore}
    (h : Entered steps s) (hrole : s.role = .source) {c : Call}
    (hfail : c ≠ .runtime .injectionFailed) :
    Entered (steps ++ [machine.entry s c]) (s.call c).1 := by
  intro haway
  by_cases hhand : HandsOver (machine.entry s c)
  · refine ⟨steps, machine.entry s c, [], rfl, hhand, by simp, ?_⟩
    rw [reclaimArmed_of_handsOver hrole hhand]
    nofun
  · obtain ⟨hbefore, harmed⟩ := armed_call hfail hhand haway
    obtain ⟨before, g, mid, rfl, hg, hmid, hleft⟩ := h hbefore
    refine ⟨before, g, mid ++ [machine.entry s c], by simp, hg, ?_, ?_⟩
    · intro en hen
      rcases List.mem_append.1 hen with hen | hen
      · exact hmid en hen
      · rwa [List.mem_singleton.1 hen]
    · intro hnow
      rcases harmed hnow with hs | hs
      · obtain ⟨en, hen, hl⟩ := hleft hs
        exact ⟨en, List.mem_append_left _ hen, hl⟩
      · exact ⟨machine.entry s c, List.mem_append_right _ (.head _), hs⟩

theorem entered_exec (me peer : DeviceId) (layout : EdgeLayout) (calls : List Call)
    (hfail : .runtime .injectionFailed ∉ calls) :
    Entered (machine.trace (newSource me peer layout) calls)
      (machine.exec (newSource me peer layout) calls) := by
  have howner : (newSource me peer layout).isOwner = true := Ownership.isOwner_iff.2 rfl
  have hG : ∀ en ∈ machine.trace (newSource me peer layout) calls,
      en.input ≠ .runtime .injectionFailed := by
    intro en hen heq
    obtain ⟨js, i, ks, rfl, rfl⟩ := machine.mem_trace_iff.1 hen
    exact hfail (heq ▸ List.mem_append_right js (.head ks))
  refine (machine.induct (P := fun tr t => t.role = .source ∧ Entered tr t)
    (G := fun en => en.input ≠ .runtime .injectionFailed) ⟨rfl, ?_⟩ ?_ calls hG).2
  · intro haway
    rw [howner] at haway
    cases haway
  · intro tr t i ht hi
    exact ⟨(t.call_device i).role.trans ht.1, ht.2.call ht.1 hi⟩

/-- **No ping-pong.** In every run of a source: between two crossings to another device there is a
cursor event at which the source owned input, more than the margin away from the edge, that did not
cross; and while no injection fails, a crossing back comes after an event, later than the last
handover, after which the peer cursor was off its entry edge. -/
theorem no_ping_pong (me peer : DeviceId) (layout : EdgeLayout) (calls : List Call) :
    let steps := machine.trace (newSource me peer layout) calls
    (peer ≠ me → ∀ before a mid b after, steps = before ++ a :: (mid ++ b :: after) →
      a.pre.Crosses a.input → b.pre.Crosses b.input → ∃ en ∈ mid, LeavesEdge en) ∧
    (.runtime .injectionFailed ∉ calls → ∀ before b after, steps = before ++ b :: after →
      CrossesBack b → ∃ early h mid, before = early ++ h :: mid ∧ HandsOver h ∧
        (∀ en ∈ mid, ¬ HandsOver en) ∧ ∃ en ∈ mid, en.post.peerLeftEntryEdge = true) := by
  refine ⟨?_, ?_⟩
  · intro hne before a mid b after hsteps hcross hcross'
    obtain ⟨js, c, ks, rfl, rfl, rfl⟩ := machine.trace_eq_append_cons hsteps
    have hdevice : SameDevice (newSource me peer layout)
        (machine.exec (newSource me peer layout) js) :=
      machine.inv_exec (device_refl _) (fun t i ht => ht.trans (t.call_device i)) js
    rw [machine.trace_append, machine.trace_cons] at hsteps
    have hrest := (List.cons.inj (List.append_cancel_left hsteps)).2
    obtain ⟨ls, c', ms, rfl, rfl, rfl⟩ := machine.trace_eq_append_cons hrest
    exact crossing_rearmed hdevice.role
      (by rw [hdevice.peer, hdevice.me]; exact hne) hcross ls hcross'
  · intro hfail before b after hsteps hback
    obtain ⟨js, c, ks, rfl, rfl, rfl⟩ := machine.trace_eq_append_cons hsteps
    have hentered := entered_exec me peer layout js fun hmem => hfail (List.mem_append_left _ hmem)
    obtain ⟨haway, d, x, y, dx, dy, -, -, -, harmed, hcrosses⟩ := hback
    obtain ⟨early, h, mid, heq, hhand, hmid, hleft⟩ := hentered haway
    refine ⟨early, h, mid, heq, hhand, hmid, hleft ?_⟩
    -- the move itself has not armed the way back, because it ended at the edge
    have hedge := not_peerLeftEntryEdge (inBox_movePeerCursor _ dx dy) hcrosses
    rw [movePeerCursor_eq] at harmed hedge
    have hor := Bool.or_eq_true_iff.1 harmed
    exact hor.resolve_right fun hl => Bool.eq_false_iff.1 hedge hl

/-- Out, home because the peer leaves, off the edge, out again, further out and back home. -/
def outTwice : List Call :=
  [.runtime (.localInput (.cursorMoved 0 98 50 5 0)), .control (.goodbye (some ⟨.shutdown⟩)),
   .runtime (.localInput (.cursorMoved 0 50 50 0 0)),
   .runtime (.localInput (.cursorMoved 0 98 50 5 0)),
   .runtime (.localInput (.cursorMoved 0 50 50 40 0)),
   .runtime (.localInput (.cursorMoved 0 50 50 (-50) 0))]

theorem no_ping_pong_outTwice :
    let steps := machine.trace (newSource (.fill 1) (.fill 2) (.sideBySide 100 100 100 100))
      outTwice
    (∃ en ∈ (steps.drop 1).take 2, LeavesEdge en) ∧
      ∃ early h mid, steps.take 5 = early ++ h :: mid ∧ HandsOver h ∧
        (∀ en ∈ mid, ¬ HandsOver en) ∧ ∃ en ∈ mid, en.post.peerLeftEntryEdge = true := by
  intro steps
  have h := no_ping_pong (.fill 1) (.fill 2) (.sideBySide 100 100 100 100) outTwice
  refine ⟨h.1 (by decide) [] _ ((steps.drop 1).take 2) _ (steps.drop 4) rfl ?_ ?_,
    h.2 ?_ (steps.take 5) _ [] rfl ?_⟩
  · exact ⟨by decide, by decide, by decide, by decide⟩
  · exact ⟨by decide, by decide, by decide, by decide⟩
  · simp [outTwice]
  · exact ⟨by decide, 0, 50, 50, -50, 0, rfl, by decide, by decide, by decide, by decide⟩

/-- A source that is its own peer owns input after a crossing, and crosses again from where it
is. -/
theorem crosses_to_itself :
    ¬ ∀ before a mid b after,
      machine.trace (newSource (.fill 1) (.fill 1) (.sideBySide 100 100 100 100))
          [.runtime (.localInput (.cursorMoved 0 98 50 5 0)),
            .runtime (.localInput (.cursorMoved 0 98 50 5 0))] =
        before ++ a :: (mid ++ b :: after) →
      a.pre.Crosses a.input → b.pre.Crosses b.input → ∃ en ∈ mid, LeavesEdge en := by
  intro h
  obtain ⟨en, hen, -⟩ := h [] _ [] _ [] rfl ⟨by decide, by decide, by decide, by decide⟩
    ⟨by decide, by decide, by decide, by decide⟩
  cases hen

end EngineCore

end Mouser
