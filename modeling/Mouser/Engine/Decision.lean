import Mouser.Engine.Motions

/-!
# One machine gets each local event

A source decides for every event of its own devices whether this machine sees it too, and what of it
the peer gets. The decision is taken on many branches of `onLocalInput`; `one_machine` says that
they agree: this machine sees the event just when it owns input afterwards, and otherwise the peer
gets it, once and in the current epoch.
-/

namespace Mouser

/-- The capture decisions among the actions of a call. -/
def decisions (acts : List Action) : List CaptureDecision :=
  acts.filterMap fun
    | .capture decision => some decision
    | _ => none

/-- The frame that carries a key, a button or a scroll to the peer. -/
def LocalInputEvent.frame? (epoch ctr : UInt64) : LocalInputEvent → Option ControlFrame
  | .cursorMoved .. => none
  | .key usage down mods => some (.keyEvent (some ⟨usage, down, mods, epoch, ctr⟩))
  | .button b down => some (.pointerButton (some ⟨b, down, epoch, ctr⟩))
  | .scroll dx dy => some (.scroll (some ⟨dx, dy, .logicalPixel, epoch, ctr⟩))

/-- The event reports a cursor move. -/
def LocalInputEvent.isCursor : LocalInputEvent → Bool
  | .cursorMoved .. => true
  | _ => false

theorem LocalInputEvent.exists_frame? (event : LocalInputEvent) (hevent : ¬ event.isCursor)
    (epoch ctr : UInt64) : ∃ f, event.frame? epoch ctr = some f := by
  cases event with
  | cursorMoved => exact absurd rfl hevent
  | key | button | scroll => exact ⟨_, rfl⟩

namespace EngineCore

/-- This machine sees the event just when it owns input afterwards. -/
def Decides (s' : EngineCore) (acts : List Action) : Prop :=
  decisions acts = [if s'.isOwner then .passThrough else .suppress]

/-- The event is forwarded as one motion of the current epoch. -/
structure SendsMotion (s s' : EngineCore) (acts : List Action) : Prop where
  motions : ∃ m, motions acts = [m] ∧ m.ownerEpoch = s'.epoch
  frames : frames acts = []
  ownership : s'.ownership = s.ownership

/-- The event changes the owner, and the peer is told by one transfer. -/
structure ChangesOwner (s s' : EngineCore) (acts : List Action) : Prop where
  owner : s'.owner ≠ s.owner
  frames : ∃ t, frames acts = [.ownershipTransfer (some t)] ∧ t.recipient = s'.owner.bytes ∧
    t.ownerEpoch = s'.epoch
  motions : motions acts = []

/-- The event is passed through, and nothing else happens. -/
structure PassesThrough (s s' : EngineCore) (acts : List Action) : Prop where
  actions : acts = [.capture .passThrough]
  ownership : s'.ownership = s.ownership

section outcomes

variable {s s' : EngineCore} {acts : List Action}

theorem decides_of_owner (hown : s'.isOwner = true) (hacts : decisions acts = [.passThrough]) :
    Decides s' acts := by
  rw [Decides, hown]
  exact hacts

theorem decides_of_away (haway : s'.isOwner = false) (hacts : decisions acts = [.suppress]) :
    Decides s' acts := by
  rw [Decides, haway]
  exact hacts

theorem SendsMotion.not_changesOwner (h : SendsMotion s s' acts) : ¬ ChangesOwner s s' acts :=
  fun h' => h'.owner (congrArg Ownership.owner h.ownership)

theorem SendsMotion.not_passesThrough (h : SendsMotion s s' acts) : ¬ PassesThrough s s' acts := by
  intro h'
  obtain ⟨m, hm, -⟩ := h.motions
  rw [h'.actions] at hm
  cases hm

theorem ChangesOwner.not_passesThrough (h : ChangesOwner s s' acts) : ¬ PassesThrough s s' acts :=
  fun h' => h.owner (congrArg Ownership.owner h'.ownership)

end outcomes

section cursor

variable {s : EngineCore}

/-- Input that is taken back is seen by this machine. -/
theorem reclaim_changesOwner {t : EngineCore} (ht : SameHandoff s t) (haway : s.isOwner = false)
    (post : List Action) (hframes : frames post = []) (hmotions : motions post = [])
    (hdecisions : decisions post = []) :
    Decides t.reclaimLocal.1 (t.reclaimLocal.2 ++ post) ∧
      ChangesOwner s t.reclaimLocal.1 (t.reclaimLocal.2 ++ post) := by
  have hown : t.reclaimLocal.1.isOwner = true := Ownership.isOwner_iff.2 rfl
  have hme : t.reclaimLocal.1.owner = s.me := ht.device.me
  refine ⟨decides_of_owner hown ?_, ?_,
    ⟨⟨t.me.bytes, t.ownership.reclaim.2, 0, .localReclaim⟩, ?_, rfl, rfl⟩, ?_⟩
  · rw [decisions, List.filterMap_append, ← decisions, ← decisions, hdecisions]
    rfl
  · intro howner
    have hback : s.isOwner = true := Ownership.isOwner_iff.2 (howner.symm.trans hme)
    rw [hback] at haway
    cases haway
  · rw [frames_append, hframes]
    rfl
  · rw [Mouser.motions, List.filterMap_append, ← Mouser.motions, ← Mouser.motions, hmotions]
    rfl

/-- Where a cursor event goes. -/
theorem onCursor_outcome (hpeer : s.peer ≠ s.me) (x y dx dy : Int32) :
    let r := s.onCursor x y dx dy s.isOwner
    Decides r.1 r.2 ∧
      (SendsMotion s r.1 r.2 ∨ ChangesOwner s r.1 r.2 ∨ PassesThrough s r.1 r.2) := by
  dsimp only
  have htravel : SameHandoff s (s.travelled dx dy) := ⟨⟨rfl, rfl, rfl, rfl, rfl, rfl⟩, rfl, rfl⟩
  have hmove := htravel.trans (movePeerCursor_same _ dx dy)
  have hcases := s.onCursor_cases x y dx dy s.isOwner
  generalize s.onCursor x y dx dy s.isOwner = r at hcases ⊢
  generalize hown : s.isOwner = owns at hcases
  cases hcases with
  | crossed =>
    have haway := s.crossToPeer_isOwner hown x y
    rw [decide_eq_false hpeer] at haway
    rw [crossToPeer_eq s hown, Ownership.grantTo_of_isOwner hown] at haway ⊢
    refine ⟨decides_of_away haway rfl, .inr (.inl ⟨?_, ⟨_, rfl, rfl, rfl⟩, rfl⟩)⟩
    intro howner
    exact hpeer (howner.trans (Ownership.isOwner_iff.1 hown))
  | rearmed | passed => exact ⟨decides_of_owner hown rfl, .inr (.inr ⟨rfl, rfl⟩)⟩
  | escaped =>
    have h := reclaim_changesOwner (.refl s) hown [] rfl rfl rfl
    rw [List.append_nil] at h
    exact ⟨h.1, .inr (.inl h.2)⟩
  | pushed =>
    have h := reclaim_changesOwner htravel hown [] rfl rfl rfl
    rw [List.append_nil] at h
    exact ⟨h.1, .inr (.inl h.2)⟩
  | @returned t ht =>
    rw [← ht] at hmove
    obtain ⟨x, y, hwarp, -⟩ := t.entryEdgeWarp_within
    have h := reclaim_changesOwner hmove hown [t.entryEdgeWarp] (by rw [hwarp]; rfl)
      (by rw [hwarp]; rfl) (by rw [hwarp]; rfl)
    exact ⟨h.1, .inr (.inl h.2)⟩
  | @moved t ht =>
    rw [← ht] at hmove
    have haway : t.nextSeq.1.isOwner = false :=
      (congrArg Ownership.isOwner hmove.ownership).trans hown
    exact ⟨decides_of_away haway rfl, .inl ⟨⟨_, rfl, rfl⟩, rfl, hmove.ownership⟩⟩

end cursor

/-- `onLocalInput` of a key, a button or a scroll. -/
theorem onLocalInput_eq {s : EngineCore} (hrole : s.role = .source) {event : LocalInputEvent}
    {f : ControlFrame} (hf : event.frame? s.epoch (s.outCtr.saturatingAdd 1) = some f) :
    s.onLocalInput event =
      if s.isOwner then (s, [.capture .passThrough])
      else (s.nextCtr.1, [.sendControl f, .capture .suppress]) := by
  have hsource : ¬ s.role ≠ .source := not_not.2 hrole
  cases event with
  | cursorMoved => cases hf
  | key | button | scroll =>
    cases hf
    rw [onLocalInput, if_neg hsource]
    rfl

/-- A key, a button or a scroll goes to this machine or, in one frame, to the peer. -/
theorem onLocalInput_frame {s : EngineCore} (hrole : s.role = .source) {event : LocalInputEvent}
    (hevent : ¬ event.isCursor) :
    let r := s.onLocalInput event
    Decides r.1 r.2 ∧ r.1.ownership = s.ownership ∧ motions r.2 = [] ∧
      ∃ f, event.frame? r.1.epoch r.1.outCtr = some f ∧
        frames r.2 = if r.1.isOwner then [] else [f] := by
  dsimp only
  obtain ⟨f, hf⟩ := event.exists_frame? hevent s.epoch (s.outCtr.saturatingAdd 1)
  rw [onLocalInput_eq hrole hf]
  cases hown : s.isOwner with
  | true =>
    obtain ⟨g, hg⟩ := event.exists_frame? hevent s.epoch s.outCtr
    refine ⟨decides_of_owner hown rfl, rfl, rfl, g, hg, ?_⟩
    rw [if_pos rfl, if_pos hown]
    rfl
  | false =>
    have haway : s.nextCtr.1.isOwner = false := hown
    refine ⟨decides_of_away haway rfl, rfl, rfl, f, hf, ?_⟩
    rw [if_neg Bool.false_ne_true, if_neg (by rw [haway]; decide)]
    rfl

/-- **One machine gets each local event.** A source whose peer is another device decides once for
every event: this machine sees it if it owns input afterwards, and does not if it does not. A key, a
button or a scroll that this machine does not see goes to the peer in one frame of the current
epoch, and one that it sees in none. A cursor event is forwarded as one motion of the current epoch,
or changes the owner with one transfer, or is passed through and no more, and it is only one of
these. -/
theorem one_machine (s : EngineCore) (hrole : s.role = .source) (hpeer : s.peer ≠ s.me)
    (event : LocalInputEvent) :
    let r := s.onLocalInput event
    Decides r.1 r.2 ∧
      if event.isCursor then
        (SendsMotion s r.1 r.2 ∨ ChangesOwner s r.1 r.2 ∨ PassesThrough s r.1 r.2) ∧
          ¬ (SendsMotion s r.1 r.2 ∧ ChangesOwner s r.1 r.2) ∧
          ¬ (SendsMotion s r.1 r.2 ∧ PassesThrough s r.1 r.2) ∧
          ¬ (ChangesOwner s r.1 r.2 ∧ PassesThrough s r.1 r.2)
      else
        r.1.ownership = s.ownership ∧ motions r.2 = [] ∧
          ∃ f, event.frame? r.1.epoch r.1.outCtr = some f ∧
            frames r.2 = if r.1.isOwner then [] else [f] := by
  dsimp only
  split
  · next hevent =>
    cases event with
    | cursorMoved d x y dx dy =>
      have hcursor : s.onLocalInput (.cursorMoved d x y dx dy) = s.onCursor x y dx dy s.isOwner :=
        call_cursorMoved hrole d x y dx dy
      rw [hcursor]
      obtain ⟨hdecides, houtcome⟩ := onCursor_outcome hpeer x y dx dy
      exact ⟨hdecides, houtcome, fun h => h.1.not_changesOwner h.2,
        fun h => h.1.not_passesThrough h.2, fun h => h.1.not_passesThrough h.2⟩
    | key | button | scroll => cases hevent
  · next hevent => exact onLocalInput_frame hrole hevent

/-- A crossing to the peer, and a scroll after it. -/
theorem one_machine_scrolled :
    let s := ((newSource (.fill 1) (.fill 2) (.sideBySide 100 100 100 100)).onLocalInput
      (.cursorMoved 0 98 50 5 0)).1
    let r := s.onLocalInput (.scroll 0 1)
    Decides r.1 r.2 ∧ motions r.2 = [] ∧
      frames r.2 = [.scroll (some ⟨0, 1, .logicalPixel, 1, 1⟩)] := by
  intro s r
  obtain ⟨hdecides, -, hmotions, f, hf, hframes⟩ := one_machine s rfl (by decide) (.scroll 0 1)
  refine ⟨hdecides, hmotions, hframes.trans ?_⟩
  cases hf
  decide

end EngineCore

end Mouser
