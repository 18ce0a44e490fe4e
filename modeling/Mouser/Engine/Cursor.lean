import Mouser.Lib.Rounding
import Mouser.Engine.Effect

/-!
# The cursor of the peer

A source that has given input away keeps a cursor for the peer's screen. A device delta counts as
travel towards home (`travelled`), then moves the cursor inside the screen (`movePeerCursor`), and
`mapAxisFraction` carries a position from one screen to the other. All of it stays on the axis it is
on, whatever the lengths of the axes are.
-/

namespace Mouser

/-! ## Positions -/

/-- A position on an axis of length `len`; an axis without positions has the position 0. -/
def Within (len p : Int32) : Prop := 0 ≤ p.toInt ∧ p.toInt ≤ max (len.toInt - 1) 0

theorem toInt_last (len : Int32) :
    (max (len.saturatingSub 1) 0).toInt = max (len.toInt - 1) 0 := by
  have hlo := len.le_toInt
  have hhi := len.toInt_lt
  have h0 : (0 : Int32).toInt = 0 := rfl
  have h1 : (1 : Int32).toInt = 1 := rfl
  rw [Int32.toInt_max, Int32.toInt_saturatingSub]
  omega

theorem within_zero (len : Int32) : Within len 0 := by
  have h0 : (0 : Int32).toInt = 0 := rfl
  rw [Within, h0]
  omega

theorem within_last (len : Int32) : Within len (max (len.saturatingSub 1) 0) := by
  rw [Within, toInt_last]
  omega

theorem within_clamp (v len : Int32) : Within len (clamp v 0 (max (len.saturatingSub 1) 0)) := by
  have h0 : (0 : Int32).toInt = 0 := rfl
  rw [Within, toInt_clamp, toInt_last]
  omega

theorem toInt_clampBetween {v lo hi : Int32} (h : lo.toInt ≤ hi.toInt) :
    (v.clampBetween lo hi).toInt = min (max v.toInt lo.toInt) hi.toInt := by
  unfold Int32.clampBetween
  simp only [Int32.lt_iff_toInt_lt]
  split
  · omega
  · split <;> omega

/-- The operands of `mapAxisFraction`: the last position of the one axis, and the position on it. -/
theorem fraction_operands (pos srcLen : Int32) :
    (max (srcLen.saturatingSub 1) 1).toInt = max (srcLen.toInt - 1) 1 ∧
      (pos.clampBetween 0 (max (srcLen.saturatingSub 1) 1)).toInt =
        min (max pos.toInt 0) (max (srcLen.toInt - 1) 1) := by
  have hlo := srcLen.le_toInt
  have hhi := srcLen.toInt_lt
  have h0 : (0 : Int32).toInt = 0 := rfl
  have h1 : (1 : Int32).toInt = 1 := rfl
  have hS : (max (srcLen.saturatingSub 1) 1).toInt = max (srcLen.toInt - 1) 1 := by
    rw [Int32.toInt_max, Int32.toInt_saturatingSub]
    omega
  refine ⟨hS, ?_⟩
  rw [toInt_clampBetween (by omega), hS, h0]

/-- Division to the nearest keeps a product on the other axis. -/
theorem fraction_bounds {p S D : Int} (hS : 0 < S) (hD : 0 ≤ D) (hp : 0 ≤ p) (hpS : p ≤ S) :
    0 ≤ p * D ∧ p * D ≤ S * D ∧ (p * D + S.tdiv 2).tdiv S = (p * D).roundDiv S ∧
      0 ≤ (p * D).roundDiv S ∧ (p * D).roundDiv S ≤ D := by
  have hm : 0 ≤ p * D := Int.mul_nonneg hp hD
  have hmD : p * D ≤ S * D := Int.mul_le_mul_of_nonneg_right hpS hD
  have htwo : S.tdiv 2 = S / 2 := Int.tdiv_eq_ediv_of_nonneg (by omega)
  refine ⟨hm, hmD, ?_, Int.roundDiv_bounds hS hm hmD⟩
  rw [htwo, Int.tdiv_eq_ediv_of_nonneg (by omega), Int.roundDiv]

/-- The position that keeps the fraction, rounded, which is on the axis. -/
theorem mapAxisFraction_spec (pos srcLen dstLen : Int32) :
    (mapAxisFraction pos srcLen dstLen).toInt =
      Int.roundDiv (min (max pos.toInt 0) (max (srcLen.toInt - 1) 1) * max (dstLen.toInt - 1) 0)
        (max (srcLen.toInt - 1) 1) ∧
      Within dstLen (mapAxisFraction pos srcLen dstLen) := by
  have hdst := dstLen.toInt_lt
  obtain ⟨hS, hp⟩ := fraction_operands pos srcLen
  obtain ⟨-, -, hround, hlow, hhigh⟩ :=
    fraction_bounds (p := min (max pos.toInt 0) (max (srcLen.toInt - 1) 1))
      (S := max (srcLen.toInt - 1) 1) (D := max (dstLen.toInt - 1) 0)
      (by omega) (by omega) (by omega) (by omega)
  have hmap : (mapAxisFraction pos srcLen dstLen).toInt =
      Int.roundDiv (min (max pos.toInt 0) (max (srcLen.toInt - 1) 1) * max (dstLen.toInt - 1) 0)
        (max (srcLen.toInt - 1) 1) := by
    unfold mapAxisFraction
    dsimp only
    rw [hp, hS, toInt_last, hround]
    exact Int32.toInt_ofInt_of_le (by omega) (by omega)
  refine ⟨hmap, ?_⟩
  rw [Within, hmap]
  exact ⟨hlow, hhigh⟩

/-- The call reports a cursor move. -/
def Call.isCursor : Call → Bool
  | .runtime (.localInput (.cursorMoved ..)) => true
  | _ => false

namespace EngineCore

/-! ## Cursor moves -/

section

variable {s : EngineCore} {x y dx dy : Int32}

theorem call_cursorMoved (hrole : s.role = .source) (d : UInt32) (x y dx dy : Int32) :
    s.call (.runtime (.localInput (.cursorMoved d x y dx dy))) = s.onCursor x y dx dy s.isOwner :=
  if_neg (not_not.2 hrole)

theorem eq_cursorMoved {c : Call} (hc : c.isCursor = true) :
    ∃ d x y dx dy, c = .runtime (.localInput (.cursorMoved d x y dx dy)) := by
  unfold Call.isCursor at hc
  split at hc
  · exact ⟨_, _, _, _, _, rfl⟩
  · cases hc

/-- The call makes the owner cross out. -/
def Crosses (s : EngineCore) : Call → Prop
  | .runtime (.localInput (.cursorMoved _ x y dx dy)) =>
    s.isOwner = true ∧ s.CrossesAt x y dx dy
  | _ => False

theorem onCursor_of_crosses (hx : s.CrossesAt x y dx dy) :
    s.onCursor x y dx dy true = s.crossToPeer x y := by
  simp [onCursor, hx.1, hx.2.1, hx.2.2]

theorem onCursor_of_stays (hx : ¬ s.CrossesAt x y dx dy) :
    s.onCursor x y dx dy true =
      if !s.crossOutArmed && s.localLeftCrossEdge x y then
        ({ s with crossOutArmed := true }, [.capture .passThrough])
      else (s, [.capture .passThrough]) := by
  have hx' : ¬ (s.crossOutArmed && !s.suppressBlocked && s.crossesOut x y dx dy) = true := by
    simp only [Bool.and_eq_true, Bool.not_eq_true']
    exact fun h => hx ⟨h.1.1, h.1.2, h.2⟩
  simp only [onCursor, if_neg hx']
  rfl

end

/-! ## Travel -/

/-- The core once it has counted how far the cursor has been pushed back home. -/
def travelled (s : EngineCore) (dx dy : Int32) : EngineCore :=
  { s with escapeTravel := max (s.escapeTravel + s.homewardDelta dx dy) 0 }

/-- `onCursor` of a source that has given input away. -/
theorem onCursor_away (s : EngineCore) (x y dx dy : Int32) :
    s.onCursor x y dx dy false =
      if s.localEscapeBack x y dx dy then s.reclaimLocal
      else if (s.travelled dx dy).escapeTravel ≥ (s.travelled dx dy).escapeThreshold then
        (s.travelled dx dy).reclaimLocal
      else ((s.travelled dx dy).movePeerCursor dx dy).forwardCursor dx dy := rfl

/-- The peer cursor comes back over the edge: no escape fires, and the move takes the armed cursor
across. -/
def CrossesBackAt (s : EngineCore) (x y dx dy : Int32) : Prop :=
  ¬ s.localEscapeBack x y dx dy = true ∧
    ¬ (s.travelled dx dy).escapeTravel ≥ (s.travelled dx dy).escapeThreshold ∧
      ((s.travelled dx dy).movePeerCursor dx dy).reclaimArmed = true ∧
        ((s.travelled dx dy).movePeerCursor dx dy).crossesBack dx dy = true

/-- What a cursor move does, branch by branch: three branches for the owner of input, and four for a
source that has given it away. -/
inductive CursorMove (s : EngineCore) (x y dx dy : Int32) : Bool → EngineCore × List Action → Prop
  | crossed (hx : s.CrossesAt x y dx dy) : CursorMove s x y dx dy true (s.crossToPeer x y)
  | rearmed (hoff : s.crossOutArmed = false) (hleft : s.localLeftCrossEdge x y = true) :
    CursorMove s x y dx dy true ({ s with crossOutArmed := true }, [.capture .passThrough])
  | passed : CursorMove s x y dx dy true (s, [.capture .passThrough])
  | escaped (hescape : s.localEscapeBack x y dx dy = true) :
    CursorMove s x y dx dy false s.reclaimLocal
  | pushed (htravel : (s.travelled dx dy).escapeTravel ≥ (s.travelled dx dy).escapeThreshold) :
    CursorMove s x y dx dy false (s.travelled dx dy).reclaimLocal
  | returned {t : EngineCore} (ht : t = (s.travelled dx dy).movePeerCursor dx dy)
    (hback : s.CrossesBackAt x y dx dy) :
    CursorMove s x y dx dy false (t.reclaimLocal.1, t.reclaimLocal.2 ++ [t.entryEdgeWarp])
  | moved {t : EngineCore} (ht : t = (s.travelled dx dy).movePeerCursor dx dy)
    (hescape : ¬ s.localEscapeBack x y dx dy = true)
    (htravel : ¬ (s.travelled dx dy).escapeTravel ≥ (s.travelled dx dy).escapeThreshold)
    (hback : ¬ (t.reclaimArmed && t.crossesBack dx dy) = true) :
    CursorMove s x y dx dy false (t.nextSeq.1,
      [.sendMotion
        { ownerEpoch := t.epoch, seq := t.nextSeq.2, displayId := 0, x := t.peerX, y := t.peerY },
       .capture .suppress])

theorem onCursor_cases (s : EngineCore) (x y dx dy : Int32) (owns : Bool) :
    CursorMove s x y dx dy owns (s.onCursor x y dx dy owns) := by
  cases owns with
  | true =>
    by_cases hx : s.CrossesAt x y dx dy
    · rw [onCursor_of_crosses hx]
      exact .crossed hx
    · rw [onCursor_of_stays hx]
      split
      · next hleft =>
        rw [Bool.and_eq_true, Bool.not_eq_true'] at hleft
        exact .rearmed hleft.1 hleft.2
      · exact .passed
  | false =>
    rw [onCursor_away]
    split
    · next hescape => exact .escaped hescape
    · next hescape =>
      split
      · next htravel => exact .pushed htravel
      · next htravel =>
        unfold forwardCursor
        split
        · next hback => exact .returned rfl ⟨hescape, htravel, Bool.and_eq_true_iff.1 hback⟩
        · next hback => exact .moved rfl hescape htravel hback

theorem movePeerCursor_outSeq (s : EngineCore) (dx dy : Int32) :
    (s.movePeerCursor dx dy).outSeq = s.outSeq := by
  unfold movePeerCursor
  dsimp only
  split <;> rfl

/-! ## Moves -/

/-- The core once its peer cursor has moved. -/
def shifted (s : EngineCore) (dx dy : Int32) : EngineCore :=
  { s with
    peerX := clamp (s.peerX.saturatingAdd dx) 0 (max (s.layout.peerWidth.saturatingSub 1) 0)
    peerY := clamp (s.peerY.saturatingAdd dy) 0 (max (s.layout.peerHeight.saturatingSub 1) 0) }

@[simp] theorem shifted_layout (s : EngineCore) (dx dy : Int32) :
    (s.shifted dx dy).layout = s.layout := by
  rw [shifted]

@[simp] theorem shifted_reclaimArmed (s : EngineCore) (dx dy : Int32) :
    (s.shifted dx dy).reclaimArmed = s.reclaimArmed := by
  rw [shifted]

theorem movePeerCursor_eq (s : EngineCore) (dx dy : Int32) :
    s.movePeerCursor dx dy =
      { s.shifted dx dy with
        reclaimArmed := s.reclaimArmed || (s.shifted dx dy).peerLeftEntryEdge } := by
  have hif : s.movePeerCursor dx dy =
      if !(s.shifted dx dy).reclaimArmed && (s.shifted dx dy).peerLeftEntryEdge then
        { s.shifted dx dy with reclaimArmed := true }
      else s.shifted dx dy := rfl
  rw [hif, ← s.shifted_reclaimArmed dx dy]
  generalize s.shifted dx dy = t
  cases hleft : t.peerLeftEntryEdge with
  | false =>
    rw [Bool.and_false, Bool.or_false]
    rfl
  | true =>
    rw [Bool.and_true, Bool.or_true]
    cases harmed : t.reclaimArmed with
    | false => rfl
    | true =>
      have hkeep : t = { t with reclaimArmed := true } := by
        rw [← harmed]
      exact hkeep

/-! ## The peer's screen and this one -/

/-- The peer cursor is on the peer's screen. -/
def InBox (s : EngineCore) : Prop :=
  Within s.layout.peerWidth s.peerX ∧ Within s.layout.peerHeight s.peerY

theorem inBox_shifted (s : EngineCore) (dx dy : Int32) : (s.shifted dx dy).InBox :=
  ⟨within_clamp _ _, within_clamp _ _⟩

theorem inBox_movePeerCursor (s : EngineCore) (dx dy : Int32) : (s.movePeerCursor dx dy).InBox := by
  have h := s.inBox_shifted dx dy
  rw [movePeerCursor_eq]
  generalize s.shifted dx dy = t at h ⊢
  exact h

/-- The peer cursor enters on the peer's screen. -/
theorem within_entryPoint (s : EngineCore) (x y : Int32) :
    Within s.layout.peerWidth (s.entryPoint x y).1 ∧
      Within s.layout.peerHeight (s.entryPoint x y).2 := by
  unfold entryPoint
  dsimp only
  split
  · exact ⟨within_zero _, (mapAxisFraction_spec ..).2⟩
  · exact ⟨within_last _, (mapAxisFraction_spec ..).2⟩
  · exact ⟨(mapAxisFraction_spec ..).2, within_zero _⟩
  · exact ⟨(mapAxisFraction_spec ..).2, within_last _⟩

/-- The warp goes to this machine's screen. -/
theorem entryEdgeWarp_within (s : EngineCore) :
    ∃ x y, s.entryEdgeWarp = .inject (.warpCursor 0 x y) ∧ Within s.layout.width x ∧
      Within s.layout.height y := by
  unfold entryEdgeWarp
  dsimp only
  split
  · exact ⟨_, _, rfl, within_zero _, (mapAxisFraction_spec ..).2⟩
  · exact ⟨_, _, rfl, within_last _, (mapAxisFraction_spec ..).2⟩
  · exact ⟨_, _, rfl, (mapAxisFraction_spec ..).2, within_zero _⟩
  · exact ⟨_, _, rfl, (mapAxisFraction_spec ..).2, within_last _⟩

end EngineCore

end Mouser
