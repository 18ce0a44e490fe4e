import Mouser.Engine.Symmetry

/-!
# The four edges
-/

namespace Mouser

/-! ## Positions -/

/-- A position on an axis of length `len`. -/
def OnAxis (len p : Int32) : Prop := 0 ≤ p ∧ p < len

instance (len p : Int32) : Decidable (OnAxis len p) := inferInstanceAs (Decidable (_ ∧ _))

/-- The fraction that the position is at falls half way between two positions of the other axis. An
axis that has one position has it half way. -/
def HalfWay (pos srcLen dstLen : Int32) : Prop :=
  dstLen ≠ 1 ∧ 2 * (pos.toInt * (dstLen.toInt - 1) % (srcLen.toInt - 1)) = srcLen.toInt - 1

variable {len p src dst pos : Int32}

theorem OnAxis.toInt (h : OnAxis len p) : 0 ≤ p.toInt ∧ p.toInt < len.toInt :=
  ⟨Int32.le_iff_toInt_le.1 h.1, Int32.lt_iff_toInt_lt.1 h.2⟩

theorem OnAxis.toInt_reflect (h : OnAxis len p) :
    (len - 1 - p).toInt = len.toInt - 1 - p.toInt := by
  obtain ⟨hlo, hhi⟩ := h.toInt
  have h0 : (0 : Int32).toInt = 0 := rfl
  have h1 : (1 : Int32).toInt = 1 := rfl
  have hone : (len - 1).toInt = len.toInt - 1 :=
    Int32.toInt_sub_of_le len 1 (by decide) (Int32.le_iff_toInt_le.2 (by omega))
  rw [Int32.toInt_sub_of_le _ p h.1 (Int32.le_iff_toInt_le.2 (by omega)), hone]

theorem OnAxis.reflect (h : OnAxis len p) : OnAxis len (len - 1 - p) := by
  obtain ⟨hlo, hhi⟩ := h.toInt
  have hr := h.toInt_reflect
  have h0 : (0 : Int32).toInt = 0 := rfl
  refine ⟨Int32.le_iff_toInt_le.2 ?_, Int32.lt_iff_toInt_lt.2 ?_⟩ <;> omega

theorem Within.onAxis (h : Within len p) (hlen : 0 < len) : OnAxis len p := by
  have hlen := Int32.lt_iff_toInt_lt.1 hlen
  have h0 : (0 : Int32).toInt = 0 := rfl
  rw [Within] at h
  rw [OnAxis, Int32.le_iff_toInt_le, Int32.lt_iff_toInt_lt]
  omega

/-- The last position of an axis that has one. -/
theorem toInt_last_of_pos (h : 0 < len) :
    (max (len.saturatingSub 1) 0).toInt = len.toInt - 1 := by
  have hlen := Int32.lt_iff_toInt_lt.1 h
  have h0 : (0 : Int32).toInt = 0 := rfl
  rw [toInt_last]
  omega

theorem reflect_last (h : 0 < len) : len - 1 - max (len.saturatingSub 1) 0 = 0 := by
  have h0 : (0 : Int32).toInt = 0 := rfl
  rw [← Int32.toInt_inj, ((within_last len).onAxis h).toInt_reflect, toInt_last_of_pos h]
  omega

theorem reflect_zero (h : 0 < len) : len - 1 - 0 = max (len.saturatingSub 1) 0 := by
  have h0 : (0 : Int32).toInt = 0 := rfl
  rw [← Int32.toInt_inj, OnAxis.toInt_reflect ⟨Int32.le_refl 0, h⟩, toInt_last_of_pos h]
  omega

theorem toInt_neg_of_ne {dx : Int32} (h : dx ≠ Int32.minValue) : (-dx).toInt = -dx.toInt := by
  have hlo := dx.le_toInt
  have hhi := dx.toInt_lt
  have hmin : dx.toInt ≠ -2 ^ 31 := fun heq => h (Int32.toInt_inj.1 heq)
  rw [Int32.toInt_neg, Int.bmod_eq_of_le] <;> omega

theorem OnAxis.toInt_mapAxisFraction (hpos : OnAxis src pos) (hdst : 0 < dst) :
    (mapAxisFraction pos src dst).toInt =
      Int.roundDiv (pos.toInt * (dst.toInt - 1)) (max (src.toInt - 1) 1) := by
  obtain ⟨hlo, hhi⟩ := hpos.toInt
  have hlen := Int32.lt_iff_toInt_lt.1 hdst
  have h0 : (0 : Int32).toInt = 0 := rfl
  have hp : min (max pos.toInt 0) (max (src.toInt - 1) 1) = pos.toInt := by omega
  have hD : max (dst.toInt - 1) 0 = dst.toInt - 1 := by omega
  rw [(mapAxisFraction_spec pos src dst).1, hp, hD]

/-- **The fraction and reflection** commute except half way. -/
theorem mapAxisFraction_reflect_iff (hpos : OnAxis src pos) (hdst : 0 < dst) :
    mapAxisFraction (src - 1 - pos) src dst = dst - 1 - mapAxisFraction pos src dst ↔
      ¬ HalfWay pos src dst := by
  have hlen := Int32.lt_iff_toInt_lt.1 hdst
  have h0 : (0 : Int32).toInt = 0 := rfl
  have h1 : (1 : Int32).toInt = 1 := rfl
  obtain ⟨hlo, hhi⟩ := hpos.toInt
  have hone : dst ≠ 1 ↔ dst.toInt ≠ 1 := not_congr Int32.toInt_inj.symm
  have haxis : OnAxis dst (mapAxisFraction pos src dst) :=
    (mapAxisFraction_spec ..).2.onAxis hdst
  rw [HalfWay, hone, ← Int32.toInt_inj, hpos.reflect.toInt_mapAxisFraction hdst,
    haxis.toInt_reflect, hpos.toInt_mapAxisFraction hdst, hpos.toInt_reflect]
  by_cases hsrc : src.toInt = 1
  · -- an axis with one position reflects it to itself
    have hpos0 : pos.toInt = 0 := by omega
    rw [hsrc, hpos0]
    simp [Int.roundDiv]
    omega
  · have hS : max (src.toInt - 1) 1 = src.toInt - 1 := by omega
    have hS0 : 0 < src.toInt - 1 := by omega
    rw [hS, Int.sub_mul, Int.roundDiv_reflect_iff hS0]
    refine ⟨fun h h' => h h'.2, fun h h' => h ⟨?_, h'⟩⟩
    intro hdst1
    rw [hdst1] at h'
    simp at h'
    omega

/-! ## The changes of coordinates -/

/-- The edge in a layout with its axes swapped. -/
def Edge.transpose : Edge → Edge
  | .left => .top
  | .right => .bottom
  | .top => .left
  | .bottom => .right

/-- The edge in a layout that is turned left to right. -/
def Edge.mirror : Edge → Edge
  | .left => .right
  | .right => .left
  | .top => .top
  | .bottom => .bottom

def EdgeLayout.transpose (l : EdgeLayout) : EdgeLayout :=
  { width := l.height
    height := l.width
    peerWidth := l.peerHeight
    peerHeight := l.peerWidth
    edge := l.edge.transpose }

def EdgeLayout.mirror (l : EdgeLayout) : EdgeLayout := { l with edge := l.edge.mirror }

namespace Symmetry

/-- The axes swapped. -/
def transpose (l : EdgeLayout) : Symmetry where
  layout := l.transpose
  delta dx dy := (dy, dx)
  here x y := (y, x)
  there x y := (y, x)

/-- Left and right swapped on both screens. -/
def mirror (l : EdgeLayout) : Symmetry where
  layout := l.mirror
  delta dx dy := (-dx, dy)
  here x y := (l.width - 1 - x, y)
  there x y := (l.peerWidth - 1 - x, y)

/-- All x-coordinates forgotten: both screens are one pixel wide. -/
def forgetX (l : EdgeLayout) : Symmetry where
  layout := { l with width := 1, peerWidth := 1 }
  delta _ dy := (0, dy)
  here _ y := (0, y)
  there _ y := (0, y)

end Symmetry

namespace EngineCore

/-! ## Moving the peer cursor -/

/-- What a symmetry has to carry of the helpers that read the peer cursor. -/
theorem CarriesMove.of_shifted {σ : Symmetry} {s : EngineCore} {dx dy : Int32}
    (hshift : (s.under σ).shifted (σ.delta dx dy).1 (σ.delta dx dy).2 = (s.shifted dx dy).under σ)
    (hleft : ((s.shifted dx dy).under σ).peerLeftEntryEdge = (s.shifted dx dy).peerLeftEntryEdge)
    (hback : ((s.shifted dx dy).under σ).crossesBack (σ.delta dx dy).1 (σ.delta dx dy).2 =
      (s.shifted dx dy).crossesBack dx dy)
    (hwarp : (s.movePeerCursor dx dy).reclaimArmed = true →
      (s.movePeerCursor dx dy).crossesBack dx dy = true →
        ((s.shifted dx dy).under σ).entryEdgeWarp = (s.shifted dx dy).entryEdgeWarp.under σ) :
    CarriesMove σ s dx dy := by
  refine ⟨?_, ?_, ?_⟩
  · rw [movePeerCursor_eq, movePeerCursor_eq, hshift, hleft]
    rfl
  · rw [movePeerCursor_eq]
    generalize s.shifted dx dy = t at hback ⊢
    exact hback
  · intro harmed hcross
    have hwarp := hwarp harmed hcross
    rw [movePeerCursor_eq]
    generalize s.shifted dx dy = t at hwarp ⊢
    exact hwarp

/-! ## Swapped axes -/

section transpose

variable (s : EngineCore)

theorem carriesHome_transpose (x y dx dy : Int32) :
    CarriesHome (.transpose s.layout) s x y dx dy := by
  refine ⟨?_, ?_, fun _ => ?_⟩
  all_goals
    cases hedge : s.layout.edge <;>
      simp [localLeftCrossEdge, crossesOut, entryPoint, under, relayout, Symmetry.transpose,
        EdgeLayout.transpose, Edge.transpose, hedge]

theorem carriesMove_transpose (dx dy : Int32) : CarriesMove (.transpose s.layout) s dx dy := by
  have hlayout := (s.shifted_layout dx dy).symm
  have hshift : (s.under (.transpose s.layout)).shifted dy dx =
      (s.shifted dx dy).under (.transpose s.layout) := rfl
  refine .of_shifted hshift ?_ ?_ fun _ _ => ?_
  all_goals
    rw [hlayout]
    generalize s.shifted dx dy = t
    cases hedge : t.layout.edge <;>
      simp [peerLeftEntryEdge, crossesBack, entryEdgeWarp, under, relayout, Symmetry.transpose,
        EdgeLayout.transpose, Edge.transpose, Action.under, Inject.under, hedge]

theorem carriesAway_transpose (x y dx dy : Int32) :
    CarriesAway (.transpose s.layout) s x y dx dy := by
  refine ⟨?_, ?_, ?_, fun _ _ => carriesMove_transpose (s.travelled dx dy) dx dy⟩
  all_goals
    cases hedge : s.layout.edge <;>
      simp [localEscapeBack, homewardDelta, escapeThreshold, under, relayout, Symmetry.transpose,
        EdgeLayout.transpose, Edge.transpose, hedge]

theorem carries_transpose (c : Call) : Carries (.transpose s.layout) s c := by
  unfold Carries
  split
  · exact ⟨fun _ => s.carriesHome_transpose .., fun _ => s.carriesAway_transpose ..⟩
  · trivial

end transpose

/-! ## The peer above or below -/

section forgetX

variable {s : EngineCore} (hedge : s.layout.edge = .top ∨ s.layout.edge = .bottom)

include hedge

theorem carriesHome_forgetX (x y dx dy : Int32) :
    CarriesHome (.forgetX s.layout) s x y dx dy := by
  have hzero : mapAxisFraction 0 1 1 = 0 := by decide
  refine ⟨?_, ?_, fun _ => ?_⟩
  all_goals
    rcases hedge with hedge | hedge <;>
      simp [localLeftCrossEdge, crossesOut, entryPoint, under, relayout, Symmetry.forgetX, hedge,
        hzero]

theorem carriesMove_forgetX (dx dy : Int32) : CarriesMove (.forgetX s.layout) s dx dy := by
  have hzero : mapAxisFraction 0 1 1 = 0 := by decide
  have hlayout := (s.shifted_layout dx dy).symm
  have hclamp : clamp (Int32.saturatingAdd 0 0) 0 (max (Int32.saturatingSub 1 1) 0) = 0 := by decide
  have hshift : (s.under (.forgetX s.layout)).shifted 0 dy =
      (s.shifted dx dy).under (.forgetX s.layout) := by
    simp [shifted, under, relayout, Symmetry.forgetX, hclamp]
  refine .of_shifted hshift ?_ ?_ fun _ _ => ?_
  all_goals
    rw [hlayout] at hedge ⊢
    generalize s.shifted dx dy = t at hedge ⊢
    rcases hedge with hedge | hedge <;>
      simp [peerLeftEntryEdge, crossesBack, entryEdgeWarp, under, relayout, Symmetry.forgetX,
        Action.under, Inject.under, hedge, hzero]

theorem carriesAway_forgetX (x y dx dy : Int32) :
    CarriesAway (.forgetX s.layout) s x y dx dy := by
  refine ⟨?_, ?_, ?_, fun _ _ => carriesMove_forgetX (s := s.travelled dx dy) hedge dx dy⟩
  all_goals
    rcases hedge with hedge | hedge <;>
      simp [localEscapeBack, homewardDelta, escapeThreshold, under, relayout, Symmetry.forgetX,
        hedge]

theorem carries_forgetX (c : Call) : Carries (.forgetX s.layout) s c := by
  unfold Carries
  split
  · exact ⟨fun _ => carriesHome_forgetX hedge .., fun _ => carriesAway_forgetX hedge ..⟩
  · trivial

end forgetX

/-! ## Left and right swapped -/

section mirror

variable {s : EngineCore} {x dx : Int32}

theorem carriesHome_mirror (hw : 0 < s.layout.width) (hpw : 0 < s.layout.peerWidth)
    (hx : OnAxis s.layout.width x) (hdx : dx ≠ Int32.minValue) (y dy : Int32)
    (hentry : s.CrossesAt x y dx dy → s.layout.edge = .top ∨ s.layout.edge = .bottom →
      ¬ HalfWay x s.layout.width s.layout.peerWidth) :
    CarriesHome (.mirror s.layout) s x y dx dy := by
  have hlast := toInt_last_of_pos hw
  have hx' := hx.toInt_reflect
  have hdx' := toInt_neg_of_ne hdx
  have hmargin : edgeRearmMargin.toInt = 8 := rfl
  have h0 : (0 : Int32).toInt = 0 := rfl
  obtain ⟨hlo, hhi⟩ := hx.toInt
  have htop := s.layout.width.toInt_lt
  refine ⟨?_, ?_, ?_⟩
  · cases hedge : s.layout.edge <;>
      simp only [localLeftCrossEdge, under, relayout, Symmetry.mirror, EdgeLayout.mirror,
        Edge.mirror, hedge, gt_iff_lt, decide_eq_decide, Int32.lt_iff_toInt_lt, hx', hmargin,
        Int32.toInt_saturatingSub, hlast] <;> omega
  · rw [Bool.eq_iff_iff]
    cases hedge : s.layout.edge <;>
      simp only [crossesOut, under, relayout, Symmetry.mirror, EdgeLayout.mirror,
        Edge.mirror, hedge, ge_iff_le, Bool.and_eq_true, decide_eq_true_eq,
        Int32.le_iff_toInt_le, hx', hdx', hmargin, h0, Int32.toInt_saturatingSub,
        Int32.toInt_saturatingAdd, hlast] <;> omega
  · intro hcross
    have hmap := mapAxisFraction_reflect_iff hx hpw
    cases hedge : s.layout.edge with
    | left | right =>
      simp only [entryPoint, under, relayout, Symmetry.mirror, EdgeLayout.mirror, Edge.mirror,
        hedge, reflect_zero hpw, reflect_last hpw]
    | top | bottom =>
      simp only [entryPoint, under, relayout, Symmetry.mirror, EdgeLayout.mirror, Edge.mirror,
        hedge, hmap.2 (hentry hcross (by simp [hedge]))]

/-- The cursor moves along the axis and stays on it. -/
theorem onAxis_shifted (h : OnAxis s.layout.peerWidth s.peerX) (dx dy : Int32) :
    OnAxis s.layout.peerWidth (s.shifted dx dy).peerX ∧
      (s.shifted dx dy).peerX.toInt =
        min (max (s.peerX.toInt + dx.toInt) 0) (s.layout.peerWidth.toInt - 1) := by
  have h0 : (0 : Int32).toInt = 0 := rfl
  obtain ⟨hlo, hhi⟩ := h.toInt
  have htop := s.layout.peerWidth.toInt_lt
  have hpw : 0 < s.layout.peerWidth := Int32.lt_iff_toInt_lt.2 (by omega)
  have hshift : (s.shifted dx dy).peerX.toInt =
      min (max (s.peerX.toInt + dx.toInt) 0) (s.layout.peerWidth.toInt - 1) := by
    simp only [EngineCore.shifted, toInt_clamp, Int32.toInt_saturatingAdd,
      toInt_last_of_pos hpw, h0]
    omega
  refine ⟨?_, hshift⟩
  rw [OnAxis, Int32.le_iff_toInt_le, Int32.lt_iff_toInt_lt, hshift]
  omega

theorem shifted_mirror (hpeer : OnAxis s.layout.peerWidth s.peerX) (hdx : dx ≠ Int32.minValue)
    (dy : Int32) :
    (s.under (.mirror s.layout)).shifted (-dx) dy =
      (s.shifted dx dy).under (.mirror s.layout) := by
  have hpeer' : OnAxis (s.under (.mirror s.layout)).layout.peerWidth
      (s.under (.mirror s.layout)).peerX := hpeer.reflect
  have hleft := (onAxis_shifted hpeer' (-dx) dy).2
  have hright := (onAxis_shifted hpeer dx dy).2
  have hreflect := (onAxis_shifted hpeer dx dy).1.toInt_reflect
  have hcursor : (s.under (.mirror s.layout)).peerX.toInt =
      s.layout.peerWidth.toInt - 1 - s.peerX.toInt := hpeer.toInt_reflect
  have hwidth : (s.under (.mirror s.layout)).layout.peerWidth = s.layout.peerWidth := rfl
  rw [hcursor, hwidth, toInt_neg_of_ne hdx] at hleft
  have hpeerX : ((s.under (.mirror s.layout)).shifted (-dx) dy).peerX =
      s.layout.peerWidth - 1 - (s.shifted dx dy).peerX := by
    obtain ⟨hlo, hhi⟩ := hpeer.toInt
    rw [← Int32.toInt_inj, hleft, hreflect, hright]
    omega
  show { (s.under (.mirror s.layout)).shifted (-dx) dy with
    peerX := ((s.under (.mirror s.layout)).shifted (-dx) dy).peerX } = _
  rw [hpeerX]
  rfl

theorem carriesMove_mirror (hw : 0 < s.layout.width) (hpeer : OnAxis s.layout.peerWidth s.peerX)
    (hdx : dx ≠ Int32.minValue) (dy : Int32)
    (hwarp : (s.movePeerCursor dx dy).reclaimArmed = true →
      (s.movePeerCursor dx dy).crossesBack dx dy = true →
        s.layout.edge = .top ∨ s.layout.edge = .bottom →
          ¬ HalfWay (s.movePeerCursor dx dy).peerX s.layout.peerWidth s.layout.width) :
    CarriesMove (.mirror s.layout) s dx dy := by
  have hpw : 0 < s.layout.peerWidth := by
    obtain ⟨hlo, hhi⟩ := hpeer.toInt
    have h0 : (0 : Int32).toInt = 0 := rfl
    exact Int32.lt_iff_toInt_lt.2 (by omega)
  have hlast := toInt_last_of_pos hpw
  have hdx' := toInt_neg_of_ne hdx
  have h0 : (0 : Int32).toInt = 0 := rfl
  have h1 : (1 : Int32).toInt = 1 := rfl
  have htop := s.layout.peerWidth.toInt_lt
  have hlayout := (s.shifted_layout dx dy).symm
  have haxis := (onAxis_shifted hpeer dx dy).1
  refine .of_shifted (shifted_mirror hpeer hdx dy) ?_ ?_ ?_
  · rw [hlayout] at hlast htop haxis hpw ⊢
    generalize s.shifted dx dy = t at hlast htop haxis hpw ⊢
    obtain ⟨hlo, hhi⟩ := haxis.toInt
    cases hedge : t.layout.edge <;>
      simp only [peerLeftEntryEdge, under, relayout, Symmetry.mirror, EdgeLayout.mirror,
        Edge.mirror, hedge, gt_iff_lt, decide_eq_decide, Int32.lt_iff_toInt_lt,
        haxis.toInt_reflect, h0, hlast] <;> omega
  · rw [hlayout] at hlast htop haxis hpw ⊢
    generalize s.shifted dx dy = t at hlast htop haxis hpw ⊢
    obtain ⟨hlo, hhi⟩ := haxis.toInt
    rw [Bool.eq_iff_iff]
    cases hedge : t.layout.edge <;>
      simp only [crossesBack, under, relayout, Symmetry.mirror, EdgeLayout.mirror, Edge.mirror,
        hedge, ge_iff_le, gt_iff_lt, Bool.and_eq_true, decide_eq_true_eq, Int32.le_iff_toInt_le,
        Int32.lt_iff_toInt_lt, haxis.toInt_reflect, hdx', h0, h1,
        Int32.toInt_saturatingSub] <;> omega
  · intro harmed hcross
    have hhalf := hwarp harmed hcross
    rw [movePeerCursor_eq] at hhalf
    have hmap := mapAxisFraction_reflect_iff haxis hw
    rw [hlayout] at hmap hhalf hw ⊢
    generalize s.shifted dx dy = t at hmap hhalf hw ⊢
    cases hedge : t.layout.edge with
    | left | right =>
      simp only [entryEdgeWarp, under, relayout, Symmetry.mirror, EdgeLayout.mirror, Edge.mirror,
        hedge, Action.under, Inject.under, reflect_zero hw, reflect_last hw]
    | top | bottom =>
      simp only [entryEdgeWarp, under, relayout, Symmetry.mirror, EdgeLayout.mirror, Edge.mirror,
        hedge, Action.under, Inject.under, hmap.2 (hhalf (by simp [hedge]))]

theorem carriesAway_mirror (hw : 0 < s.layout.width) (hpeer : OnAxis s.layout.peerWidth s.peerX)
    (hx : OnAxis s.layout.width x) (hdx : dx ≠ Int32.minValue) (y dy : Int32)
    (hwarp : s.CrossesBackAt x y dx dy → s.layout.edge = .top ∨ s.layout.edge = .bottom →
      ¬ HalfWay (s.movePeerCursor dx dy).peerX s.layout.peerWidth s.layout.width) :
    CarriesAway (.mirror s.layout) s x y dx dy := by
  have hlast := toInt_last_of_pos hw
  have hx' := hx.toInt_reflect
  have hdx' := toInt_neg_of_ne hdx
  have hmargin : edgeRearmMargin.toInt = 8 := rfl
  have h0 : (0 : Int32).toInt = 0 := rfl
  obtain ⟨hlo, hhi⟩ := hx.toInt
  have htop := s.layout.width.toInt_lt
  refine ⟨?_, ?_, ?_, ?_⟩
  · rw [Bool.eq_iff_iff]
    cases hedge : s.layout.edge <;>
      simp only [localEscapeBack, under, relayout, Symmetry.mirror, EdgeLayout.mirror, Edge.mirror,
        hedge, ge_iff_le, gt_iff_lt, Bool.and_eq_true, decide_eq_true_eq, Int32.le_iff_toInt_le,
        Int32.lt_iff_toInt_lt, hx', hdx', hmargin, h0, Int32.toInt_saturatingSub, hlast] <;> omega
  · cases hedge : s.layout.edge <;>
      simp [homewardDelta, under, relayout, Symmetry.mirror, EdgeLayout.mirror, Edge.mirror, hedge]
  · cases hedge : s.layout.edge <;>
      simp [escapeThreshold, under, relayout, Symmetry.mirror, EdgeLayout.mirror, Edge.mirror,
        hedge]
  · intro hescape htravel
    refine carriesMove_mirror (s := s.travelled dx dy) hw hpeer hdx dy ?_
    intro harmed hcross hedge
    have hhalf := hwarp ⟨hescape, htravel, harmed, hcross⟩ hedge
    rw [movePeerCursor_eq] at hhalf ⊢
    exact hhalf

end mirror

end EngineCore

end Mouser
