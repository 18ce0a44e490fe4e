import Mathlib.Data.Bool.AllAny
import Mouser.Engine.Symmetry

/-!
# To a larger screen and back

`mapAxisFraction` rounds. It maps the ends of an axis to the ends of the other and keeps the order
of the positions, and from an axis to one that is not shorter and back it gives every position
again (`mapAxisFraction_back`). So the row on which the cursor crosses to a larger screen is the row
on which it comes straight back (`warp_row`).
-/

namespace Mouser

variable {p q src dst : Int32}

theorem mapAxisFraction_zero (src dst : Int32) : mapAxisFraction 0 src dst = 0 := by
  have h0 : (0 : Int32).toInt = 0 := rfl
  rw [← Int32.toInt_inj, (mapAxisFraction_spec 0 src dst).1, h0]
  have hp : min (max 0 0) (max (src.toInt - 1) 1) = 0 := by omega
  have hround := Int.roundDiv_mul (S := max (src.toInt - 1) 1) (D := 0) (by omega)
  rw [Int.mul_zero] at hround
  rw [hp, Int.zero_mul, hround]

/-- The last position goes to the last position. -/
theorem mapAxisFraction_last (hsrc : 2 ≤ src) (dst : Int32) :
    (mapAxisFraction (src - 1) src dst).toInt = max (dst.toInt - 1) 0 := by
  have h2 : (2 : Int32).toInt = 2 := rfl
  have h1 : (1 : Int32).toInt = 1 := rfl
  have hlen := Int32.le_iff_toInt_le.1 hsrc
  have hlast : (src - 1).toInt = src.toInt - 1 :=
    Int32.toInt_sub_of_le src 1 (by decide) (Int32.le_iff_toInt_le.2 (by omega))
  have hp : min (max (src - 1).toInt 0) (max (src.toInt - 1) 1) = max (src.toInt - 1) 1 := by omega
  rw [(mapAxisFraction_spec (src - 1) src dst).1, hp, Int.roundDiv_mul (by omega)]

theorem mapAxisFraction_mono (h : p ≤ q) (src dst : Int32) :
    mapAxisFraction p src dst ≤ mapAxisFraction q src dst := by
  have hpq := Int32.le_iff_toInt_le.1 h
  rw [Int32.le_iff_toInt_le, (mapAxisFraction_spec p src dst).1, (mapAxisFraction_spec q src dst).1]
  exact Int.roundDiv_mono (by omega) (Int.mul_le_mul_of_nonneg_right (by omega) (by omega))

/-- **To a finer axis and back.** -/
theorem mapAxisFraction_back (hsrc : 2 ≤ src) (hdst : src ≤ dst) (hp : 0 ≤ p) (hlt : p < src) :
    mapAxisFraction (mapAxisFraction p src dst) dst src = p := by
  have h2 : (2 : Int32).toInt = 2 := rfl
  have h0 : (0 : Int32).toInt = 0 := rfl
  have hlen := Int32.le_iff_toInt_le.1 hsrc
  have hle := Int32.le_iff_toInt_le.1 hdst
  have hlo := Int32.le_iff_toInt_le.1 hp
  have hhi := Int32.lt_iff_toInt_lt.1 hlt
  obtain ⟨hmap, hwithin⟩ := mapAxisFraction_spec p src dst
  obtain ⟨hlow, hhigh⟩ := hwithin
  have hsame : min (max (mapAxisFraction p src dst).toInt 0) (max (dst.toInt - 1) 1) =
      (mapAxisFraction p src dst).toInt := by omega
  have hpos : min (max p.toInt 0) (max (src.toInt - 1) 1) = p.toInt := by omega
  have hS : max (src.toInt - 1) 1 = src.toInt - 1 := by omega
  have hS0 : max (src.toInt - 1) 0 = src.toInt - 1 := by omega
  have hD : max (dst.toInt - 1) 1 = dst.toInt - 1 := by omega
  have hD0 : max (dst.toInt - 1) 0 = dst.toInt - 1 := by omega
  rw [← Int32.toInt_inj, (mapAxisFraction_spec _ dst src).1, hsame, hmap, hpos, hS, hS0, hD, hD0]
  exact Int.roundDiv_scale_back (by omega) (by omega)

/-! ## The row of a crossing -/

/-- The coordinate along the edge of a point, or of a delta. -/
def Edge.row (edge : Edge) (x y : Int32) : Int32 :=
  match edge with
  | .left | .right => y
  | .top | .bottom => x

/-- The number of rows of this machine's screen and of the peer's. -/
def EdgeLayout.rows (layout : EdgeLayout) : Int32 := layout.edge.row layout.width layout.height

def EdgeLayout.peerRows (layout : EdgeLayout) : Int32 :=
  layout.edge.row layout.peerWidth layout.peerHeight

/-- A cursor move of the call is straight across the edge. -/
def Call.Straight (edge : Edge) : Call → Prop
  | .runtime (.localInput (.cursorMoved _ _ _ dx dy)) => edge.row dx dy = 0
  | _ => True

namespace EngineCore

variable {s t : EngineCore}

/-- The row of the peer cursor. -/
def peerRow (s : EngineCore) : Int32 := s.layout.edge.row s.peerX s.peerY

/-- A cursor that does not move stays where it is. -/
theorem clamp_saturatingAdd_zero (h : Within q p) :
    clamp (p.saturatingAdd 0) 0 (max (q.saturatingSub 1) 0) = p := by
  obtain ⟨hlo, hhi⟩ := h
  have h0 : (0 : Int32).toInt = 0 := rfl
  have hmin := p.le_toInt
  have hmax := p.toInt_lt
  rw [← Int32.toInt_inj, toInt_clamp, toInt_last, Int32.toInt_saturatingAdd, h0]
  omega

theorem peerRow_movePeerCursor (h : Within s.layout.peerRows s.peerRow) {dx dy : Int32}
    (hstraight : s.layout.edge.row dx dy = 0) : (s.movePeerCursor dx dy).peerRow = s.peerRow := by
  rw [movePeerCursor_eq]
  unfold peerRow EdgeLayout.peerRows at *
  unfold shifted
  dsimp only
  cases hedge : s.layout.edge with
  | left | right | top | bottom =>
    rw [hedge] at h hstraight
    simp only [Edge.row] at h hstraight ⊢
    rw [hstraight, clamp_saturatingAdd_zero h]

theorem crossToPeer_peerRow (hown : s.isOwner = true) (x y : Int32) :
    (s.crossToPeer x y).1.layout = s.layout ∧
      (s.crossToPeer x y).1.peerRow =
        mapAxisFraction (s.layout.edge.row x y) s.layout.rows s.layout.peerRows := by
  rw [crossToPeer_eq s hown]
  refine ⟨rfl, ?_⟩
  unfold peerRow entryPoint EdgeLayout.rows EdgeLayout.peerRows
  dsimp only
  cases s.layout.edge <;> rfl

/-- The warp is on the row that the peer cursor's row maps to. -/
theorem entryEdgeWarp_row (s : EngineCore) :
    ∃ x y, s.entryEdgeWarp = .inject (.warpCursor 0 x y) ∧
      s.layout.edge.row x y = mapAxisFraction s.peerRow s.layout.peerRows s.layout.rows := by
  unfold entryEdgeWarp peerRow EdgeLayout.rows EdgeLayout.peerRows
  dsimp only
  cases s.layout.edge <;> exact ⟨_, _, rfl, rfl⟩

/-- Input is away, and the peer cursor is on the row. -/
structure AwayOn (layout : EdgeLayout) (row : Int32) (t : EngineCore) : Prop where
  role : t.role = .source
  away : t.isOwner = false
  layout_eq : t.layout = layout
  row_eq : t.peerRow = row

variable {layout : EdgeLayout} {row : Int32}

/-- A straight call that leaves input away leaves the peer cursor on its row. -/
theorem AwayOn.call (h : AwayOn layout row t) (hrow : Within layout.peerRows row) {c : Call}
    (hstraight : c.Straight layout.edge) (haway : (t.call c).1.isOwner = false) :
    AwayOn layout row (t.call c).1 := by
  obtain ⟨hrole, hown, rfl, rfl⟩ := h
  have hdevice := t.call_device c
  refine ⟨hdevice.role.trans hrole, haway, hdevice.layout, ?_⟩
  cases hc : c.isCursor with
  | false =>
    obtain ⟨hx, hy⟩ := t.call_peerCursor hc
    rw [peerRow, hdevice.layout, hx, hy, peerRow]
  | true =>
    obtain ⟨d, x, y, dx, dy, rfl⟩ := eq_cursorMoved hc
    rw [call_cursorMoved hrole, hown] at haway ⊢
    have hcases := t.onCursor_cases x y dx dy false
    generalize t.onCursor x y dx dy false = r at hcases haway ⊢
    cases hcases with
    | escaped | pushed | returned =>
      exact absurd (haway.symm.trans (Ownership.isOwner_iff.2 rfl)) Bool.false_ne_true
    | moved ht =>
      rw [ht]
      exact peerRow_movePeerCursor (s := t.travelled dx dy) hrow hstraight

/-- A warp of a straight call is on the row that the peer cursor's row maps to. -/
theorem AwayOn.warp (h : AwayOn layout row t) (hrow : Within layout.peerRows row)
    {d : UInt32} {x y dx dy : Int32} (hstraight : layout.edge.row dx dy = 0) {d' : UInt32}
    {wx wy : Int32} (hwarp : .inject (.warpCursor d' wx wy) ∈
      (t.call (.runtime (.localInput (.cursorMoved d x y dx dy)))).2) :
    layout.edge.row wx wy = mapAxisFraction row layout.peerRows layout.rows := by
  obtain ⟨hrole, hown, rfl, rfl⟩ := h
  rw [call_cursorMoved hrole, hown] at hwarp
  have hcases := t.onCursor_cases x y dx dy false
  generalize t.onCursor x y dx dy false = r at hcases hwarp
  cases hcases with
  | escaped | pushed => simp [reclaimLocal] at hwarp
  | @returned u hu =>
    have hlayout : u.layout = t.layout := by
      rw [hu, (movePeerCursor_same _ dx dy).layout]
      rfl
    have hsame : u.peerRow = t.peerRow := by
      rw [hu]
      exact peerRow_movePeerCursor (s := t.travelled dx dy) hrow hstraight
    obtain ⟨x', y', hentry, hmap⟩ := u.entryEdgeWarp_row
    rw [hentry] at hwarp
    simp [reclaimLocal] at hwarp
    rw [hwarp.2.1, hwarp.2.2, ← hlayout, hmap, hsame]
  | moved => simp at hwarp

/-- **A cursor that crosses to a screen with at least as many rows and comes straight back returns
to its row.** -/
theorem warp_row (hrole : s.role = .source) (hown : s.isOwner = true) {x y : Int32}
    (hrows : 2 ≤ s.layout.rows) (hlarger : s.layout.rows ≤ s.layout.peerRows)
    (hlo : 0 ≤ s.layout.edge.row x y) (hhi : s.layout.edge.row x y < s.layout.rows)
    (calls : List Call) (hstraight : ∀ c ∈ calls, c.Straight s.layout.edge)
    (haway : ∀ e ∈ machine.trace (s.crossToPeer x y).1 calls, e.pre.isOwner = false) :
    ∀ e ∈ machine.trace (s.crossToPeer x y).1 calls, e.input.isCursor = true →
      ∀ d wx wy, .inject (.warpCursor d wx wy) ∈ e.output →
        s.layout.edge.row wx wy = s.layout.edge.row x y := by
  let row := mapAxisFraction (s.layout.edge.row x y) s.layout.rows s.layout.peerRows
  obtain ⟨hlayout, hentry⟩ := crossToPeer_peerRow hown x y
  have hrow : Within s.layout.peerRows row := (mapAxisFraction_spec ..).2
  intro e he hcursor d wx wy hwarp
  obtain ⟨js, c, ks, rfl, rfl⟩ := machine.mem_trace_iff.1 he
  have hcross : (s.crossToPeer x y).1.role = .source := by
    rw [crossToPeer_eq s hown]
    exact hrole
  have hjs : ∀ e ∈ machine.trace (s.crossToPeer x y).1 js,
      e.pre.isOwner = false ∧ e.input.Straight s.layout.edge := by
    intro e he
    have hmem : e ∈ machine.trace (s.crossToPeer x y).1 (js ++ c :: ks) := by
      rw [machine.trace_append]
      exact List.mem_append_left _ he
    obtain ⟨before, c', after, hjs, rfl⟩ := machine.mem_trace_iff.1 he
    exact ⟨haway _ hmem, hstraight c' (List.mem_append_left _ (by simp [hjs]))⟩
  have hon : (machine.exec (s.crossToPeer x y).1 js).isOwner = false →
      AwayOn s.layout row (machine.exec (s.crossToPeer x y).1 js) := by
    refine machine.inv_exec_of (I := fun t => t.isOwner = false → AwayOn s.layout row t)
      (fun h => ⟨hcross, h, hlayout, hentry⟩) ?_ js hjs
    intro t c ht hG haway
    exact (ht hG.1).call hrow hG.2 haway
  obtain ⟨d', x', y', dx, dy, rfl⟩ := eq_cursorMoved hcursor
  have hc := hstraight _ (List.mem_append_right _ (.head _))
  rw [(hon (haway _ he)).warp hrow hc hwarp]
  exact mapAxisFraction_back hrows hlarger hlo hhi

/-- **The fraction mapping.** It stays on the other axis, maps the ends to the ends, keeps the order
and, to an axis that is not shorter and back, every position. So a cursor that crosses to a larger
screen and comes straight back returns to its row. -/
theorem fraction_mapping :
    (∀ p src dst : Int32, 0 ≤ (mapAxisFraction p src dst).toInt ∧
      (mapAxisFraction p src dst).toInt ≤ max (dst.toInt - 1) 0) ∧
    (∀ src dst : Int32, mapAxisFraction 0 src dst = 0 ∧
      (2 ≤ src → (mapAxisFraction (src - 1) src dst).toInt = max (dst.toInt - 1) 0)) ∧
    (∀ p q src dst : Int32, p ≤ q → mapAxisFraction p src dst ≤ mapAxisFraction q src dst) ∧
    (∀ p src dst : Int32, 2 ≤ src → src ≤ dst → 0 ≤ p → p < src →
      mapAxisFraction (mapAxisFraction p src dst) dst src = p) ∧
    ∀ (s : EngineCore) (x y : Int32) (calls : List Call), s.role = .source → s.isOwner = true →
      2 ≤ s.layout.rows → s.layout.rows ≤ s.layout.peerRows →
      0 ≤ s.layout.edge.row x y → s.layout.edge.row x y < s.layout.rows →
      (∀ c ∈ calls, c.Straight s.layout.edge) →
      (∀ e ∈ machine.trace (s.crossToPeer x y).1 calls, e.pre.isOwner = false) →
      ∀ e ∈ machine.trace (s.crossToPeer x y).1 calls, e.input.isCursor = true →
        ∀ d wx wy, .inject (.warpCursor d wx wy) ∈ e.output →
          s.layout.edge.row wx wy = s.layout.edge.row x y := by
  refine ⟨fun p src dst => (mapAxisFraction_spec p src dst).2,
    fun src dst => ⟨mapAxisFraction_zero src dst, fun h => mapAxisFraction_last h dst⟩,
    fun p q src dst h => mapAxisFraction_mono h src dst,
    fun p src dst hsrc hdst hp hlt => mapAxisFraction_back hsrc hdst hp hlt, ?_⟩
  intro s x y calls hrole hown hrows hlarger hlo hhi hstraight haway
  exact warp_row hrole hown hrows hlarger hlo hhi calls hstraight haway

/-- A push by `dx` at the right edge of a screen 100 wide. -/
def push (dx : Int32) : Call := .runtime (.localInput (.cursorMoved 0 99 1 dx 0))

/-- From the second of three rows to the third of five, and back. -/
theorem fraction_mapping_fiveRows :
    let s := newSource (.fill 1) (.fill 2) (.sideBySide 100 3 100 5)
    (s.crossToPeer 99 1).1.peerY = 2 ∧
      ∃ e ∈ machine.trace (s.crossToPeer 99 1).1 [push 5, push (-9)], ∃ wx wy,
        .inject (.warpCursor 0 wx wy) ∈ e.output ∧ wy = 1 := by
  intro s
  have hback := fraction_mapping.2.2.2.2 s 99 1 [push 5, push (-9)] rfl rfl (by decide) (by decide)
    (by decide) (by decide) (by rintro c (_ | ⟨_, _ | ⟨_, ⟨⟩⟩⟩) <;> rfl)
    (List.all_iff_forall_prop.1 (by decide))
  let t := (machine.step (s.crossToPeer 99 1).1 (push 5)).1
  have he : machine.entry t (push (-9)) ∈
      machine.trace (s.crossToPeer 99 1).1 [push 5, push (-9)] := .tail _ (.head _)
  have hwarp : .inject (.warpCursor 0 99 1) ∈ (machine.entry t (push (-9))).output :=
    List.mem_of_getLast? (by decide +kernel)
  exact ⟨by decide, _, he, 99, 1, hwarp, hback _ he rfl 0 99 1 hwarp⟩

end EngineCore

end Mouser
