import Mouser.Engine.Turn

/-!
# Overflow in the cursor arithmetic

`onLocalInputChecked` is `onLocalInput` with every plain operation on fixed-width integers checked:
it has no result where the code overflows, and the result of `onLocalInput` otherwise. Most of the
arithmetic saturates. What does not is the negation in `homewardDelta` and the sum that counts the
travel home, and these overflow just when the sum of the two is above the top of `i32`
(`cursor_overflows_iff`).
-/

namespace Mouser

/-- `mapAxisFraction` with its `i64` arithmetic and the narrowing of its result checked. -/
def mapAxisFractionChecked (pos srcLen dstLen : Int32) : Option Int32 :=
  let srcMax := max (srcLen.saturatingSub 1) 1
  let dstMax := max (dstLen.saturatingSub 1) 0
  let n := (pos.clampBetween 0 srcMax).toInt * dstMax.toInt
  let m := n + srcMax.toInt.tdiv 2
  if n < 2 ^ 63 ∧ m < 2 ^ 63 then Int32.ofIntChecked (m.tdiv srcMax.toInt) else none

namespace EngineCore

def homewardDeltaChecked (s : EngineCore) (dx dy : Int32) : Option Int32 :=
  match s.layout.edge with
  | .left => some dx
  | .right => dx.checkedNeg
  | .bottom => dy.checkedNeg
  | .top => some dy

def entryEdgeWarpChecked (s : EngineCore) : Option Action := do
  let maxX := max (s.layout.width.saturatingSub 1) 0
  let maxY := max (s.layout.height.saturatingSub 1) 0
  let localY ← mapAxisFractionChecked s.peerY s.layout.peerHeight s.layout.height
  let localX ← mapAxisFractionChecked s.peerX s.layout.peerWidth s.layout.width
  match s.layout.edge with
  | .left => some (.inject (.warpCursor 0 0 localY))
  | .right => some (.inject (.warpCursor 0 maxX localY))
  | .top => some (.inject (.warpCursor 0 localX 0))
  | .bottom => some (.inject (.warpCursor 0 localX maxY))

def entryPointChecked (s : EngineCore) (x y : Int32) : Option (Int32 × Int32) :=
  let maxX := max (s.layout.peerWidth.saturatingSub 1) 0
  let maxY := max (s.layout.peerHeight.saturatingSub 1) 0
  match s.layout.edge with
  | .right => do some (0, ← mapAxisFractionChecked y s.layout.height s.layout.peerHeight)
  | .left => do some (maxX, ← mapAxisFractionChecked y s.layout.height s.layout.peerHeight)
  | .bottom => do some (← mapAxisFractionChecked x s.layout.width s.layout.peerWidth, 0)
  | .top => do some (← mapAxisFractionChecked x s.layout.width s.layout.peerWidth, maxY)

/-- The counters and the epoch of a crossing saturate. -/
def crossToPeerChecked (s : EngineCore) (x y : Int32) : Option (EngineCore × List Action) :=
  match s.ownership.grantTo s.peer with
  | (_, none) => some (s, [.capture .passThrough])
  | (_, some _) => do
    let entry ← s.entryPointChecked x y
    some ({ (s.crossToPeer x y).1 with peerX := entry.1, peerY := entry.2 }, (s.crossToPeer x y).2)

def forwardCursorChecked (s : EngineCore) (dx dy : Int32) : Option (EngineCore × List Action) :=
  if s.reclaimArmed && s.crossesBack dx dy then do
    let warp ← s.entryEdgeWarpChecked
    some (s.reclaimLocal.1, s.reclaimLocal.2 ++ [warp])
  else some (s.forwardCursor dx dy)

def onCursorChecked (s : EngineCore) (x y dx dy : Int32) (owns : Bool) :
    Option (EngineCore × List Action) :=
  if owns then
    if !s.crossOutArmed && s.localLeftCrossEdge x y then
      some ({ s with crossOutArmed := true }, [.capture .passThrough])
    else if s.crossOutArmed && !s.suppressBlocked && s.crossesOut x y dx dy then
      s.crossToPeerChecked x y
    else some (s, [.capture .passThrough])
  else if s.localEscapeBack x y dx dy then some s.reclaimLocal
  else do
    let homeward ← s.homewardDeltaChecked dx dy
    let travel ← s.escapeTravel.checkedAdd homeward
    let s := { s with escapeTravel := max travel 0 }
    if s.escapeTravel ≥ s.escapeThreshold then some s.reclaimLocal
    else (s.movePeerCursor dx dy).forwardCursorChecked dx dy

/-- `onLocalInput` with its arithmetic checked; the events other than cursor moves only count up
with counters that saturate. -/
def onLocalInputChecked (s : EngineCore) (event : LocalInputEvent) :
    Option (EngineCore × List Action) :=
  if s.role ≠ .source then some (s.onLocalInput event)
  else
    match event with
    | .cursorMoved _ x y dx dy => s.onCursorChecked x y dx dy s.isOwner
    | event => some (s.onLocalInput event)

end EngineCore

/-! ## What cannot overflow -/

theorem mapAxisFractionChecked_eq (pos srcLen dstLen : Int32) :
    mapAxisFractionChecked pos srcLen dstLen = some (mapAxisFraction pos srcLen dstLen) := by
  have hsrc := srcLen.toInt_lt
  have hdst := dstLen.toInt_lt
  obtain ⟨hS, hp⟩ := fraction_operands pos srcLen
  obtain ⟨hlo, hhi, hround, hlow, hhigh⟩ :=
    fraction_bounds (p := min (max pos.toInt 0) (max (srcLen.toInt - 1) 1))
      (S := max (srcLen.toInt - 1) 1) (D := max (dstLen.toInt - 1) 0)
      (by omega) (by omega) (by omega) (by omega)
  have hproduct : max (srcLen.toInt - 1) 1 * max (dstLen.toInt - 1) 0 ≤ 2 ^ 31 * 2 ^ 31 :=
    Int.mul_le_mul (by omega) (by omega) (by omega) (by omega)
  have htwo : (max (srcLen.toInt - 1) 1).tdiv 2 < 2 ^ 31 := by
    rw [Int.tdiv_eq_ediv_of_nonneg (by omega)]
    omega
  unfold mapAxisFractionChecked mapAxisFraction
  dsimp only
  rw [hp, hS, toInt_last, if_pos ⟨by omega, by omega⟩, hround]
  exact if_pos ⟨by omega, by omega⟩

namespace EngineCore

variable {s : EngineCore}

theorem entryEdgeWarpChecked_eq (s : EngineCore) :
    s.entryEdgeWarpChecked = some s.entryEdgeWarp := by
  unfold entryEdgeWarpChecked entryEdgeWarp
  rw [mapAxisFractionChecked_eq, mapAxisFractionChecked_eq]
  dsimp only [Option.bind_eq_bind, Option.bind_some]
  cases s.layout.edge <;> rfl

theorem entryPointChecked_eq (s : EngineCore) (x y : Int32) :
    s.entryPointChecked x y = some (s.entryPoint x y) := by
  unfold entryPointChecked entryPoint
  rw [mapAxisFractionChecked_eq, mapAxisFractionChecked_eq]
  cases s.layout.edge <;> rfl

theorem crossToPeerChecked_eq (s : EngineCore) (x y : Int32) :
    s.crossToPeerChecked x y = some (s.crossToPeer x y) := by
  unfold crossToPeerChecked
  rw [entryPointChecked_eq]
  cases hown : s.isOwner with
  | true =>
    rw [crossToPeer_eq s hown, Ownership.grantTo_of_isOwner hown]
    rfl
  | false =>
    have hgrant : s.ownership.grantTo s.peer = (s.ownership, none) := by
      have hown : s.ownership.isOwner = false := hown
      simp [Ownership.grantTo, hown]
    simp only [crossToPeer, hgrant]

theorem forwardCursorChecked_eq (s : EngineCore) (dx dy : Int32) :
    s.forwardCursorChecked dx dy = some (s.forwardCursor dx dy) := by
  unfold forwardCursorChecked
  rw [entryEdgeWarpChecked_eq]
  split
  · next hback =>
    rw [forwardCursor, if_pos hback]
    rfl
  · rfl

/-! ## What can -/

/-- The travel home of a delta, before any arithmetic on it. -/
def homeward (s : EngineCore) (dx dy : Int32) : Int :=
  match s.layout.edge with
  | .left => dx.toInt
  | .right => -dx.toInt
  | .bottom => -dy.toInt
  | .top => dy.toInt

/-- A sum with a summand that is not negative overflows at the top only. -/
theorem checkedAdd_of_nonneg {a : Int32} (h : 0 ≤ a.toInt) (b : Int32) :
    a.checkedAdd b = if a.toInt + b.toInt < 2 ^ 31 then some (a + b) else none := by
  have hb := b.le_toInt
  split
  · next hfits =>
    obtain ⟨c, hc⟩ := Option.isSome_iff_exists.1 (Int32.isSome_ofIntChecked.2 ⟨by omega, hfits⟩)
    rw [Int32.checkedAdd_eq hc]
    exact hc
  · next hfits =>
    rw [← Option.not_isSome_iff_eq_none]
    exact fun h' => hfits (Int32.isSome_ofIntChecked.1 h').2

theorem checkedNeg_bind_add {a : Int32} (h : 0 ≤ a.toInt) (b : Int32) :
    b.checkedNeg.bind a.checkedAdd =
      if a.toInt + -b.toInt < 2 ^ 31 then some (a + -b) else none := by
  cases hneg : b.checkedNeg with
  | none =>
    have hb := b.toInt_lt
    have htop : ¬ (-2 ^ 31 ≤ -b.toInt ∧ -b.toInt < 2 ^ 31) := by
      rw [← Int32.isSome_ofIntChecked]
      exact fun h' => Option.not_isSome_iff_eq_none.2 hneg h'
    rw [if_neg (by omega)]
    rfl
  | some c =>
    rw [Option.bind_some, checkedAdd_of_nonneg h, Int32.ofIntChecked_eq_some.1 hneg,
      Int32.checkedNeg_eq hneg]

/-- The travel fits as long as it is not above the top of `i32`. -/
theorem travelChecked (htravel : 0 ≤ s.escapeTravel.toInt) (dx dy : Int32) :
    (s.homewardDeltaChecked dx dy).bind s.escapeTravel.checkedAdd =
      if s.escapeTravel.toInt + s.homeward dx dy < 2 ^ 31 then
        some (s.escapeTravel + s.homewardDelta dx dy)
      else none := by
  unfold homewardDeltaChecked homeward homewardDelta
  cases s.layout.edge with
  | left | top => exact checkedAdd_of_nonneg htravel _
  | right | bottom => exact checkedNeg_bind_add htravel _

/-- The checked step of a source that has given input away. -/
theorem onCursorChecked_away (htravel : 0 ≤ s.escapeTravel.toInt) (x y dx dy : Int32) :
    s.onCursorChecked x y dx dy false =
      if s.localEscapeBack x y dx dy = true ∨ s.escapeTravel.toInt + s.homeward dx dy < 2 ^ 31 then
        some (s.onCursor x y dx dy false)
      else none := by
  rw [onCursor_away]
  by_cases hescape : s.localEscapeBack x y dx dy = true
  · simp only [onCursorChecked, hescape]
    rfl
  · rw [if_neg hescape]
    have hbind : s.onCursorChecked x y dx dy false =
        ((s.homewardDeltaChecked dx dy).bind s.escapeTravel.checkedAdd).bind fun travel =>
          if max travel 0 ≥ s.escapeThreshold then
            some { s with escapeTravel := max travel 0 }.reclaimLocal
          else ({ s with escapeTravel := max travel 0 }.movePeerCursor dx dy).forwardCursorChecked
            dx dy := by
      simp only [onCursorChecked, hescape]
      rw [Option.bind_assoc]
      rfl
    rw [hbind, travelChecked htravel]
    by_cases hfits : s.escapeTravel.toInt + s.homeward dx dy < 2 ^ 31
    · rw [if_pos hfits, if_pos (.inr hfits), Option.bind_some]
      simp only [forwardCursorChecked_eq]
      exact (apply_ite some _ _ _).symm
    · rw [if_neg hfits, if_neg (not_or.2 ⟨hescape, hfits⟩)]
      rfl

theorem onCursorChecked_home (s : EngineCore) (x y dx dy : Int32) :
    s.onCursorChecked x y dx dy true = some (s.onCursor x y dx dy true) := by
  simp only [onCursorChecked, onCursor, crossToPeerChecked_eq, if_true]
  rw [apply_ite some, apply_ite some]

/-- **The checked event.** Where it has a result it is the one of the code. -/
theorem onLocalInputChecked_cursorMoved (hrole : s.role = .source)
    (htravel : 0 ≤ s.escapeTravel.toInt) (d : UInt32) (x y dx dy : Int32) :
    s.onLocalInputChecked (.cursorMoved d x y dx dy) =
      if s.isOwner = true ∨ s.localEscapeBack x y dx dy = true ∨
          s.escapeTravel.toInt + s.homeward dx dy < 2 ^ 31 then
        some (s.onLocalInput (.cursorMoved d x y dx dy))
      else none := by
  rw [onLocalInputChecked, onLocalInput, if_neg (not_not.2 hrole), if_neg (not_not.2 hrole)]
  dsimp only
  cases hown : s.isOwner with
  | true =>
    rw [if_pos (.inl rfl)]
    exact s.onCursorChecked_home x y dx dy
  | false =>
    rw [onCursorChecked_away htravel]
    simp only [Bool.false_eq_true, false_or]

/-- The travel home is never counted below zero. -/
theorem escapeTravel_call (h : 0 ≤ s.escapeTravel.toInt) (c : Call) :
    0 ≤ (s.call c).1.escapeTravel.toInt := by
  have h0 : (0 : Int32).toInt = 0 := rfl
  have hmax : ∀ travel : Int32, 0 ≤ (max travel 0).toInt := by
    intro travel
    rw [Int32.toInt_max]
    omega
  have hturn := s.call_turn c
  generalize (s.call c).1 = s' at hturn ⊢
  cases hturn with
  | reclaimed travel misses htravel hl =>
    have heq : s'.escapeTravel = travel := congrArg Latches.escapeTravel hl
    rw [heq]
    rcases htravel with rfl | ⟨dx, dy, rfl⟩
    · exact h
    · exact hmax _
  | crossed _ _ _ hl =>
    have heq : s'.escapeTravel = 0 := congrArg Latches.escapeTravel hl
    rw [heq, h0]
  | @moved d x y dx dy s' _ _ _ _ _ _ hl =>
    have heq : s'.escapeTravel = (s.travelled dx dy).escapeTravel :=
      congrArg Latches.escapeTravel hl
    rw [heq]
    exact hmax _
  | kept _ hl | alive _ hl | settled _ _ hl | ticked _ _ hl | adopted _ _ _ hl | handed _ hl
  | rearmed _ _ _ hl =>
    have heq : s'.escapeTravel = s.escapeTravel := congrArg Latches.escapeTravel hl
    rwa [heq]

theorem escapeTravel_exec (me peer : DeviceId) (layout : EdgeLayout) (calls : List Call) :
    0 ≤ (machine.exec (newSource me peer layout) calls).escapeTravel.toInt := by
  have h0 : 0 ≤ (0 : Int32).toInt := by decide
  exact machine.inv_exec (I := fun s => 0 ≤ s.escapeTravel.toInt) h0
    (fun _ c h => escapeTravel_call h c) calls

/-- **When the cursor arithmetic does not overflow**, in every state that a source reaches: the
source owns input, the cursor has come back to the far side, or the travel home stays below the top
of `i32`. -/
theorem cursor_overflows_iff (me peer : DeviceId) (layout : EdgeLayout) (calls : List Call)
    (d : UInt32) (x y dx dy : Int32) :
    let s := machine.exec (newSource me peer layout) calls
    (s.onLocalInputChecked (.cursorMoved d x y dx dy)).isSome = true ↔
      s.isOwner = true ∨ s.localEscapeBack x y dx dy = true ∨
        s.escapeTravel.toInt + s.homeward dx dy < 2 ^ 31 := by
  have hrole : (machine.exec (newSource me peer layout) calls).role = .source :=
    machine.inv_exec (I := fun s => s.role = .source) rfl
      (fun s c h => (s.call_device c).role.trans h) calls
  dsimp only
  rw [onLocalInputChecked_cursorMoved hrole (escapeTravel_exec me peer layout calls)]
  split
  · next h => exact ⟨fun _ => h, fun _ => rfl⟩
  · next h => exact ⟨nofun, fun h' => absurd h' h⟩

/-- The cursor crosses out to the right. -/
def crossedRight : List Call := [.runtime (.localInput (.cursorMoved 0 98 50 5 0))]

/-- The delta `i32::MIN` has no negation, and the largest delta home overflows the travel that ten
pixels have left. -/
theorem leftmost_overflows :
    ((machine.exec (newSource (.fill 1) (.fill 2) (.sideBySide 100 100 100 100))
        crossedRight).onLocalInputChecked
      (.cursorMoved 0 50 50 Int32.minValue 0)).isSome = false ∧
    ((machine.exec (newSource (.fill 1) (.fill 2) (.sideBySide 100 100 100 100))
        (crossedRight ++
          [.runtime (.localInput (.cursorMoved 0 50 50 (-10) 0))])).onLocalInputChecked
      (.cursorMoved 0 50 50 (-Int32.maxValue) 0)).isSome = false := by
  decide

end EngineCore

end Mouser
