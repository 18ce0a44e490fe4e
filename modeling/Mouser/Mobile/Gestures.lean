import Mathlib.Algebra.Order.Floor.Semifield
import Mathlib.Analysis.SpecialFunctions.Complex.Arg
import Mathlib.Data.List.Basic
import Mouser.Lib.Machine

/-!
# The touchpad of the Android companion

The gesture engine makes clicks, drags, scrolls and pinches of the pointers on the surface, and the
client presses the remote left button for a drag. The arithmetic is a parameter (`Geometry`), so
that one definition runs on any ordered field and is read over the reals.
-/

namespace Mouser

namespace Android

/-! ## Arithmetic -/

/-- The functions of `kotlin.math` that the engine calls. -/
structure Geometry (α : Type*) where
  hypot : α → α → α
  /-- The angle of a point, y first, in degrees. -/
  atan2Degrees : α → α → α
  sqrt : α → α

/-- Exact reals. -/
noncomputable def Geometry.real : Geometry ℝ where
  hypot x y := √(x ^ 2 + y ^ 2)
  atan2Degrees y x := Complex.arg ⟨x, y⟩ * 180 / Real.pi
  sqrt := Real.sqrt

structure Offset (α : Type*) where
  x : α
  y : α

namespace Offset
variable {α : Type*} [Field α]

def zero : Offset α := ⟨0, 0⟩

def sub (p q : Offset α) : Offset α := ⟨p.x - q.x, p.y - q.y⟩

end Offset

section
variable {α : Type*} [Field α] [LinearOrder α]

/-- Take one detent after the other off what has been scrolled; the answer has their number. -/
def detents [IsStrictOrderedRing α] [FloorRing α] {detentPx : α} (hpos : 0 < detentPx)
    (scrollAccum : α) : α × Nat :=
  if detentPx ≤ scrollAccum then
    let rest := detents hpos (scrollAccum - detentPx)
    (rest.1, rest.2 + 1)
  else (scrollAccum, 0)
termination_by ⌊scrollAccum / detentPx⌋₊
decreasing_by
  next h =>
    rw [sub_div, div_self hpos.ne', Nat.floor_sub_one]
    exact Nat.sub_lt (Nat.floor_pos.2 ((one_le_div hpos).2 h)) one_pos

/-- Whole turns off an angle above 180°. -/
def turnDown [IsStrictOrderedRing α] [FloorRing α] (x : α) : α :=
  if 180 < x then turnDown (x - 360) else x
termination_by ⌊(x + 180) / 360⌋₊
decreasing_by
  next h =>
    have hturn : (x - 360 + 180) / 360 = (x + 180) / 360 - 1 := by
      field_simp
      ring
    have hone : 1 ≤ (x + 180) / 360 := by
      rw [one_le_div (by norm_num)]
      linarith
    rw [hturn, Nat.floor_sub_one]
    exact Nat.sub_lt (Nat.floor_pos.2 hone) one_pos

/-- Whole turns onto an angle below -180°. -/
def turnUp [IsStrictOrderedRing α] [FloorRing α] (x : α) : α :=
  if x < -180 then turnUp (x + 360) else x
termination_by ⌊(180 - x) / 360⌋₊
decreasing_by
  next h =>
    have hturn : (180 - (x + 360)) / 360 = (180 - x) / 360 - 1 := by
      field_simp
      ring
    have hone : 1 ≤ (180 - x) / 360 := by
      rw [one_le_div (by norm_num)]
      linarith
    rw [hturn, Nat.floor_sub_one]
    exact Nat.sub_lt (Nat.floor_pos.2 hone) one_pos

def normalizeDegrees [IsStrictOrderedRing α] [FloorRing α] (d : α) : α := turnUp (turnDown d)

end

/-! ## The engine -/

/-- One active pointer. -/
structure PointerSample (α : Type*) where
  id : Int64
  position : Offset α

inductive TouchpadEvent (α : Type*) where
  | move (dx dy : α)
  | leftClick
  | rightClick
  | dragStart
  | dragEnd
  | scroll (dx dy : α)
  | scrollDetent
  | magnify (scale : α)
  | rotate (degrees : α)

/-- The thresholds. The scroll loop ends because a detent has a length. -/
structure Config (α : Type*) [Field α] [LinearOrder α] where
  tapTimeoutMs : Int64
  tapSlopPx : α
  dragArmWindowMs : Int64
  baseGain : α
  accelGain : α
  maxGain : α
  scrollDetentPx : α
  inertiaFriction : α
  inertiaStopPx : α
  pinchSlopPx : α
  rotateSlopDeg : α
  detent_pos : 0 < scrollDetentPx

/-- The defaults, which the surface uses. -/
def Config.default (α : Type*) [Field α] [LinearOrder α] [IsStrictOrderedRing α] : Config α where
  tapTimeoutMs := 250
  tapSlopPx := 18
  dragArmWindowMs := 320
  baseGain := 1
  accelGain := 9 / 10
  maxGain := 32 / 10
  scrollDetentPx := 28
  inertiaFriction := 92 / 100
  inertiaStopPx := 35 / 100
  pinchSlopPx := 14
  rotateSlopDeg := 8
  detent_pos := by norm_num

inductive Mode where
  | none
  | pending
  | moving
  | dragging
  | twoFinger
  | scrolling
  | pinching
deriving DecidableEq

structure GestureEngine (α : Type*) where
  mode : Mode
  primaryId : Option Int64
  lastPrimary : Offset α
  pressDownTime : Int64
  travel : α
  lastMoveTime : Int64
  lastTapUpTime : Int64
  dragArmed : Bool
  twoDownTime : Int64
  prevCentroid : Offset α
  prevDistance : α
  prevAngle : α
  twoTravel : α
  scrollAccum : α
  scrollVel : Offset α
  inertia : Offset α
  inertiaActive : Bool
  startDistance : α
  startAngle : α

/-- A call of the surface: the pointers of a frame, or a tick of the frame clock. -/
inductive Call (α : Type*) where
  | pointers (pointers : List (PointerSample α)) (now : Int64)
  | tick (now : Int64)

namespace GestureEngine

section
variable {α : Type*} [Field α] [LinearOrder α] [IsStrictOrderedRing α] [FloorRing α]
variable (g : Geometry α) (config : Config α)

def new : GestureEngine α where
  mode := .none
  primaryId := none
  lastPrimary := .zero
  pressDownTime := 0
  travel := 0
  lastMoveTime := 0
  lastTapUpTime := -1
  dragArmed := false
  twoDownTime := 0
  prevCentroid := .zero
  prevDistance := 0
  prevAngle := 0
  twoTravel := 0
  scrollAccum := 0
  scrollVel := .zero
  inertia := .zero
  inertiaActive := false
  startDistance := 0
  startAngle := 0

/-! ### Emission -/

/-- The pointer's gain rises with the finger's speed, up to a cap. -/
def gainFor (componentPx : α) (dtMs : Int64) : α :=
  let speed := |componentPx| / (dtMs.toInt : α)
  min (config.baseGain + config.accelGain * g.sqrt speed) config.maxGain

def emitMove (raw : Offset α) (dtMs : Int64) : List (TouchpadEvent α) :=
  [.move (raw.x * gainFor g config raw.x dtMs) (raw.y * gainFor g config raw.y dtMs)]

/-- A scroll, and a detent for each stretch of its travel. -/
def emitScroll (e : GestureEngine α) (delta : Offset α) :
    GestureEngine α × List (TouchpadEvent α) :=
  let (scrollAccum, n) := detents config.detent_pos (e.scrollAccum + (|delta.y| + |delta.x|))
  ({ e with scrollAccum }, .scroll delta.x delta.y :: List.replicate n .scrollDetent)

/-- Advance the scroll inertia. -/
def tick (e : GestureEngine α) : GestureEngine α × List (TouchpadEvent α) :=
  if e.inertiaActive then
    let inertia : Offset α :=
      ⟨e.inertia.x * config.inertiaFriction, e.inertia.y * config.inertiaFriction⟩
    if g.hypot inertia.x inertia.y < config.inertiaStopPx then
      ({ e with inertiaActive := false, inertia := .zero }, [])
    else emitScroll config { e with inertia } inertia
  else (e, [])

/-! ### One finger -/

/-- A finger lands: it cancels inertia, and arms a drag if it comes soon after a tap. -/
def beginPrimary (e : GestureEngine α) (p : PointerSample α) (now : Int64) : GestureEngine α :=
  { e with
    inertiaActive := false
    inertia := .zero
    primaryId := some p.id
    lastPrimary := p.position
    pressDownTime := now
    lastMoveTime := now
    travel := 0
    dragArmed := 0 ≤ e.lastTapUpTime ∧ now - e.lastTapUpTime ≤ config.dragArmWindowMs
    mode := .pending }

def oneFinger (e : GestureEngine α) (p : PointerSample α) (now : Int64) :
    GestureEngine α × List (TouchpadEvent α) :=
  if e.primaryId ≠ some p.id then (e.beginPrimary config p now, [])
  else
    let raw := p.position.sub e.lastPrimary
    let dt := max (now - e.lastMoveTime) 1
    let e := { e with
      lastPrimary := p.position
      travel := e.travel + g.hypot raw.x raw.y
      lastMoveTime := now }
    match e.mode with
    | .pending =>
      if config.tapSlopPx < e.travel then
        if e.dragArmed then
          ({ e with mode := .dragging }, .dragStart :: emitMove g config raw dt)
        else ({ e with mode := .moving }, emitMove g config raw dt)
      else (e, [])
    | .moving | .dragging => (e, emitMove g config raw dt)
    | _ => ({ e with mode := .moving }, emitMove g config raw dt)

/-! ### Two fingers -/

/-- The pair's centre, the distance of its fingers and their angle. -/
def measure (a b : PointerSample α) : Offset α × α × α :=
  (⟨(a.position.x + b.position.x) / 2, (a.position.y + b.position.y) / 2⟩,
    g.hypot (a.position.x - b.position.x) (a.position.y - b.position.y),
    g.atan2Degrees (b.position.y - a.position.y) (b.position.x - a.position.x))

/-- Entering a two-finger gesture. -/
def enterTwoFinger (e : GestureEngine α) (centroid : Offset α) (distance angle : α)
    (now : Int64) : GestureEngine α :=
  { e with
    primaryId := none
    mode := .twoFinger
    twoDownTime := now
    prevCentroid := centroid
    prevDistance := distance
    prevAngle := angle
    startDistance := distance
    startAngle := angle
    twoTravel := 0
    scrollAccum := 0
    scrollVel := .zero }

/-- Pinch or scroll, once movement is meaningful. -/
def decideMode (e : GestureEngine α) (distance angle : α) : Mode :=
  if e.mode = .twoFinger then
    let pinchish := config.pinchSlopPx < |distance - e.startDistance| ∨
      config.rotateSlopDeg < |normalizeDegrees (angle - e.startAngle)|
    let scrollish := config.tapSlopPx < e.twoTravel
    if pinchish ∧ ¬ scrollish then .pinching
    else if scrollish then .scrolling
    else .twoFinger
  else e.mode

/-- What a frame of a decided gesture emits. -/
def emitTwoFinger (e : GestureEngine α) (dCentroid : Offset α) (distance dDistance dAngle : α) :
    GestureEngine α × List (TouchpadEvent α) :=
  match e.mode with
  | .scrolling =>
    let (e, events) := e.emitScroll config dCentroid
    ({ e with scrollVel := dCentroid }, events)
  | .pinching =>
    (e, (if 1 / 100 < |dDistance| ∧ 0 < e.prevDistance then
        [.magnify (distance / e.prevDistance)] else []) ++
      if 1 / 100 < |dAngle| then [.rotate dAngle] else [])
  | _ => (e, [])

def twoFingers (e : GestureEngine α) (a b : PointerSample α) (now : Int64) :
    GestureEngine α × List (TouchpadEvent α) :=
  let (centroid, distance, angle) := measure g a b
  if e.mode ≠ .twoFinger ∧ e.mode ≠ .scrolling ∧ e.mode ≠ .pinching then
    (e.enterTwoFinger centroid distance angle now, [])
  else
    let dCentroid := centroid.sub e.prevCentroid
    let dDistance := distance - e.prevDistance
    let dAngle := normalizeDegrees (angle - e.prevAngle)
    let e := { e with
      prevCentroid := centroid
      twoTravel := e.twoTravel + g.hypot dCentroid.x dCentroid.y }
    let e := { e with mode := e.decideMode config distance angle }
    let (e, events) := e.emitTwoFinger config dCentroid distance dDistance dAngle
    ({ e with prevDistance := distance, prevAngle := angle }, events)

/-! ### Lift -/

def startInertia (e : GestureEngine α) : GestureEngine α :=
  if config.inertiaStopPx * 3 ≤ g.hypot e.scrollVel.x e.scrollVel.y then
    { e with inertia := e.scrollVel, inertiaActive := true }
  else e

def onAllUp (e : GestureEngine α) (now : Int64) : GestureEngine α × List (TouchpadEvent α) :=
  let (e, events) :=
    match e.mode with
    | .pending =>
      if now - e.pressDownTime ≤ config.tapTimeoutMs ∧ e.travel ≤ config.tapSlopPx then
        ({ e with lastTapUpTime := now }, [TouchpadEvent.leftClick])
      else (e, [])
    | .dragging => (e, [.dragEnd])
    | .scrolling => (e.startInertia g config, [])
    | .twoFinger =>
      if now - e.twoDownTime ≤ config.tapTimeoutMs ∧ e.twoTravel ≤ config.tapSlopPx then
        (e, [.rightClick])
      else (e, [])
    | _ => (e, [])
  ({ e with primaryId := none, mode := .none }, events)

/-- The pointers of a frame. -/
def onPointersChanged (e : GestureEngine α) (pointers : List (PointerSample α)) (now : Int64) :
    GestureEngine α × List (TouchpadEvent α) :=
  match pointers with
  | [] => e.onAllUp g config now
  | [p] => e.oneFinger g config p now
  | a :: b :: _ => e.twoFingers g config a b now

def step (e : GestureEngine α) : Call α → GestureEngine α × List (TouchpadEvent α)
  | .pointers pointers now => e.onPointersChanged g config pointers now
  | .tick _ => e.tick g config

def machine : Machine (GestureEngine α) (Call α) (List (TouchpadEvent α)) := ⟨step g config⟩

end

end GestureEngine

/-! ## The client -/

/-- The calls into the FFI. -/
inductive FfiCall where
  | sendPointerMoved (displayId : UInt32) (x y : Int32)
  | sendScroll (dx dy : Int32)
  | sendButton (button : UInt8) (down : Bool)
deriving DecidableEq

def buttonLeft : UInt8 := 0
def buttonRight : UInt8 := 1

def virtualSpan : Int32 := 1048576

structure MouserClient where
  isConnected : Bool
  cursorX : Int32
  cursorY : Int32

namespace MouserClient

section
variable {α : Type*} [Field α] [LinearOrder α] [IsStrictOrderedRing α] [FloorRing α]

/-- To the nearest integer, ties upwards, within 32 bits. -/
def roundToInt (x : α) : Int32 :=
  Int32.ofInt (max (-2 ^ 31) (min (2 ^ 31 - 1) ⌊x + 1 / 2⌋))

def coerceIn (x low high : Int32) : Int32 := if x < low then low else if high < x then high else x

def moveBy (c : MouserClient) (dx dy : α) : MouserClient × List FfiCall :=
  let cursorX := coerceIn (c.cursorX + roundToInt dx) 0 virtualSpan
  let cursorY := coerceIn (c.cursorY + roundToInt dy) 0 virtualSpan
  ({ c with cursorX, cursorY }, [.sendPointerMoved 0 cursorX cursorY])

def click (c : MouserClient) (button : UInt8) : MouserClient × List FfiCall :=
  (c, [.sendButton button true, .sendButton button false])

/-- Route one gesture event to the wire. -/
def onEvent (c : MouserClient) (event : TouchpadEvent α) : MouserClient × List FfiCall :=
  if c.isConnected then
    match event with
    | .move dx dy => c.moveBy dx dy
    | .scroll dx dy => (c, [.sendScroll (roundToInt dx) (roundToInt dy)])
    | .leftClick => c.click buttonLeft
    | .rightClick => c.click buttonRight
    | .dragStart => (c, [.sendButton buttonLeft true])
    | .dragEnd => (c, [.sendButton buttonLeft false])
    | .scrollDetent | .magnify _ | .rotate _ => (c, [])
  else (c, [])

/-- Route the events of a run. -/
def onEvents (c : MouserClient) : List (TouchpadEvent α) → List FfiCall
  | [] => []
  | event :: events => (c.onEvent event).2 ++ onEvents (c.onEvent event).1 events

end

/-- Whether the remote left button is down after a call. -/
def leftAfter (down : Bool) : FfiCall → Bool
  | .sendButton button d => if button = buttonLeft then d else down
  | _ => down

/-- Whether the remote left button is down after calls. -/
def leftDown (calls : List FfiCall) : Bool := calls.foldl leftAfter false

end MouserClient

end Android

end Mouser
