import Mouser.Capture.Injection
import Mouser.Engine.Decision
import Mouser.Engine.Handoff
import Mathlib.Algebra.BigOperators.Ring.Finset
import Mathlib.Algebra.Order.Field.Basic
import Mathlib.Algebra.Order.Field.Rat
import Mathlib.Tactic.NormNum
import Mathlib.Tactic.Ring

/-!
# The way of a wheel

A wheel is captured in units of 1/120 notch, forwarded by the source's core and injected on the
target. The core tags every scroll as logical pixels. The Windows injector takes 120 of these for
one wheel unit, itself 1/120 notch, and drops the rest of each event; the Linux injector takes each
for a whole notch. `wheel_distance_iff` says what of the distance survives.
-/

namespace Mouser

/-! ## Capture -/

namespace Linux

def relX : UInt16 := 0
def relY : UInt16 := 1
def relHwheel : UInt16 := 6
def relWheel : UInt16 := 8

/-- The types of evdev events; the `other` ones are not forwarded. -/
inductive EventKind where
  | key
  | relative
  | other
deriving DecidableEq

/-- `to_local_event`. A pointer motion is resolved by the cursor mapper, `eventFromDelta`. -/
def toLocalEvent (eventFromDelta : Int32 → Int32 → Option LocalInputEvent) (kind : EventKind)
    (code : UInt16) (value : Int32) : Option LocalInputEvent :=
  match kind with
  | .key => keyToLocalEvent code value
  | .relative =>
    if code = relX then eventFromDelta value 0
    else if code = relY then eventFromDelta 0 value
    else if code = relWheel then some (.scroll 0 (value.saturatingMul 120))
    else if code = relHwheel then some (.scroll (value.saturatingMul 120) 0)
    else none
  | .other => none

end Linux

/-! ## Injection -/

namespace Linux

/-- `UinputDevice::scroll`: the codes and the values of the relative events. -/
def scrollEvents (dx dy : Int32) : List (UInt16 × Int32) :=
  (if dy ≠ 0 then [(relWheel, dy)] else []) ++ (if dx ≠ 0 then [(relHwheel, dx)] else [])

/-- `UinputInjector::scroll`. -/
def scroll (dx dy : Int32) (unit : CoreScrollUnit) : List (UInt16 × Int32) :=
  match unit with
  | .detent120 => scrollEvents (dx / 120) (dy / 120)
  | .logicalPixel => scrollEvents dx dy

end Linux

namespace Windows

def wheelDelta : Int32 := 120

def mouseeventfWheel : UInt32 := 0x0800
def mouseeventfHwheel : UInt32 := 0x1000

/-- The `MOUSEINPUT` of a wheel; the other fields are 0. -/
structure WheelInput where
  mouseData : UInt32
  dwFlags : UInt32
deriving DecidableEq

def wheelMouseData (delta : Int32) : UInt32 := (delta.clampBetween (-32768) 32767).toUInt32

def detentsFor (dx dy : Int32) (unit : CoreScrollUnit) : Int32 × Int32 :=
  match unit with
  | .detent120 => (dx, dy)
  | .logicalPixel => (dx / wheelDelta, dy / wheelDelta)

/-- What `scroll` sends. -/
def scroll (dx dy : Int32) (unit : CoreScrollUnit) : List WheelInput :=
  let (dx, dy) := detentsFor dx dy unit
  (if dy ≠ 0 then [⟨wheelMouseData dy, mouseeventfWheel⟩] else []) ++
    (if dx ≠ 0 then [⟨wheelMouseData dx, mouseeventfHwheel⟩] else [])

end Windows

/-! ## Distances -/

inductive Axis where
  | vertical
  | horizontal
deriving DecidableEq

namespace Axis

/-- The code of the axis in evdev. -/
def code : Axis → UInt16
  | vertical => Linux.relWheel
  | horizontal => Linux.relHwheel

/-- The message of the axis to a Windows hook. -/
def message : Axis → UInt32
  | vertical => Windows.wmMousewheel
  | horizontal => Windows.wmMousehwheel

/-- The flag of the axis in a `MOUSEINPUT`. -/
def flag : Axis → UInt32
  | vertical => Windows.mouseeventfWheel
  | horizontal => Windows.mouseeventfHwheel

/-- The scroll of the axis alone. -/
def scroll (axis : Axis) (amount : Int32) : LocalInputEvent :=
  match axis with
  | vertical => .scroll 0 amount
  | horizontal => .scroll amount 0

end Axis

/-- A wheel event: whole detents of evdev, or the data of a message that no program injected. -/
inductive WheelEvent where
  | linux (axis : Axis) (value : Int32)
  | windows (axis : Axis) (mouseData flags : UInt32) (hflags : flags &&& Windows.llmhfInjected = 0)

namespace WheelEvent

def axis : WheelEvent → Axis
  | linux axis _ => axis
  | windows axis .. => axis

/-- The movement of the wheel, in 1/120 notch. -/
def units : WheelEvent → ℤ
  | linux _ value => 120 * value.toInt
  | windows _ mouseData _ _ => (Windows.highWordI16 mouseData).toInt

/-- What the capture of the platform makes of the event. -/
def capture (eventFromDelta : Int32 → Int32 → Option LocalInputEvent) :
    WheelEvent → Option LocalInputEvent
  | linux axis value => Linux.toLocalEvent eventFromDelta .relative axis.code value
  | windows axis mouseData flags _ => Windows.mouseEventFromParts axis.message mouseData flags

/-- The wheel event is small enough: neither its capture nor its injection on the target
saturates. -/
def Unsaturated (target : Platform) (event : WheelEvent) : Prop :=
  (-2 ^ 31 ≤ event.units ∧ event.units < 2 ^ 31) ∧
    (target = .windows → -2 ^ 15 ≤ event.units.tdiv 120 ∧ event.units.tdiv 120 < 2 ^ 15)

instance (target : Platform) (event : WheelEvent) : Decidable (event.Unsaturated target) :=
  inferInstanceAs (Decidable (_ ∧ _))

end WheelEvent

/-- The movements on the axis, in 1/120 notch. -/
def unitsOn (axis : Axis) (events : List WheelEvent) : List ℤ :=
  (events.filter (·.axis = axis)).map WheelEvent.units

/-- The movement that was captured on the axis, in notches. -/
def capturedNotches (axis : Axis) (events : List WheelEvent) : ℚ :=
  ((unitsOn axis events).map fun units : ℤ => (units : ℚ) / 120).sum

/-- The movement that the injection of a scroll is on the axis, in notches: a relative event is a
number of detents, and the data of a `MOUSEINPUT` are 1/120 notch. -/
def injectedBy (target : Platform) (axis : Axis) : Inject → ℚ
  | .scroll dx dy unit =>
    match target with
    | .linux =>
      (((Linux.scroll dx dy unit).filter (·.1 = axis.code)).map fun event =>
        (event.2.toInt : ℚ)).sum
    | .windows =>
      (((Windows.scroll dx dy unit).filter (·.dwFlags = axis.flag)).map fun input =>
        (input.mouseData.toInt32.toInt : ℚ) / 120).sum
  | _ => 0

/-- The movement that the target injects on the axis for the frames, in notches. -/
def injectedNotches (target : Platform) (axis : Axis) (frames : List ControlFrame) : ℚ :=
  ((frames.filterMap ControlFrame.inject?).map (injectedBy target axis)).sum

/-! ## From the wheel to the injection -/

namespace WheelEvent

/-- The amount that capture reports. -/
def amount : WheelEvent → Int32
  | linux _ value => value.saturatingMul 120
  | windows _ mouseData _ _ => (Windows.highWordI16 mouseData).toInt32

theorem capture_eq (eventFromDelta : Int32 → Int32 → Option LocalInputEvent)
    (event : WheelEvent) :
    event.capture eventFromDelta = some (event.axis.scroll event.amount) := by
  cases event with
  | linux axis value => cases axis <;> rfl
  | windows axis mouseData flags hflags =>
    rw [capture, Windows.mouseEventFromParts, if_neg (not_not.2 hflags)]
    cases axis <;> rfl

theorem toInt_amount {target : Platform} {event : WheelEvent} (h : event.Unsaturated target) :
    event.amount.toInt = event.units := by
  cases event with
  | linux axis value =>
    have h120 : (120 : Int32).toInt = 120 := rfl
    have hfits := h.1
    rw [units] at hfits ⊢
    rw [amount, Int32.toInt_saturatingMul, h120]
    omega
  | windows axis mouseData flags hflags => exact Int16.toInt_toInt32 _

end WheelEvent

/-- What the frame of a scroll on the axis asks the target to inject. -/
def Axis.inject (axis : Axis) (amount : Int32) : Inject :=
  match axis with
  | .vertical => .scroll 0 amount .logicalPixel
  | .horizontal => .scroll amount 0 .logicalPixel

/-- **The source's core.** Scrolls are forwarded one by one, as logical pixels. -/
theorem inject_framesOf {s : EngineCore} (hrole : s.role = .source) (haway : s.isOwner = false)
    (scrolls : List (Axis × Int32)) :
    (s.framesOf (scrolls.map fun (axis, amount) => axis.scroll amount)).filterMap
        ControlFrame.inject? =
      scrolls.map fun (axis, amount) => axis.inject amount := by
  induction scrolls generalizing s with
  | nil => rfl
  | cons scroll scrolls ih =>
    obtain ⟨axis, amount⟩ := scroll
    have hframe : ∃ f, (axis.scroll amount).frame? s.epoch (s.outCtr.saturatingAdd 1) = some f ∧
        f.inject? = some (axis.inject amount) := by
      cases axis <;> exact ⟨_, rfl, rfl⟩
    obtain ⟨f, hf, hinject⟩ := hframe
    have hstep : EngineCore.machine.step s (.runtime (.localInput (axis.scroll amount))) =
        (s.nextCtr.1, [.sendControl f, .capture .suppress]) := by
      refine (EngineCore.onLocalInput_eq hrole hf).trans ?_
      rw [haway]
      rfl
    have hframes : s.framesOf (axis.scroll amount ::
        scrolls.map fun (axis, amount) => axis.scroll amount) =
        f :: s.nextCtr.1.framesOf (scrolls.map fun (axis, amount) => axis.scroll amount) := by
      simp [EngineCore.framesOf, hstep, frames]
    rw [List.map_cons, List.map_cons, hframes, List.filterMap_cons_some hinject,
      ih (s := s.nextCtr.1) hrole haway]

/-- The division of the Windows injector. -/
theorem toInt_div_wheelDelta (amount : Int32) :
    (amount / Windows.wheelDelta).toInt = amount.toInt.tdiv 120 := by
  rw [Int32.toInt_div_of_ne_right _ _ (by decide)]
  rfl

/-- The data of a wheel that does not saturate. -/
theorem toInt_wheelMouseData {delta : Int32} (h : -2 ^ 15 ≤ delta.toInt ∧ delta.toInt < 2 ^ 15) :
    (Windows.wheelMouseData delta).toInt32.toInt = delta.toInt := by
  have hlow : ¬ delta < -32768 := by
    rw [Int32.lt_iff_toInt_lt]
    exact not_lt.2 h.1
  have hhigh : ¬ 32767 < delta := by
    rw [Int32.lt_iff_toInt_lt]
    exact not_lt.2 (Int.lt_add_one_iff.1 h.2)
  rw [Windows.wheelMouseData, Int32.clampBetween, if_neg hlow, if_neg hhigh]
  rfl

/-- What the target injects for a movement in 1/120 notch that was captured, in notches. -/
def Platform.notches : Platform → ℤ → ℚ
  | .linux, units => units
  | .windows, units => (units.tdiv 120 : ℤ) / 120

/-- **One event.** The injection of a scroll is on its axis alone. -/
theorem injectedBy_inject {target : Platform} {amount : Int32}
    (h : target = .windows → -2 ^ 15 ≤ amount.toInt.tdiv 120 ∧ amount.toInt.tdiv 120 < 2 ^ 15)
    (axis axis' : Axis) :
    injectedBy target axis (axis'.inject amount) =
      if axis' = axis then target.notches amount.toInt else 0 := by
  cases target with
  | linux =>
    by_cases hzero : amount = 0
    · subst hzero
      cases axis <;> cases axis' <;> rfl
    · have hcodes : Linux.relWheel ≠ Linux.relHwheel := by decide
      cases axis <;> cases axis' <;>
        simp [injectedBy, Axis.inject, Linux.scroll, Linux.scrollEvents, hzero, Axis.code, hcodes,
          hcodes.symm, Platform.notches]
  | windows =>
    have hfits : -2 ^ 15 ≤ (amount / Windows.wheelDelta).toInt ∧
        (amount / Windows.wheelDelta).toInt < 2 ^ 15 := by
      rw [toInt_div_wheelDelta]
      exact h rfl
    have hdata := toInt_wheelMouseData hfits
    have hnone : (0 : Int32) / Windows.wheelDelta = 0 := by decide
    have hflags : Windows.mouseeventfWheel ≠ Windows.mouseeventfHwheel := by decide
    rw [toInt_div_wheelDelta] at hdata
    by_cases hzero : amount / Windows.wheelDelta = 0
    · have hunits : amount.toInt.tdiv 120 = 0 := by
        rw [← toInt_div_wheelDelta, hzero]
        rfl
      cases axis <;> cases axis' <;>
        simp [injectedBy, Axis.inject, Windows.scroll, Windows.detentsFor, hzero, hnone,
          Platform.notches, hunits]
    · cases axis <;> cases axis' <;>
        simp [injectedBy, Axis.inject, Windows.scroll, Windows.detentsFor, hzero, hnone, hdata,
          Axis.flag, hflags, hflags.symm, Platform.notches]

/-- **A list of events.** The movements on an axis are injected one by one. -/
theorem injectedNotches_eq {s : EngineCore} (hrole : s.role = .source) (haway : s.isOwner = false)
    (eventFromDelta : Int32 → Int32 → Option LocalInputEvent) {target : Platform}
    {events : List WheelEvent} (hsmall : ∀ event ∈ events, event.Unsaturated target)
    (axis : Axis) :
    injectedNotches target axis
        (s.framesOf (events.filterMap (WheelEvent.capture eventFromDelta))) =
      ((unitsOn axis events).map target.notches).sum := by
  have hcaptured : events.filterMap (WheelEvent.capture eventFromDelta) =
      (events.map fun event => (event.axis, event.amount)).map fun (axis, amount) =>
        axis.scroll amount := by
    rw [List.map_map, ← List.filterMap_eq_map]
    exact List.filterMap_congr fun event _ => event.capture_eq eventFromDelta
  have hone : ∀ event ∈ events, injectedBy target axis (event.axis.inject event.amount) =
      if event.axis = axis then target.notches event.units else 0 := by
    intro event hevent
    have hunits := WheelEvent.toInt_amount (hsmall event hevent)
    rw [injectedBy_inject (by rw [hunits]; exact (hsmall event hevent).2), hunits]
  rw [hcaptured, injectedNotches, inject_framesOf hrole haway, List.map_map, List.map_map, unitsOn,
    List.map_map]
  refine (congrArg List.sum (List.map_congr_left hone)).trans ?_
  rw [List.sum_map_ite, List.map_const', List.sum_replicate, nsmul_zero, add_zero]
  rfl

/-! ## What survives -/

/-- What the movements on an axis come to on the way. The Linux target takes each 1/120 notch for a
notch; the Windows target takes each whole notch of an event for 1/120 notch, and drops the rest of
the event. -/
def Survives (target : Platform) (units : List ℤ) : Prop :=
  match target with
  | .linux => |units.sum| ≤ 1
  | .windows => |119 * (units.map (·.tdiv 120)).sum + (units.map (·.tmod 120)).sum| < 120

instance (target : Platform) (units : List ℤ) : Decidable (Survives target units) :=
  match target with
  | .linux => inferInstanceAs (Decidable (_ ≤ _))
  | .windows => inferInstanceAs (Decidable (_ < _))

/-- The whole notches and the rests of the events are all of the movement. -/
theorem sum_tdiv_add_tmod (units : List ℤ) :
    120 * (units.map (·.tdiv 120)).sum + (units.map (·.tmod 120)).sum = units.sum := by
  induction units with
  | nil => rfl
  | cons u units ih =>
    have hu := Int.mul_tdiv_add_tmod u 120
    rw [List.map_cons, List.map_cons, List.sum_cons, List.sum_cons, List.sum_cons, ← ih]
    omega

theorem sum_div (units : List ℤ) :
    (units.map fun u : ℤ => (u : ℚ) / 120).sum = (units.sum : ℚ) / 120 := by
  induction units with
  | nil => simp
  | cons u units ih =>
    rw [List.map_cons, List.sum_cons, List.sum_cons, ih]
    push_cast
    ring

/-- A distance of less than one notch, in 1/120 notch. -/
theorem abs_div_lt_one {n : ℤ} : |(n : ℚ) / 120| < 1 ↔ |n| < 120 := by
  rw [abs_div, div_lt_one (by norm_num), abs_of_pos (by norm_num : (0 : ℚ) < 120)]
  exact_mod_cast Iff.rfl

/-- **When the distance survives.** -/
theorem abs_notches_sub_lt {target : Platform} {units : List ℤ} :
    |(units.map target.notches).sum - (units.map fun u : ℤ => (u : ℚ) / 120).sum| < 1 ↔
      Survives target units := by
  have hsplit := sum_tdiv_add_tmod units
  cases target with
  | linux =>
    have hsum : (units.map Platform.linux.notches).sum = (units.sum : ℚ) :=
      (Int.cast_list_sum units).symm
    have hdistance : (units.sum : ℚ) - (units.sum : ℚ) / 120 =
        ((119 * units.sum : ℤ) : ℚ) / 120 := by
      push_cast
      ring
    rw [hsum, sum_div, hdistance, abs_div_lt_one, Survives, abs_lt, abs_le]
    omega
  | windows =>
    generalize hwhole : (units.map (·.tdiv 120)).sum = whole at hsplit
    generalize hrest : (units.map (·.tmod 120)).sum = rest at hsplit
    have hsum : (units.map Platform.windows.notches).sum = (whole : ℚ) / 120 := by
      rw [← hwhole, ← sum_div, List.map_map]
      rfl
    have hdistance : (whole : ℚ) / 120 - ((120 * whole + rest : ℤ) : ℚ) / 120 =
        ((-(119 * whole + rest) : ℤ) : ℚ) / 120 := by
      push_cast
      ring
    rw [hsum, sum_div, ← hsplit, hdistance, abs_div_lt_one, abs_neg, Survives, hwhole, hrest]

/-- A source that has crossed to its peer. -/
def crossedSource : EngineCore :=
  ((EngineCore.newSource (.fill 1) (.fill 2) (.sideBySide 100 100 100 100)).onLocalInput
    (.cursorMoved 0 98 50 5 0)).1

/-- Half a notch of a Windows wheel. -/
def halfNotch : WheelEvent := .windows .vertical 0x003C0000 0 rfl

/-- **What survives of a distance.** A source that has given input away forwards the events of a
wheel. On each axis the target injects the distance that was captured, but for less than a notch,
just when the movements are among the few that the wrong unit does not spoil. -/
theorem wheel_distance_iff {s : EngineCore} (hrole : s.role = .source) (haway : s.isOwner = false)
    (eventFromDelta : Int32 → Int32 → Option LocalInputEvent) {target : Platform}
    {events : List WheelEvent} (hsmall : ∀ event ∈ events, event.Unsaturated target)
    (axis : Axis) :
    |injectedNotches target axis
          (s.framesOf (events.filterMap (WheelEvent.capture eventFromDelta))) -
        capturedNotches axis events| < 1 ↔
      Survives target (unitsOn axis events) := by
  rw [injectedNotches_eq hrole haway eventFromDelta hsmall axis, capturedNotches]
  exact abs_notches_sub_lt

/-- Two halves of a notch are nothing on a Windows target. -/
theorem wheel_distance_iff_halfNotches :
    ¬ |injectedNotches .windows .vertical (crossedSource.framesOf
          ([halfNotch, halfNotch].filterMap (WheelEvent.capture fun _ _ => none))) -
        capturedNotches .vertical [halfNotch, halfNotch]| < 1 :=
  (wheel_distance_iff (by decide) (by decide) _ (by decide) .vertical).not.2 (by decide)

/-- One detent of a Linux wheel is a hundred and twenty on a Linux target. -/
theorem wheel_distance_lost :
    ¬ |injectedNotches .linux .vertical (crossedSource.framesOf
          ([.linux .vertical 1].filterMap (WheelEvent.capture fun _ _ => none))) -
        capturedNotches .vertical [.linux .vertical 1]| < 1 := by
  have hsmall : ∀ event ∈ [WheelEvent.linux .vertical 1], event.Unsaturated .linux := by decide
  have hrole : crossedSource.role = .source := by decide
  have haway : crossedSource.isOwner = false := by decide
  rw [injectedNotches_eq hrole haway _ hsmall, capturedNotches, abs_notches_sub_lt]
  decide

end Mouser
