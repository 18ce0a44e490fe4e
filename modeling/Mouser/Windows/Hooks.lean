import Mouser.Windows.Keymap

/-!
# What the Windows hooks see

A low-level hook gets a message with its scan code and flags, and makes a local event of it.
-/

namespace Mouser

namespace Windows

/-! ## Messages and flags -/

def wmKeydown : UInt32 := 0x100
def wmKeyup : UInt32 := 0x101
def wmSyskeydown : UInt32 := 0x104
def wmSyskeyup : UInt32 := 0x105

def llkhfExtended : UInt32 := 0x01
def llkhfInjected : UInt32 := 0x10
def llkhfAltdown : UInt32 := 0x20
def llkhfUp : UInt32 := 0x80

def wmMousemove : UInt32 := 0x200
def wmLbuttondown : UInt32 := 0x201
def wmLbuttonup : UInt32 := 0x202
def wmRbuttondown : UInt32 := 0x204
def wmRbuttonup : UInt32 := 0x205
def wmMbuttondown : UInt32 := 0x207
def wmMbuttonup : UInt32 := 0x208
def wmMousewheel : UInt32 := 0x20A
def wmXbuttondown : UInt32 := 0x20B
def wmXbuttonup : UInt32 := 0x20C
def wmMousehwheel : UInt32 := 0x20E

def llmhfInjected : UInt32 := 0x01

/-! ## Keyboard events -/

/-- The modifiers that capture has seen held, after a key event. -/
def updateModifierState (mods usage : UInt16) (down : Bool) : UInt16 :=
  updateModifier mods usage down

/-- The event of a keyboard message, and the modifiers seen held after it. -/
def keyboardEventFromParts (mods : UInt16) (message scanCode flags : UInt32) :
    UInt16 × Option LocalInputEvent :=
  let down :=
    if message = wmKeydown ∨ message = wmSyskeydown then some true
    else if message = wmKeyup ∨ message = wmSyskeyup then some false
    else none
  match down with
  | none => (mods, none)
  | some down =>
    if flags &&& llkhfInjected ≠ 0 then (mods, none)
    else if scanCode.toNat < UInt16.size then
      match scancodeToHidUsage scanCode.toUInt16 (flags &&& llkhfExtended ≠ 0) with
      | none => (mods, none)
      | some usage =>
        let mods := updateModifierState mods usage down
        (mods, some (.key usage down mods))
    else (mods, none)

/-! ## Mouse events -/

def highWordU16 (value : UInt32) : UInt16 := ((value >>> 16) &&& 0xFFFF).toUInt16

def highWordI16 (value : UInt32) : Int16 := (highWordU16 value).toInt16

def xButton (mouseData : UInt32) : Option UInt8 :=
  if highWordU16 mouseData = 1 then some 3
  else if highWordU16 mouseData = 2 then some 4
  else none

/-- The event of a mouse message other than a move. -/
def mouseEventFromParts (message mouseData flags : UInt32) : Option LocalInputEvent :=
  if flags &&& llmhfInjected ≠ 0 then none
  else if message = wmLbuttondown then some (.button 0 true)
  else if message = wmLbuttonup then some (.button 0 false)
  else if message = wmRbuttondown then some (.button 1 true)
  else if message = wmRbuttonup then some (.button 1 false)
  else if message = wmMbuttondown then some (.button 2 true)
  else if message = wmMbuttonup then some (.button 2 false)
  else if message = wmXbuttondown ∨ message = wmXbuttonup then
    (xButton mouseData).map (.button · (message = wmXbuttondown))
  else if message = wmMousewheel then some (.scroll 0 (highWordI16 mouseData).toInt32)
  else if message = wmMousehwheel then some (.scroll (highWordI16 mouseData).toInt32 0)
  else none

/-! ## The keyboard -/

/-- The message of a key; with Alt held it is a system one. -/
def keyMessage (down sys : Bool) : UInt32 :=
  match down, sys with
  | true, false => wmKeydown
  | true, true => wmSyskeydown
  | false, false => wmKeyup
  | false, true => wmSyskeyup

/-- The flags of a key that no program injected. -/
def keyFlags (extended down sys : Bool) : UInt32 :=
  (if extended then llkhfExtended else 0) ||| (if sys then llkhfAltdown else 0) |||
    if down then 0 else llkhfUp

/-- A mapped key is captured with its usage and the modifiers seen held. -/
theorem keyboardEventFromParts_of {usage : UInt16} {sc : ScanCode}
    (h : hidUsageToScancode usage = some sc) (mods : UInt16) (down sys : Bool) :
    keyboardEventFromParts mods (keyMessage down sys) sc.code.toUInt32
        (keyFlags sc.extended down sys) =
      (updateModifier mods usage down,
        some (.key usage down (updateModifier mods usage down))) := by
  have hinjected : keyFlags sc.extended down sys &&& llkhfInjected = 0 := by
    cases sc.extended <;> cases down <;> cases sys <;> rfl
  have hextended : decide (keyFlags sc.extended down sys &&& llkhfExtended ≠ 0) = sc.extended := by
    cases sc.extended <;> cases down <;> cases sys <;> rfl
  have hcode : sc.code.toNat < UInt16.size := sc.code.toNat_lt
  have hmessage : (if keyMessage down sys = wmKeydown ∨ keyMessage down sys = wmSyskeydown then
      some true else if keyMessage down sys = wmKeyup ∨ keyMessage down sys = wmSyskeyup then
      some false else none) = some down := by
    cases down <;> cases sys <;> rfl
  rw [keyboardEventFromParts, hmessage]
  simp [hinjected, hextended, hcode, scancodeToHidUsage_of h, updateModifierState]

end Windows

end Mouser
