import Mathlib.Data.Bool.AllAny
import Mathlib.Data.List.Nodup
import Mouser.Capture.Chord

/-!
# The Linux key map

HID usages to evdev codes and back, and the key events of capture.
-/

namespace Mouser

namespace Linux

/-- The canonical table: a usage and its evdev code. -/
def hidToEvdev : List (UInt16 × UInt16) :=
  [
   -- letters
   (0x04, 30), (0x05, 48), (0x06, 46), (0x07, 32), (0x08, 18), (0x09, 33), (0x0A, 34), (0x0B, 35),
   (0x0C, 23), (0x0D, 36), (0x0E, 37), (0x0F, 38), (0x10, 50), (0x11, 49), (0x12, 24), (0x13, 25),
   (0x14, 16), (0x15, 19), (0x16, 31), (0x17, 20), (0x18, 22), (0x19, 47), (0x1A, 17), (0x1B, 45),
   (0x1C, 21), (0x1D, 44),
   -- number row
   (0x1E, 2), (0x1F, 3), (0x20, 4), (0x21, 5), (0x22, 6), (0x23, 7), (0x24, 8), (0x25, 9),
   (0x26, 10), (0x27, 11),
   -- whitespace and control
   (0x28, 28), (0x29, 1), (0x2A, 14), (0x2B, 15), (0x2C, 57),
   -- punctuation
   (0x2D, 12), (0x2E, 13), (0x2F, 26), (0x30, 27), (0x31, 43), (0x33, 39), (0x34, 40), (0x35, 41),
   (0x36, 51), (0x37, 52), (0x38, 53), (0x39, 58),
   -- function row
   (0x3A, 59), (0x3B, 60), (0x3C, 61), (0x3D, 62), (0x3E, 63), (0x3F, 64), (0x40, 65), (0x41, 66),
   (0x42, 67), (0x43, 68), (0x44, 87), (0x45, 88),
   -- navigation cluster
   (0x49, 110), (0x4A, 102), (0x4B, 104), (0x4C, 111), (0x4D, 107), (0x4E, 109),
   -- arrows
   (0x4F, 106), (0x50, 105), (0x51, 108), (0x52, 103),
   -- keypad
   (0x53, 69), (0x54, 98), (0x55, 55), (0x56, 74), (0x57, 78), (0x58, 96), (0x59, 79), (0x5A, 80),
   (0x5B, 81), (0x5C, 75), (0x5D, 76), (0x5E, 77), (0x5F, 71), (0x60, 72), (0x61, 73), (0x62, 82),
   (0x63, 83), (0x67, 117), (0x85, 121),
   -- modifiers
   (0xE0, 29), (0xE1, 42), (0xE2, 56), (0xE3, 125), (0xE4, 97), (0xE5, 54), (0xE6, 100),
   (0xE7, 126)]

def hidUsageToEvdevCode (usage : UInt16) : Option UInt16 :=
  hidToEvdev.findSome? fun (hid, code) => if hid = usage then some code else none

def evdevCodeToHidUsage (code : UInt16) : Option UInt16 :=
  hidToEvdev.findSome? fun (hid, c) => if c = code then some hid else none

/-- The codes of the modifiers of a mask, in bit order. -/
def modsToEvdev (mods : UInt16) : List UInt16 :=
  (modifierUsages mods).filterMap hidUsageToEvdevCode

/-- The wire index of a pointer button. -/
def evdevBtnToButton (code : UInt16) : Option UInt8 :=
  if code = 0x110 then some 0
  else if code = 0x111 then some 1
  else if code = 0x112 then some 2
  else if code = 0x113 then some 3
  else if code = 0x114 then some 4
  else none

/-- What `to_local_event` makes of a key event: autorepeat and unmapped keys are not forwarded. -/
def keyToLocalEvent (code : UInt16) (value : Int32) : Option LocalInputEvent :=
  let down := if value = 1 then some true else if value = 0 then some false else none
  down.bind fun down =>
    match evdevBtnToButton code with
    | some button => some (.button button down)
    | none => (evdevCodeToHidUsage code).map fun usage => .key usage down 0

/-! ## The table -/

theorem nodup_hidToEvdev : (hidToEvdev.map Prod.snd).Nodup := by
  decide +kernel

theorem evdevBtnToButton_eq_none : ∀ p ∈ hidToEvdev, evdevBtnToButton p.2 = none :=
  List.all_iff_forall_prop.1 (by decide +kernel)

theorem mem_hidToEvdev {usage code : UInt16} (h : hidUsageToEvdevCode usage = some code) :
    (usage, code) ∈ hidToEvdev := by
  obtain ⟨⟨hid, c⟩, hp, hcode⟩ := List.exists_of_findSome?_eq_some h
  obtain ⟨rfl, hc⟩ := Option.ite_none_right_eq_some.1 hcode
  rwa [← Option.some.inj hc]

/-- A code names its usage. -/
theorem evdevCodeToHidUsage_of {usage code : UInt16} (h : hidUsageToEvdevCode usage = some code) :
    evdevCodeToHidUsage code = some usage := by
  have hmem := mem_hidToEvdev h
  cases hfind : evdevCodeToHidUsage code with
  | none =>
    have hnone := List.findSome?_eq_none_iff.1 hfind _ hmem
    simp at hnone
  | some other =>
    obtain ⟨⟨hid, c⟩, hp, hother⟩ := List.exists_of_findSome?_eq_some hfind
    obtain ⟨rfl, hid⟩ := Option.ite_none_right_eq_some.1 hother
    have hsame := List.inj_on_of_nodup_map nodup_hidToEvdev hp hmem rfl
    rw [← hid]
    exact congrArg (fun p => some p.1) hsame

theorem hidUsageToEvdevCode_inj {usage usage' code : UInt16}
    (h : hidUsageToEvdevCode usage = some code) (h' : hidUsageToEvdevCode usage' = some code) :
    usage = usage' :=
  Option.some.inj ((evdevCodeToHidUsage_of h).symm.trans (evdevCodeToHidUsage_of h'))

/-- A mapped key is captured with its usage. -/
theorem keyToLocalEvent_of {usage code : UInt16} (h : hidUsageToEvdevCode usage = some code)
    (down : Bool) :
    keyToLocalEvent code (if down then 1 else 0) = some (.key usage down 0) := by
  rw [keyToLocalEvent, evdevBtnToButton_eq_none _ (mem_hidToEvdev h), evdevCodeToHidUsage_of h]
  cases down <;> rfl

end Linux

end Mouser
