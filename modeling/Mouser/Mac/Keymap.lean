import Mathlib.Data.Bool.AllAny
import Mathlib.Data.List.Basic
import Mouser.Capture.Chord

/-!
# The macOS key map

HID usages to virtual key codes and back, and the key codes that a `FlagsChanged` event can name.
-/

namespace Mouser

namespace Mac

/-- The arms of `hid_usage_to_cgkeycode`: a usage and its key code. -/
def cgkeycodes : List (UInt16 × UInt16) :=
  [
   -- letters
   (0x04, 0x00), (0x05, 0x0B), (0x06, 0x08), (0x07, 0x02), (0x08, 0x0E), (0x09, 0x03),
   (0x0A, 0x05), (0x0B, 0x04), (0x0C, 0x22), (0x0D, 0x26), (0x0E, 0x28), (0x0F, 0x25),
   (0x10, 0x2E), (0x11, 0x2D), (0x12, 0x1F), (0x13, 0x23), (0x14, 0x0C), (0x15, 0x0F),
   (0x16, 0x01), (0x17, 0x11), (0x18, 0x20), (0x19, 0x09), (0x1A, 0x0D), (0x1B, 0x07),
   (0x1C, 0x10), (0x1D, 0x06),
   -- number row
   (0x1E, 0x12), (0x1F, 0x13), (0x20, 0x14), (0x21, 0x15), (0x22, 0x17), (0x23, 0x16),
   (0x24, 0x1A), (0x25, 0x1C), (0x26, 0x19), (0x27, 0x1D),
   -- whitespace and control
   (0x28, 0x24), (0x29, 0x35), (0x2A, 0x33), (0x2B, 0x30), (0x2C, 0x31),
   -- punctuation
   (0x2D, 0x1B), (0x2E, 0x18), (0x2F, 0x21), (0x30, 0x1E), (0x31, 0x2A), (0x33, 0x29),
   (0x34, 0x27), (0x35, 0x32), (0x36, 0x2B), (0x37, 0x2F), (0x38, 0x2C), (0x39, 0x39),
   -- function row
   (0x3A, 0x7A), (0x3B, 0x78), (0x3C, 0x63), (0x3D, 0x76), (0x3E, 0x60), (0x3F, 0x61),
   (0x40, 0x62), (0x41, 0x64), (0x42, 0x65), (0x43, 0x6D), (0x44, 0x67), (0x45, 0x6F),
   -- navigation cluster
   (0x49, 0x72), (0x4A, 0x73), (0x4B, 0x74), (0x4C, 0x75), (0x4D, 0x77), (0x4E, 0x79),
   -- arrows
   (0x4F, 0x7C), (0x50, 0x7B), (0x51, 0x7D), (0x52, 0x7E),
   -- keypad
   (0x53, 0x47), (0x54, 0x4B), (0x55, 0x43), (0x56, 0x4E), (0x57, 0x45), (0x58, 0x4C),
   (0x59, 0x53), (0x5A, 0x54), (0x5B, 0x55), (0x5C, 0x56), (0x5D, 0x57), (0x5E, 0x58),
   (0x5F, 0x59), (0x60, 0x5B), (0x61, 0x5C), (0x62, 0x52), (0x63, 0x41), (0x67, 0x51),
   (0x85, 0x5F),
   -- modifiers
   (0xE0, 0x3B), (0xE1, 0x38), (0xE2, 0x3A), (0xE3, 0x37), (0xE4, 0x3E), (0xE5, 0x3C),
   (0xE6, 0x3D), (0xE7, 0x36)]

def hidUsageToCgkeycode (usage : UInt16) : Option UInt16 := cgkeycodes.lookup usage

/-- The first usage from `0x04` to `0xE7` that has the key code. -/
def cgkeycodeToHidUsage (keycode : UInt16) : Option UInt16 :=
  ((List.range' 0x04 0xE4).map UInt16.ofNat).find? fun usage =>
    hidUsageToCgkeycode usage = some keycode

/-- The flags of the momentary modifiers: left and right fold to the same one. -/
inductive CGEventFlag where
  | control
  | shift
  | alternate
  | command
deriving DecidableEq

def cgkeycodeToModifierFlag (keycode : UInt16) : Option CGEventFlag :=
  if keycode = 0x3B ∨ keycode = 0x3E then some .control
  else if keycode = 0x38 ∨ keycode = 0x3C then some .shift
  else if keycode = 0x3A ∨ keycode = 0x3D then some .alternate
  else if keycode = 0x37 ∨ keycode = 0x36 then some .command
  else none

end Mac

/-- The macOS key code of a modifier. -/
def ModifierKey.keycode : ModifierKey → UInt16
  | .leftCtrl => 0x3B
  | .leftShift => 0x38
  | .leftAlt => 0x3A
  | .leftMeta => 0x37
  | .rightCtrl => 0x3E
  | .rightShift => 0x3C
  | .rightAlt => 0x3D
  | .rightMeta => 0x36

namespace Mac

theorem keycode_injective : Function.Injective ModifierKey.keycode := by
  intro m m' h
  cases m <;> cases m' <;> first | rfl | exact absurd h (by decide)

/-- The modifiers are the keys whose code has a flag. -/
theorem cgkeycodeToModifierFlag_ne_none {keycode : UInt16} :
    cgkeycodeToModifierFlag keycode ≠ none ↔ ∃ m : ModifierKey, m.keycode = keycode := by
  refine ⟨?_, ?_⟩
  · intro h
    unfold cgkeycodeToModifierFlag at h
    split at h
    · next hk => exact hk.elim (fun h => ⟨.leftCtrl, h.symm⟩) fun h => ⟨.rightCtrl, h.symm⟩
    split at h
    · next hk => exact hk.elim (fun h => ⟨.leftShift, h.symm⟩) fun h => ⟨.rightShift, h.symm⟩
    split at h
    · next hk => exact hk.elim (fun h => ⟨.leftAlt, h.symm⟩) fun h => ⟨.rightAlt, h.symm⟩
    split at h
    · next hk => exact hk.elim (fun h => ⟨.leftMeta, h.symm⟩) fun h => ⟨.rightMeta, h.symm⟩
    · exact absurd rfl h
  · rintro ⟨m, rfl⟩
    cases m <;> decide

theorem mem_cgkeycodes {usage keycode : UInt16} (h : hidUsageToCgkeycode usage = some keycode) :
    (usage, keycode) ∈ cgkeycodes := by
  obtain ⟨l₁, l₂, hl, -⟩ := List.lookup_eq_some_iff.1 h
  rw [hl]
  exact List.mem_append_right _ (.head _)

/-- The code of a modifier stands in the table once. -/
theorem eq_usage_of_mem_cgkeycodes {m : ModifierKey} {usage : UInt16}
    (h : (usage, m.keycode) ∈ cgkeycodes) : usage = m.usage := by
  have honce : ∀ p ∈ cgkeycodes, p.2 = m.keycode → p.1 = m.usage :=
    List.all_iff_forall_prop.1 (by cases m <;> decide)
  exact honce _ h rfl

theorem cgkeycodeToHidUsage_keycode (m : ModifierKey) :
    cgkeycodeToHidUsage m.keycode = some m.usage := by
  have husage : hidUsageToCgkeycode m.usage = some m.keycode := by
    cases m <;> decide
  have hmem : m.usage ∈ (List.range' 0x04 0xE4).map UInt16.ofNat :=
    List.mem_map.2 ⟨m.usage.toNat, by cases m <;> decide, UInt16.ofNat_toNat⟩
  cases hfind : cgkeycodeToHidUsage m.keycode with
  | none => exact absurd (decide_eq_true husage) (List.find?_eq_none.1 hfind _ hmem)
  | some usage =>
    unfold cgkeycodeToHidUsage at hfind
    have hcode : hidUsageToCgkeycode usage = some m.keycode := by
      simpa using List.find?_some hfind
    rw [eq_usage_of_mem_cgkeycodes (mem_cgkeycodes hcode)]

end Mac

end Mouser
