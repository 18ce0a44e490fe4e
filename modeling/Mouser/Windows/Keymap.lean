import Mathlib.Data.List.Nodup
import Mouser.Capture.Chord

/-!
# The Windows key map

HID usages to PS/2 Set 1 scan codes and back. The extended flag keeps the keys of the grey block
apart from the keypad keys with the same code.
-/

namespace Mouser

namespace Windows

/-- A physical key: its make code, and whether it lives on the extended block. -/
structure ScanCode where
  code : UInt16
  extended : Bool
deriving DecidableEq

namespace ScanCode

def plain (code : UInt16) : ScanCode := ⟨code, false⟩

def ext (code : UInt16) : ScanCode := ⟨code, true⟩

end ScanCode

/-- The arms of `hid_usage_to_scancode`: a usage and its scan code. -/
def scancodes : List (UInt16 × ScanCode) :=
  [
   -- letters
   (0x04, .plain 0x1E), (0x05, .plain 0x30), (0x06, .plain 0x2E), (0x07, .plain 0x20),
   (0x08, .plain 0x12), (0x09, .plain 0x21), (0x0A, .plain 0x22), (0x0B, .plain 0x23),
   (0x0C, .plain 0x17), (0x0D, .plain 0x24), (0x0E, .plain 0x25), (0x0F, .plain 0x26),
   (0x10, .plain 0x32), (0x11, .plain 0x31), (0x12, .plain 0x18), (0x13, .plain 0x19),
   (0x14, .plain 0x10), (0x15, .plain 0x13), (0x16, .plain 0x1F), (0x17, .plain 0x14),
   (0x18, .plain 0x16), (0x19, .plain 0x2F), (0x1A, .plain 0x11), (0x1B, .plain 0x2D),
   (0x1C, .plain 0x15), (0x1D, .plain 0x2C),
   -- number row
   (0x1E, .plain 0x02), (0x1F, .plain 0x03), (0x20, .plain 0x04), (0x21, .plain 0x05),
   (0x22, .plain 0x06), (0x23, .plain 0x07), (0x24, .plain 0x08), (0x25, .plain 0x09),
   (0x26, .plain 0x0A), (0x27, .plain 0x0B),
   -- whitespace and control
   (0x28, .plain 0x1C), (0x29, .plain 0x01), (0x2A, .plain 0x0E), (0x2B, .plain 0x0F),
   (0x2C, .plain 0x39),
   -- punctuation
   (0x2D, .plain 0x0C), (0x2E, .plain 0x0D), (0x2F, .plain 0x1A), (0x30, .plain 0x1B),
   (0x31, .plain 0x2B), (0x33, .plain 0x27), (0x34, .plain 0x28), (0x35, .plain 0x29),
   (0x36, .plain 0x33), (0x37, .plain 0x34), (0x38, .plain 0x35), (0x39, .plain 0x3A),
   -- function row
   (0x3A, .plain 0x3B), (0x3B, .plain 0x3C), (0x3C, .plain 0x3D), (0x3D, .plain 0x3E),
   (0x3E, .plain 0x3F), (0x3F, .plain 0x40), (0x40, .plain 0x41), (0x41, .plain 0x42),
   (0x42, .plain 0x43), (0x43, .plain 0x44), (0x44, .plain 0x57), (0x45, .plain 0x58),
   -- navigation cluster
   (0x49, .ext 0x52), (0x4A, .ext 0x47), (0x4B, .ext 0x49), (0x4C, .ext 0x53), (0x4D, .ext 0x4F),
   (0x4E, .ext 0x51),
   -- arrows
   (0x4F, .ext 0x4D), (0x50, .ext 0x4B), (0x51, .ext 0x50), (0x52, .ext 0x48),
   -- keypad
   (0x53, .plain 0x45), (0x54, .ext 0x35), (0x55, .plain 0x37), (0x56, .plain 0x4A),
   (0x57, .plain 0x4E), (0x58, .ext 0x1C), (0x59, .plain 0x4F), (0x5A, .plain 0x50),
   (0x5B, .plain 0x51), (0x5C, .plain 0x4B), (0x5D, .plain 0x4C), (0x5E, .plain 0x4D),
   (0x5F, .plain 0x47), (0x60, .plain 0x48), (0x61, .plain 0x49), (0x62, .plain 0x52),
   (0x63, .plain 0x53), (0x67, .plain 0x59), (0x85, .plain 0x7E),
   -- modifiers
   (0xE0, .plain 0x1D), (0xE1, .plain 0x2A), (0xE2, .plain 0x38), (0xE3, .ext 0x5B),
   (0xE4, .ext 0x1D), (0xE5, .plain 0x36), (0xE6, .ext 0x38), (0xE7, .ext 0x5C)]

def hidUsageToScancode (usage : UInt16) : Option ScanCode := scancodes.lookup usage

def scancodeUsageIn (usages : List UInt16) (target : ScanCode) : Option UInt16 :=
  (usages.filter (· ≠ 0x32)).find? fun usage => hidUsageToScancode usage = some target

/-- The usages from `first` to `last`. -/
def usageRange (first last : Nat) : List UInt16 :=
  (List.range' first (last + 1 - first)).map UInt16.ofNat

def scancodeToHidUsage (code : UInt16) (extended : Bool) : Option UInt16 :=
  let target : ScanCode := ⟨code, extended⟩
  (scancodeUsageIn (usageRange 0x04 0x39) target).or <|
    (scancodeUsageIn (usageRange 0x3A 0x45) target).or <|
    (scancodeUsageIn (usageRange 0x49 0x52) target).or <|
    (scancodeUsageIn (usageRange 0x53 0x63) target).or <|
    (scancodeUsageIn [0x67, 0x85] target).or <|
    scancodeUsageIn (usageRange 0xE0 0xE7) target

/-! ## The table -/

theorem nodup_scancodes : (scancodes.map Prod.snd).Nodup := by
  decide +kernel

theorem mem_scancodes {usage : UInt16} {sc : ScanCode} (h : hidUsageToScancode usage = some sc) :
    (usage, sc) ∈ scancodes := by
  obtain ⟨l₁, l₂, hl, -⟩ := List.lookup_eq_some_iff.1 h
  rw [hl]
  exact List.mem_append_right _ (.head _)

theorem hidUsageToScancode_inj {usage usage' : UInt16} {sc : ScanCode}
    (h : hidUsageToScancode usage = some sc) (h' : hidUsageToScancode usage' = some sc) :
    usage = usage' :=
  congrArg Prod.fst
    (List.inj_on_of_nodup_map nodup_scancodes (mem_scancodes h) (mem_scancodes h') rfl)

/-- The ranges of `scancode_to_hid_usage`, one after the other. -/
theorem scancodeToHidUsage_eq (sc : ScanCode) :
    scancodeToHidUsage sc.code sc.extended =
      scancodeUsageIn (usageRange 0x04 0x39 ++ usageRange 0x3A 0x45 ++ usageRange 0x49 0x52 ++
        usageRange 0x53 0x63 ++ [0x67, 0x85] ++ usageRange 0xE0 0xE7) sc := by
  have happend (usages usages' : List UInt16) : scancodeUsageIn (usages ++ usages') sc =
      (scancodeUsageIn usages sc).or (scancodeUsageIn usages' sc) := by
    simp only [scancodeUsageIn, List.filter_append, List.find?_append]
  simp only [happend, Option.or_assoc]
  rfl

/-- The ranges hold every usage of the table. -/
theorem mem_usageRanges : ∀ p ∈ scancodes, p.1 ∈ (usageRange 0x04 0x39 ++ usageRange 0x3A 0x45 ++
    usageRange 0x49 0x52 ++ usageRange 0x53 0x63 ++ [0x67, 0x85] ++ usageRange 0xE0 0xE7).filter
      (· ≠ 0x32) := by
  decide +kernel

/-- A scan code names its usage. -/
theorem scancodeToHidUsage_of {usage : UInt16} {sc : ScanCode}
    (h : hidUsageToScancode usage = some sc) :
    scancodeToHidUsage sc.code sc.extended = some usage := by
  rw [scancodeToHidUsage_eq]
  cases hfind : scancodeUsageIn _ sc with
  | none =>
    have hnone := List.find?_eq_none.1 hfind _ (mem_usageRanges _ (mem_scancodes h))
    exact absurd (decide_eq_true h) hnone
  | some other =>
    unfold scancodeUsageIn at hfind
    have hother : hidUsageToScancode other = some sc := by
      simpa using List.find?_some hfind
    rw [hidUsageToScancode_inj h hother]

end Windows

end Mouser
