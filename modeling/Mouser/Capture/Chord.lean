import Mathlib.Data.List.Basic
import Mathlib.Data.Nat.Bitwise
import Mathlib.Tactic.IntervalCases
import Mouser.Core.Platform

/-!
# Modifier bits and the emergency-reclaim chord

The capture adapters track the modifiers by bits of a mask, one for each usage from left Ctrl to
right Meta. Both Ctrl keys held at once are the chord that gives local input back.

`modifierMask` is what a mask is for: it stands for the set of modifiers that are held, and
`updateModifier` follows that set key by key.
-/

namespace Mouser

/-- The bit of a modifier usage. -/
def modifierBit (usage : UInt16) : Option UInt16 :=
  if 0xE0 ≤ usage ∧ usage ≤ 0xE7 then some (1 <<< (usage - 0xE0)) else none

/-- The mask after a key event: a modifier sets its bit or clears it. -/
def updateModifier (mods usage : UInt16) (down : Bool) : UInt16 :=
  match modifierBit usage with
  | none => mods
  | some bit => if down then mods ||| bit else mods &&& ~~~bit

/-! ## The modifiers held, and their mask -/

/-- The eight momentary modifier keys. -/
inductive ModifierKey where
  | leftCtrl
  | leftShift
  | leftAlt
  | leftMeta
  | rightCtrl
  | rightShift
  | rightAlt
  | rightMeta
deriving DecidableEq

namespace ModifierKey

/-- In the order of their bits. -/
def all : List ModifierKey :=
  [leftCtrl, leftShift, leftAlt, leftMeta, rightCtrl, rightShift, rightAlt, rightMeta]

def usage : ModifierKey → UInt16
  | leftCtrl => 0xE0
  | leftShift => 0xE1
  | leftAlt => 0xE2
  | leftMeta => 0xE3
  | rightCtrl => 0xE4
  | rightShift => 0xE5
  | rightAlt => 0xE6
  | rightMeta => 0xE7

def bit (m : ModifierKey) : UInt16 := 1 <<< (m.usage - 0xE0)

/-- The position of the bit. -/
def index (m : ModifierKey) : Nat := (m.usage - 0xE0).toNat

theorem mem_all (m : ModifierKey) : m ∈ all := by
  cases m <;> decide

theorem usage_injective : Function.Injective usage := by
  intro m m' h
  cases m <;> cases m' <;> first | rfl | exact absurd h (by decide)

theorem index_injective : Function.Injective index := by
  intro m m' h
  cases m <;> cases m' <;> first | rfl | exact absurd h (by decide)

theorem toNat_bit (m : ModifierKey) : m.bit.toNat = 2 ^ m.index := by
  cases m <;> rfl

theorem modifierBit_usage (m : ModifierKey) : modifierBit m.usage = some m.bit := by
  cases m <;> decide

/-- A usage with a modifier bit is the usage of a modifier. -/
theorem exists_usage_eq {usage bit : UInt16} (h : modifierBit usage = some bit) :
    ∃ m : ModifierKey, m.usage = usage := by
  unfold modifierBit at h
  split at h
  · next hrange =>
    have hlow : 0xE0 ≤ usage.toNat := UInt16.le_iff_toNat_le.1 hrange.1
    have hhigh : usage.toNat ≤ 0xE7 := UInt16.le_iff_toNat_le.1 hrange.2
    have husage : usage = UInt16.ofNat usage.toNat := UInt16.ofNat_toNat.symm
    generalize usage.toNat = n at hlow hhigh husage
    subst husage
    interval_cases n
    exacts [⟨leftCtrl, rfl⟩, ⟨leftShift, rfl⟩, ⟨leftAlt, rfl⟩, ⟨leftMeta, rfl⟩, ⟨rightCtrl, rfl⟩,
      ⟨rightShift, rfl⟩, ⟨rightAlt, rfl⟩, ⟨rightMeta, rfl⟩]
  · cases h

end ModifierKey

/-- The mask of the modifiers held: the union of their bits. -/
def modifierMask (held : ModifierKey → Bool) : UInt16 :=
  ModifierKey.all.foldl (fun mask m => if held m then mask ||| m.bit else mask) 0

theorem testBit_or_bit (mods : UInt16) (m : ModifierKey) (i : Nat) :
    (mods ||| m.bit).toNat.testBit i = (mods.toNat.testBit i || decide (m.index = i)) := by
  rw [UInt16.toNat_or, Nat.testBit_or, m.toNat_bit, Nat.testBit_two_pow]

theorem testBit_and_not_bit (mods : UInt16) (m : ModifierKey) (i : Nat) :
    (mods &&& ~~~m.bit).toNat.testBit i = (mods.toNat.testBit i && !decide (m.index = i)) := by
  have hnot : (~~~m.bit).toNat = 2 ^ 16 - (m.bit.toNat + 1) := by
    rw [UInt16.toNat_not, UInt16.size]
    omega
  rw [UInt16.toNat_and, Nat.testBit_and, hnot, Nat.testBit_two_pow_sub_succ m.bit.toNat_lt,
    m.toNat_bit, Nat.testBit_two_pow]
  by_cases hi : i < 16
  · simp [hi]
  · have hmods : mods.toNat < 2 ^ i :=
      mods.toNat_lt.trans_le (Nat.pow_le_pow_right two_pos (not_lt.1 hi))
    simp [Nat.testBit_lt_two_pow hmods]

/-- What the injectors test of a mask. -/
theorem and_bit_ne_zero (mods : UInt16) (m : ModifierKey) :
    mods &&& m.bit ≠ 0 ↔ mods.toNat.testBit m.index = true := by
  rw [Ne, ← UInt16.toNat_inj, UInt16.toNat_and, m.toNat_bit, Nat.and_two_pow]
  cases mods.toNat.testBit m.index <;> simp

/-- The mask has the bits of the modifiers held, and no others. -/
theorem testBit_modifierMask {held : ModifierKey → Bool} {i : Nat} :
    (modifierMask held).toNat.testBit i = true ↔ ∃ m, held m = true ∧ m.index = i := by
  have hfold (mask : UInt16) (ms : List ModifierKey) :
      (ms.foldl (fun mask m => if held m then mask ||| m.bit else mask) mask).toNat.testBit i =
        true ↔ mask.toNat.testBit i = true ∨ ∃ m ∈ ms, held m = true ∧ m.index = i := by
    induction ms generalizing mask with
    | nil => simp
    | cons m ms ih =>
      rw [List.foldl_cons, ih]
      simp only [List.mem_cons, exists_eq_or_imp, ← or_assoc]
      refine or_congr_left ?_
      cases held m with
      | false => simp
      | true =>
        rw [if_pos rfl, testBit_or_bit]
        simp
  rw [modifierMask, hfold]
  simp [ModifierKey.mem_all]

@[simp] theorem testBit_modifierMask_index (held : ModifierKey → Bool) (m : ModifierKey) :
    (modifierMask held).toNat.testBit m.index = held m := by
  rw [Bool.eq_iff_iff, testBit_modifierMask]
  refine ⟨?_, fun h => ⟨m, h, rfl⟩⟩
  rintro ⟨m', hheld, hindex⟩
  rwa [← ModifierKey.index_injective hindex]

theorem modifierMask_injective : Function.Injective modifierMask := by
  intro held held' h
  funext m
  rw [← testBit_modifierMask_index held m, h, testBit_modifierMask_index held' m]

/-- A key event of a modifier puts it in the set or takes it out. -/
theorem updateModifier_modifierMask (held : ModifierKey → Bool) (m : ModifierKey) (down : Bool) :
    updateModifier (modifierMask held) m.usage down =
      modifierMask (Function.update held m down) := by
  rw [updateModifier, m.modifierBit_usage]
  refine UInt16.toNat_inj.1 (Nat.eq_of_testBit_eq fun i => ?_)
  rw [Bool.eq_iff_iff, testBit_modifierMask]
  simp only [Function.update_apply]
  cases down with
  | true =>
    rw [if_pos rfl, testBit_or_bit, Bool.or_eq_true, testBit_modifierMask, decide_eq_true_iff]
    refine ⟨?_, ?_⟩
    · rintro (⟨m', hheld, hindex⟩ | hindex)
      · exact ⟨m', by simp [hheld], hindex⟩
      · exact ⟨m, by simp, hindex⟩
    · rintro ⟨m', hheld, hindex⟩
      by_cases hm : m' = m
      · exact .inr (hm ▸ hindex)
      · exact .inl ⟨m', by simpa [hm] using hheld, hindex⟩
  | false =>
    rw [if_neg Bool.false_ne_true, testBit_and_not_bit, Bool.and_eq_true, testBit_modifierMask,
      Bool.not_eq_true', decide_eq_false_iff_not]
    refine ⟨?_, ?_⟩
    · rintro ⟨⟨m', hheld, rfl⟩, hindex⟩
      have hm : m' ≠ m := fun h => hindex (h ▸ rfl)
      exact ⟨m', by simpa [hm] using hheld, rfl⟩
    · rintro ⟨m', hheld, rfl⟩
      have hm : m' ≠ m := by
        rintro rfl
        simp at hheld
      rw [if_neg hm] at hheld
      exact ⟨⟨m', hheld, rfl⟩, fun h => hm (ModifierKey.index_injective h.symm)⟩

/-- A key event of another key leaves the mask alone. -/
theorem updateModifier_of_ne {usage : UInt16} (h : ∀ m : ModifierKey, m.usage ≠ usage)
    (mods : UInt16) (down : Bool) : updateModifier mods usage down = mods := by
  unfold updateModifier
  cases hbit : modifierBit usage with
  | none => rfl
  | some bit =>
    obtain ⟨m, hm⟩ := ModifierKey.exists_usage_eq hbit
    exact absurd hm (h m)

/-! ## The modifiers of a mask -/

/-- The bits of a mask and the usages they stand for. -/
def modBits : List (UInt16 × UInt16) :=
  [(0, 0xE0), (1, 0xE1), (2, 0xE2), (3, 0xE3), (4, 0xE4), (5, 0xE5), (6, 0xE6), (7, 0xE7)]

/-- The usages of the modifiers of a mask, in bit order. -/
def modifierUsages (mods : UInt16) : List UInt16 :=
  modBits.filterMap fun (bit, usage) => if mods &&& (1 <<< bit) ≠ 0 then some usage else none

theorem modifierUsages_eq (mods : UInt16) :
    modifierUsages mods =
      (ModifierKey.all.filter fun m => mods &&& m.bit ≠ 0).map ModifierKey.usage := by
  have hbits : modBits = ModifierKey.all.map fun m => (m.usage - 0xE0, m.usage) := by decide
  rw [modifierUsages, hbits, List.filterMap_map, ← List.filterMap_eq_map, List.filterMap_filter]
  refine List.filterMap_congr fun m _ => ?_
  have hbit : 1 <<< (m.usage - 0xE0) = m.bit := rfl
  simp only [Function.comp_apply, hbit]
  by_cases h : mods &&& m.bit = 0 <;> simp [h]

/-! ## The chord -/

def leftCtrlBit : UInt16 := (1 : UInt16) <<< (0 : UInt16)

def rightCtrlBit : UInt16 := (1 : UInt16) <<< (4 : UInt16)

def emergencyReclaimCtrlMask : UInt16 := leftCtrlBit ||| rightCtrlBit

/-- The local emergency-reclaim chord is both Ctrl keys held at once. -/
def emergencyReclaimChordFromMods (mods : UInt16) : Bool :=
  mods &&& emergencyReclaimCtrlMask = emergencyReclaimCtrlMask

/-- Whether a captured key event exposes the chord to the sink. -/
def isEmergencyReclaimEvent : LocalInputEvent → Bool
  | .key _ true mods => emergencyReclaimChordFromMods mods
  | _ => false

end Mouser
