import Mathlib.Data.UInt

/-!
# Saturating and checked arithmetic on fixed-width integers

The saturating operations of the fixed-width types: the exact result where the type holds it, the
nearest bound where it does not. The checked ones give no result there. `clampBetween` is the clamp
to an interval.
-/

/-- `a + b`, or `2^64 - 1` where the sum does not fit. -/
def UInt64.saturatingAdd (a b : UInt64) : UInt64 := .ofNatClamp (a.toNat + b.toNat)

/-- `a + b`, if the sum fits. -/
def UInt64.checkedAdd (a b : UInt64) : Option UInt64 :=
  if a.toNat + b.toNat < 2 ^ 64 then some (a + b) else none

/-- `a - b`, or `0` where `b` is the larger. -/
def UInt64.saturatingSub (a b : UInt64) : UInt64 := .ofNatClamp (a.toNat - b.toNat)

/-- `a + b`, or `2^32 - 1` where the sum does not fit. -/
def UInt32.saturatingAdd (a b : UInt32) : UInt32 := .ofNatClamp (a.toNat + b.toNat)

/-- `a + b`, or `2^16 - 1` where the sum does not fit. -/
def UInt16.saturatingAdd (a b : UInt16) : UInt16 := .ofNatClamp (a.toNat + b.toNat)

/-- `a - b`, or `0` where `b` is the larger. -/
def UInt16.saturatingSub (a b : UInt16) : UInt16 := .ofNatClamp (a.toNat - b.toNat)

/-- `a - b`, or `0` where `b` is the larger. -/
def UInt8.saturatingSub (a b : UInt8) : UInt8 := .ofNatClamp (a.toNat - b.toNat)

/-- `a + b`, or the nearest bound of the type. -/
def Int32.saturatingAdd (a b : Int32) : Int32 := .ofIntClamp (a.toInt + b.toInt)

/-- `a - b`, or the nearest bound of the type. -/
def Int32.saturatingSub (a b : Int32) : Int32 := .ofIntClamp (a.toInt - b.toInt)

/-- `a * b`, or the nearest bound of the type. -/
def Int32.saturatingMul (a b : Int32) : Int32 := .ofIntClamp (a.toInt * b.toInt)

/-- `n`, if the type holds it. -/
def Int32.ofIntChecked (n : Int) : Option Int32 :=
  if -2 ^ 31 ≤ n ∧ n < 2 ^ 31 then some (.ofInt n) else none

/-- `a + b`, if the sum fits. -/
def Int32.checkedAdd (a b : Int32) : Option Int32 := ofIntChecked (a.toInt + b.toInt)

/-- `-a`, if it fits. -/
def Int32.checkedNeg (a : Int32) : Option Int32 := ofIntChecked (-a.toInt)

/-- `v` clamped to `lo..=hi`, for `lo ≤ hi`. -/
def Int32.clampBetween (v lo hi : Int32) : Int32 :=
  if v < lo then lo else if hi < v then hi else v

/-- The largest `UInt64`. -/
def UInt64.maxValue : UInt64 := 0xFFFFFFFFFFFFFFFF

@[simp] theorem UInt64.toNat_maxValue : UInt64.maxValue.toNat = 2 ^ 64 - 1 := rfl

theorem UInt64.lt_maxValue_of_ne {a : UInt64} (h : a ≠ UInt64.maxValue) :
    a < UInt64.maxValue := by
  have hlt := a.toNat_lt
  rw [Ne, ← UInt64.toNat_inj, UInt64.toNat_maxValue] at h
  rw [UInt64.lt_iff_toNat_lt, UInt64.toNat_maxValue]
  omega

theorem UInt64.max_eq_left_of_le {a b : UInt64} (h : b ≤ a) : max a b = a := by
  have hdef : max a b = if a ≤ b then b else a := rfl
  rw [hdef]
  split
  · next hle => exact UInt64.le_antisymm h hle
  · rfl

theorem UInt64.le_max_left (a b : UInt64) : a ≤ max a b := by
  rw [UInt64.le_iff_toNat_le, UInt64.toNat_max]
  exact Nat.le_max_left _ _

theorem UInt64.le_max_right (a b : UInt64) : b ≤ max a b := by
  rw [UInt64.le_iff_toNat_le, UInt64.toNat_max]
  exact Nat.le_max_right _ _

theorem UInt64.toNat_ofNatClamp (n : Nat) : (UInt64.ofNatClamp n).toNat = min n (2 ^ 64 - 1) := by
  unfold UInt64.ofNatClamp
  split
  · next h =>
    have h' : n < 2 ^ 64 := h
    rw [UInt64.toNat_ofNatLT]
    omega
  · next h =>
    have h' : ¬ n < 2 ^ 64 := h
    rw [UInt64.toNat_ofNatLT]
    have : UInt64.size - 1 = 2 ^ 64 - 1 := rfl
    omega

theorem UInt64.toNat_saturatingAdd (a b : UInt64) :
    (a.saturatingAdd b).toNat = min (a.toNat + b.toNat) (2 ^ 64 - 1) :=
  UInt64.toNat_ofNatClamp _

theorem UInt32.toNat_ofNatClamp (n : Nat) : (UInt32.ofNatClamp n).toNat = min n (2 ^ 32 - 1) := by
  unfold UInt32.ofNatClamp
  split
  · next h =>
    have h' : n < 2 ^ 32 := h
    rw [UInt32.toNat_ofNatLT]
    omega
  · next h =>
    have h' : ¬ n < 2 ^ 32 := h
    rw [UInt32.toNat_ofNatLT]
    have : UInt32.size - 1 = 2 ^ 32 - 1 := rfl
    omega

theorem UInt32.toNat_saturatingAdd (a b : UInt32) :
    (a.saturatingAdd b).toNat = min (a.toNat + b.toNat) (2 ^ 32 - 1) :=
  UInt32.toNat_ofNatClamp _

/-- The checked sum is the sum. -/
theorem UInt64.checkedAdd_eq_some {a b c : UInt64} :
    a.checkedAdd b = some c ↔ c.toNat = a.toNat + b.toNat := by
  have hc := c.toNat_lt
  unfold checkedAdd
  split
  · next h =>
    rw [Option.some.injEq, ← UInt64.toNat_inj, UInt64.toNat_add, Nat.mod_eq_of_lt h, eq_comm]
  · next h =>
    refine ⟨nofun, ?_⟩
    omega

theorem UInt64.checkedAdd_eq_none {a b : UInt64} :
    a.checkedAdd b = none ↔ 2 ^ 64 ≤ a.toNat + b.toNat := by
  unfold checkedAdd
  split
  · next h => exact ⟨nofun, fun h' => absurd h (Nat.not_lt.2 h')⟩
  · next h => exact ⟨fun _ => Nat.not_lt.1 h, fun _ => rfl⟩

/-- Adding one saturates only at the top of the type. -/
theorem UInt64.toNat_saturatingAdd_one {a : UInt64} (h : a < UInt64.maxValue) :
    (a.saturatingAdd 1).toNat = a.toNat + 1 := by
  have h' := UInt64.lt_iff_toNat_lt.1 h
  have h1 : (1 : UInt64).toNat = 1 := rfl
  rw [UInt64.toNat_maxValue] at h'
  rw [UInt64.toNat_saturatingAdd, h1]
  omega

/-- A saturating sum is never below its first summand. -/
theorem UInt64.le_saturatingAdd (a b : UInt64) : a ≤ a.saturatingAdd b := by
  have h := a.toNat_lt
  rw [UInt64.le_iff_toNat_le, UInt64.toNat_saturatingAdd]
  omega

/-- Adding one below the top of the type makes a value larger. -/
theorem UInt64.lt_saturatingAdd_one {a : UInt64} (h : a < UInt64.maxValue) :
    a < a.saturatingAdd 1 := by
  rw [UInt64.lt_iff_toNat_lt, UInt64.toNat_saturatingAdd_one h]
  omega

theorem UInt64.ne_zero_of_lt {a b : UInt64} (h : a < b) : b ≠ 0 := by
  rintro rfl
  exact UInt64.not_lt_zero h

theorem UInt64.toNat_saturatingSub (a b : UInt64) :
    (a.saturatingSub b).toNat = a.toNat - b.toNat := by
  unfold saturatingSub UInt64.ofNatClamp
  have ha := a.toNat_lt
  split
  · rw [UInt64.toNat_ofNatLT]
  · next h =>
    have h' : ¬ a.toNat - b.toNat < 2 ^ 64 := h
    omega

theorem UInt8.toNat_saturatingSub (a b : UInt8) :
    (a.saturatingSub b).toNat = a.toNat - b.toNat := by
  unfold saturatingSub UInt8.ofNatClamp
  have ha := a.toNat_lt
  split
  · rw [UInt8.toNat_ofNatLT]
  · next h =>
    have h' : ¬ a.toNat - b.toNat < 2 ^ 8 := h
    omega

theorem UInt16.toNat_saturatingSub (a b : UInt16) :
    (a.saturatingSub b).toNat = a.toNat - b.toNat := by
  unfold saturatingSub UInt16.ofNatClamp
  have ha := a.toNat_lt
  split
  · rw [UInt16.toNat_ofNatLT]
  · next h =>
    have h' : ¬ a.toNat - b.toNat < 2 ^ 16 := h
    omega

theorem UInt16.toNat_saturatingAdd (a b : UInt16) :
    (a.saturatingAdd b).toNat = min (a.toNat + b.toNat) (2 ^ 16 - 1) := by
  unfold UInt16.saturatingAdd UInt16.ofNatClamp
  split
  · next h =>
    have h' : a.toNat + b.toNat < 2 ^ 16 := h
    rw [UInt16.toNat_ofNatLT]
    omega
  · next h =>
    have h' : ¬ a.toNat + b.toNat < 2 ^ 16 := h
    rw [UInt16.toNat_ofNatLT]
    have : UInt16.size - 1 = 2 ^ 16 - 1 := rfl
    omega

theorem Int32.toInt_ofIntClamp_eq (n : Int) :
    (Int32.ofIntClamp n).toInt = max (-2 ^ 31) (min n (2 ^ 31 - 1)) := by
  have hmin : Int32.minValue.toInt = -2 ^ 31 := rfl
  have hmax : Int32.maxValue.toInt = 2 ^ 31 - 1 := rfl
  unfold ofIntClamp
  split
  · split
    · rw [Int32.toInt_ofIntLE]
      omega
    · omega
  · omega

theorem Int32.toInt_saturatingAdd (a b : Int32) :
    (a.saturatingAdd b).toInt = max (-2 ^ 31) (min (a.toInt + b.toInt) (2 ^ 31 - 1)) :=
  Int32.toInt_ofIntClamp_eq _

theorem Int32.toInt_saturatingSub (a b : Int32) :
    (a.saturatingSub b).toInt = max (-2 ^ 31) (min (a.toInt - b.toInt) (2 ^ 31 - 1)) :=
  Int32.toInt_ofIntClamp_eq _

theorem Int32.toInt_saturatingMul (a b : Int32) :
    (a.saturatingMul b).toInt = max (-2 ^ 31) (min (a.toInt * b.toInt) (2 ^ 31 - 1)) :=
  Int32.toInt_ofIntClamp_eq _

theorem Int32.toInt_max (a b : Int32) : (max a b).toInt = max a.toInt b.toInt := by
  change (if a ≤ b then b else a).toInt = _
  simp only [Int32.le_iff_toInt_le]
  split <;> omega

theorem Int32.toInt_min (a b : Int32) : (min a b).toInt = min a.toInt b.toInt := by
  change (if a ≤ b then a else b).toInt = _
  simp only [Int32.le_iff_toInt_le]
  split <;> omega

theorem Int32.ofIntChecked_eq_some {n : Int} {a : Int32} :
    Int32.ofIntChecked n = some a ↔ a.toInt = n := by
  have hlo := a.le_toInt
  have hhi := a.toInt_lt
  unfold ofIntChecked
  split
  · next h =>
    rw [Option.some.injEq, ← Int32.toInt_inj, Int32.toInt_ofInt_of_le h.1 h.2, eq_comm]
  · refine ⟨nofun, ?_⟩
    omega

theorem Int32.isSome_ofIntChecked {n : Int} :
    (Int32.ofIntChecked n).isSome = true ↔ -2 ^ 31 ≤ n ∧ n < 2 ^ 31 := by
  unfold ofIntChecked
  split
  · next h => exact ⟨fun _ => h, fun _ => rfl⟩
  · next h => exact ⟨nofun, fun h' => absurd h' h⟩

/-- The checked sum is the wrapping one where there is one. -/
theorem Int32.checkedAdd_eq {a b c : Int32} (h : a.checkedAdd b = some c) : a + b = c := by
  have hc := Int32.ofIntChecked_eq_some.1 h
  have hlo := c.le_toInt
  have hhi := c.toInt_lt
  rw [← Int32.toInt_inj, Int32.toInt_add, hc, Int.bmod_eq_of_le] <;> omega

theorem Int32.checkedNeg_eq {a c : Int32} (h : a.checkedNeg = some c) : -a = c := by
  have hc := Int32.ofIntChecked_eq_some.1 h
  have hlo := c.le_toInt
  have hhi := c.toInt_lt
  rw [← Int32.toInt_inj, Int32.toInt_neg, hc, Int.bmod_eq_of_le] <;> omega
