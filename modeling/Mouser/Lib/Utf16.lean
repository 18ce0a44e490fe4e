import Mathlib.Data.List.TakeWhile
import Mathlib.Data.String.Basic

/-!
# Strings in UTF-16

A character takes one unit or a pair of surrogates. `lossy` reads any units, with a replacement
character for a surrogate that stands alone; the units of a string are read back as they are. Only
the character NUL has a unit that is zero, so a string of units that ends at the first zero ends at
the first NUL (`takeWhile_encode`).
-/

namespace Utf16

/-- The units of a character. -/
def encodeChar (c : Char) : List UInt16 :=
  if c.toNat < 0x10000 then [.ofNat c.toNat]
  else
    [.ofNat (0xD800 + (c.toNat - 0x10000) / 0x400), .ofNat (0xDC00 + (c.toNat - 0x10000) % 0x400)]

/-- The units of a string. -/
def encode (cs : List Char) : List UInt16 := cs.flatMap encodeChar

@[simp] theorem encode_nil : encode [] = [] := rfl

@[simp] theorem encode_cons (c : Char) (cs : List Char) :
    encode (c :: cs) = encodeChar c ++ encode cs :=
  List.flatMap_cons

/-- The first unit of a pair. -/
def isHigh (u : UInt16) : Bool := 0xD800 ≤ u.toNat ∧ u.toNat < 0xDC00

/-- The second unit of a pair. -/
def isLow (u : UInt16) : Bool := 0xDC00 ≤ u.toNat ∧ u.toNat < 0xE000

/-- The character of a pair. -/
def ofPair (high low : UInt16) : Char :=
  .ofNat (0x10000 + (high.toNat - 0xD800) * 0x400 + (low.toNat - 0xDC00))

/-- The string that the units stand for, with a replacement character for each surrogate that is
not in a pair. -/
def lossy : List UInt16 → List Char
  | [] => []
  | [u] => [if isHigh u || isLow u then .ofNat 0xFFFD else .ofNat u.toNat]
  | u :: v :: rest =>
    if isHigh u then
      if isLow v then ofPair u v :: lossy rest else .ofNat 0xFFFD :: lossy (v :: rest)
    else (if isLow u then .ofNat 0xFFFD else .ofNat u.toNat) :: lossy (v :: rest)

/-- A unit that is a character of its own. -/
theorem lossy_cons {u : UInt16} (hhigh : isHigh u = false) (hlow : isLow u = false)
    (us : List UInt16) : lossy (u :: us) = .ofNat u.toNat :: lossy us := by
  cases us with
  | nil => simp [lossy, hhigh, hlow]
  | cons v us => simp [lossy, hhigh, hlow]

theorem lossy_pair {u v : UInt16} (hhigh : isHigh u = true) (hlow : isLow v = true)
    (us : List UInt16) : lossy (u :: v :: us) = ofPair u v :: lossy us := by
  rw [lossy, if_pos hhigh, if_pos hlow]

theorem toNat_ofNat {n : ℕ} (h : n < 0x10000) : (UInt16.ofNat n).toNat = n :=
  UInt16.toNat_ofNat_of_lt' h

/-- No character is a surrogate. -/
theorem toNat_bounds (c : Char) :
    c.toNat < 0xD800 ∨ 0xDFFF < c.toNat ∧ c.toNat < 0x110000 :=
  c.valid

theorem lossy_encodeChar (c : Char) (us : List UInt16) :
    lossy (encodeChar c ++ us) = c :: lossy us := by
  have hc := toNat_bounds c
  unfold encodeChar
  split
  · next hsmall =>
    have hu : (UInt16.ofNat c.toNat).toNat = c.toNat := toNat_ofNat hsmall
    have hhigh : isHigh (.ofNat c.toNat) = false := by
      rw [isHigh, hu, decide_eq_false_iff_not]
      omega
    have hlow : isLow (.ofNat c.toNat) = false := by
      rw [isLow, hu, decide_eq_false_iff_not]
      omega
    rw [List.singleton_append, lossy_cons hhigh hlow, hu, Char.ofNat_toNat]
  · next hlarge =>
    have hu : (UInt16.ofNat (0xD800 + (c.toNat - 0x10000) / 0x400)).toNat =
        0xD800 + (c.toNat - 0x10000) / 0x400 := toNat_ofNat (by omega)
    have hv : (UInt16.ofNat (0xDC00 + (c.toNat - 0x10000) % 0x400)).toNat =
        0xDC00 + (c.toNat - 0x10000) % 0x400 := toNat_ofNat (by omega)
    have hhigh : isHigh (.ofNat (0xD800 + (c.toNat - 0x10000) / 0x400)) = true := by
      rw [isHigh, hu, decide_eq_true_iff]
      omega
    have hlow : isLow (.ofNat (0xDC00 + (c.toNat - 0x10000) % 0x400)) = true := by
      rw [isLow, hv, decide_eq_true_iff]
      omega
    have hpair : ∀ n, 0x10000 ≤ n →
        0x10000 + (0xD800 + (n - 0x10000) / 0x400 - 0xD800) * 0x400 +
          (0xDC00 + (n - 0x10000) % 0x400 - 0xDC00) = n := by
      intro n hn
      omega
    rw [List.cons_append, List.singleton_append, lossy_pair hhigh hlow, ofPair, hu, hv,
      hpair _ (by omega), Char.ofNat_toNat]

/-- **The units of a string are read back**, and nothing is replaced. -/
@[simp] theorem lossy_encode (cs : List Char) : lossy (encode cs) = cs := by
  induction cs with
  | nil => rfl
  | cons c cs ih => rw [encode_cons, lossy_encodeChar, ih]

/-- A unit that is zero is the character NUL. -/
theorem ne_zero_of_mem_encodeChar {c : Char} (hc : c ≠ '\x00') {u : UInt16}
    (hu : u ∈ encodeChar c) : u ≠ 0 := by
  have hbounds := toNat_bounds c
  have hpos : c.toNat ≠ 0 := fun hzero => hc (by rw [← Char.ofNat_toNat c, hzero])
  rintro rfl
  unfold encodeChar at hu
  split at hu
  · next hsmall =>
    have hval := congrArg UInt16.toNat (List.mem_singleton.1 hu)
    rw [toNat_ofNat hsmall] at hval
    exact hpos hval.symm
  · next hlarge =>
    rcases List.mem_cons.1 hu with hval | hval
    · have hval := congrArg UInt16.toNat hval
      rw [toNat_ofNat (by omega), UInt16.toNat_zero] at hval
      omega
    · have hval := congrArg UInt16.toNat (List.mem_singleton.1 hval)
      rw [toNat_ofNat (by omega), UInt16.toNat_zero] at hval
      omega

/-- **The units up to the first zero** are those of the characters up to the first NUL. -/
theorem takeWhile_encode (cs : List Char) :
    (encode cs).takeWhile (· ≠ 0) = encode (cs.takeWhile (· ≠ '\x00')) := by
  induction cs with
  | nil => rfl
  | cons c cs ih =>
    rw [encode_cons, List.takeWhile_cons]
    by_cases hc : c = '\x00'
    · subst hc
      rfl
    · have hall : ∀ u ∈ encodeChar c, decide (u ≠ 0) = true := fun u hu =>
        decide_eq_true (ne_zero_of_mem_encodeChar hc hu)
      rw [List.takeWhile_append_of_pos hall, ih, if_pos (decide_eq_true hc), encode_cons]

end Utf16
