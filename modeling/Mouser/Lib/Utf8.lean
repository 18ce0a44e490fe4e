import Mathlib.Data.List.Basic
import Mathlib.Data.String.Basic

/-!
# Strings as bytes

A string is a list of characters, and each character takes one to four bytes of its encoding. A
byte offset is a place to cut the string only at a character boundary. The bytes below `0x80` are
the ASCII characters, and stand for nothing else. Bytes that are no string can be refused (`decode`)
or read with replacement characters (`lossy`); the bytes of a string are read back either way.
-/

namespace Utf8

open String (utf8Len)

/-- The string before and after the byte offset, unless the offset is inside a character or behind
the end. -/
def splitAt : List Char → ℕ → Option (List Char × List Char)
  | cs, 0 => some ([], cs)
  | [], _ + 1 => none
  | c :: cs, n + 1 =>
    if c.utf8Size ≤ n + 1 then
      (splitAt cs (n + 1 - c.utf8Size)).map fun (before, after) => (c :: before, after)
    else none

/-- **Where a string can be cut**: at the offsets where a prefix of its characters ends. -/
theorem splitAt_eq_some {cs before after : List Char} {n : ℕ} :
    splitAt cs n = some (before, after) ↔ cs = before ++ after ∧ utf8Len before = n := by
  induction cs generalizing n before with
  | nil =>
    cases n with
    | zero => cases before <;> simp [splitAt, eq_comm]
    | succ n =>
      simp only [splitAt, reduceCtorEq, false_iff, not_and]
      intro h
      simp [(List.nil_eq_append_iff.1 h).1]
  | cons c cs ih =>
    have hpos := c.utf8Size_pos
    cases n with
    | zero =>
      rw [splitAt, String.utf8Len_eq_zero]
      refine ⟨?_, ?_⟩
      · intro h
        cases h
        exact ⟨rfl, rfl⟩
      · rintro ⟨h, rfl⟩
        rw [h]
        rfl
    | succ n =>
      cases before with
      | nil =>
        simp only [splitAt]
        split <;> simp
      | cons b before =>
        have hcut : splitAt (c :: cs) (n + 1) = some (b :: before, after) ↔
            c.utf8Size ≤ n + 1 ∧ c = b ∧
              splitAt cs (n + 1 - c.utf8Size) = some (before, after) := by
          simp only [splitAt]
          split
          · next hle => simp [hle, and_comm]
          · next hle => simp [hle]
        rw [hcut, ih, List.cons_append, List.cons.injEq, String.utf8Len_cons]
        refine ⟨?_, ?_⟩
        · rintro ⟨hle, rfl, rfl, hlen⟩
          exact ⟨⟨rfl, rfl⟩, by omega⟩
        · rintro ⟨⟨rfl, rfl⟩, hlen⟩
          exact ⟨by omega, rfl, rfl, by omega⟩

/-- The last byte of a string can be cut off just when it is a character of its own. -/
theorem splitAt_last {cs : List Char} {n : ℕ} (h : utf8Len cs = n + 1) :
    splitAt cs n = none ↔ ∃ c, cs.getLast? = some c ∧ 1 < c.utf8Size := by
  rcases List.eq_nil_or_concat cs with rfl | ⟨front, last, rfl⟩
  · cases h
  · rw [List.concat_eq_append] at h ⊢
    have hpos := last.utf8Size_pos
    rw [String.utf8Len_append, String.utf8Len_cons, String.utf8Len_nil] at h
    simp only [List.getLast?_append, List.getLast?_singleton, Option.some_or, Option.some.injEq,
      exists_eq_left']
    refine ⟨?_, ?_⟩
    · intro hnone
      by_contra hone
      have hcut : splitAt (front ++ [last]) n = some (front, [last]) :=
        splitAt_eq_some.2 ⟨rfl, by omega⟩
      rw [hnone] at hcut
      cases hcut
    · intro hlong
      -- A cut before the end leaves the last character behind, all of it.
      cases hcut : splitAt (front ++ [last]) n with
      | none => rfl
      | some parts =>
        obtain ⟨before, after⟩ := parts
        obtain ⟨heq, hlen⟩ := splitAt_eq_some.1 hcut
        rcases List.eq_nil_or_concat after with rfl | ⟨after, last', rfl⟩
        · rw [List.append_nil] at heq
          rw [← heq, String.utf8Len_append, String.utf8Len_cons, String.utf8Len_nil] at hlen
          omega
        · rw [List.concat_eq_append, ← List.append_assoc] at heq
          obtain ⟨rfl, -⟩ := List.append_inj' heq rfl
          rw [String.utf8Len_append] at h
          omega

/-! ## ASCII -/

/-- A byte below `0x80` in the encoding of a character is that character. -/
theorem toNat_of_mem_encode {c : Char} {b : UInt8} (hb : b ∈ String.utf8EncodeChar c)
    (hascii : b.toNat < 0x80) : c.toNat = b.toNat := by
  -- The bytes of a longer encoding have their highest bit set.
  have hhigh : ∀ x y : UInt8, 0x80 ≤ y.toNat → b ≠ x ||| y := by
    rintro x y hy rfl
    rw [UInt8.toNat_or] at hascii
    exact absurd (Nat.lt_of_le_of_lt Nat.right_le_or hascii) (Nat.not_lt.2 hy)
  rcases c.utf8Size_eq with h | h | h | h
  · rw [String.utf8EncodeChar_eq_singleton h, List.mem_singleton] at hb
    have hle := UInt32.le_iff_toNat_le.1 (Char.utf8Size_eq_one_iff.1 h)
    have hval : c.val.toNat ≤ 127 := hle
    rw [hb, UInt32.toNat_toUInt8, Nat.mod_eq_of_lt (by omega)]
    rfl
  · rw [String.utf8EncodeChar_eq_cons_cons h] at hb
    simp [hhigh] at hb
  · rw [String.utf8EncodeChar_eq_cons_cons_cons h] at hb
    simp [hhigh] at hb
  · rw [String.utf8EncodeChar_eq_cons_cons_cons_cons h] at hb
    simp [hhigh] at hb

theorem utf8Size_toLower (c : Char) : c.toLower.utf8Size = c.utf8Size := by
  unfold Char.toLower
  split
  · next h =>
    obtain ⟨hfirst, hlast⟩ := h
    have hfirst' : 65 ≤ c.val.toNat := UInt32.le_iff_toNat_le.1 hfirst
    have hlast' : c.val.toNat ≤ 90 := UInt32.le_iff_toNat_le.1 hlast
    have hshift : ('a'.val - 'A'.val).toNat = 32 := rfl
    have hc : c.utf8Size = 1 := by
      rw [Char.utf8Size_eq_one_iff, UInt32.le_iff_toNat_le]
      exact hlast'.trans (by decide)
    rw [hc, Char.utf8Size_eq_one_iff, UInt32.le_iff_toNat_le, UInt32.toNat_add, hshift,
      Nat.mod_eq_of_lt (by omega)]
    change c.val.toNat + 32 ≤ 127
    omega
  · rfl

/-- What comes before the letters has no case. -/
theorem toLower_eq_iff {c d : Char} (hd : d.toNat < 'A'.toNat) : c.toLower = d ↔ c = d := by
  unfold Char.toLower
  split
  · next h =>
    obtain ⟨hfirst, hlast⟩ := h
    have hfirst' : 65 ≤ c.toNat := UInt32.le_iff_toNat_le.1 hfirst
    have hlast' : c.toNat ≤ 90 := UInt32.le_iff_toNat_le.1 hlast
    have hd' : d.toNat < 65 := hd
    refine ⟨?_, ?_⟩
    · rintro rfl
      have hlower : (c.val + ('a'.val - 'A'.val)).toNat < 65 := hd'
      have hshift : ('a'.val - 'A'.val).toNat = 32 := rfl
      have hval : c.val.toNat = c.toNat := rfl
      rw [UInt32.toNat_add, hshift, Nat.mod_eq_of_lt (by omega)] at hlower
      omega
    · rintro rfl
      omega
  · exact Iff.rfl

theorem utf8Len_map_toLower (cs : List Char) : utf8Len (cs.map Char.toLower) = utf8Len cs := by
  induction cs with
  | nil => rfl
  | cons c cs ih =>
    rw [List.map_cons, String.utf8Len_cons, String.utf8Len_cons, ih, utf8Size_toLower]

/-! ## Decoding -/

/-- The bytes of a string. -/
def encode (cs : List Char) : List UInt8 := cs.flatMap String.utf8EncodeChar

@[simp] theorem encode_nil : encode [] = [] := rfl

@[simp] theorem encode_cons (c : Char) (cs : List Char) :
    encode (c :: cs) = String.utf8EncodeChar c ++ encode cs :=
  List.flatMap_cons

@[simp] theorem encode_append (cs ds : List Char) : encode (cs ++ ds) = encode cs ++ encode ds :=
  List.flatMap_append

/-- An ASCII character is its own encoding. -/
theorem utf8EncodeChar_ascii {c : Char} (h : c.toNat < 0x80) :
    String.utf8EncodeChar c = [.ofNat c.toNat] := by
  have hsize : c.utf8Size = 1 := by
    rw [Char.utf8Size_eq_one_iff, UInt32.le_iff_toNat_le]
    change c.toNat ≤ 127
    omega
  rw [String.utf8EncodeChar_eq_singleton hsize]
  rfl

theorem length_le_length_encode (cs : List Char) : cs.length ≤ (encode cs).length := by
  induction cs with
  | nil => exact le_rfl
  | cons c cs ih =>
    have hpos := c.utf8Size_pos
    rw [encode_cons, List.length_append, String.length_utf8EncodeChar, List.length_cons]
    omega

/-- A string of ASCII characters has as many bytes as characters. -/
theorem length_encode_of_ascii {cs : List Char} (h : ∀ c ∈ cs, c.toNat < 0x80) :
    (encode cs).length = cs.length := by
  induction cs with
  | nil => rfl
  | cons c cs ih =>
    rw [List.forall_mem_cons] at h
    rw [encode_cons, List.length_append, ih h.2, utf8EncodeChar_ascii h.1, List.length_singleton,
      List.length_cons, Nat.add_comm]

/-- An ASCII byte is among the bytes of a string only as a character of its own. -/
theorem notMem_encode {cs : List Char} {b : UInt8} (hascii : b.toNat < 0x80)
    (h : Char.ofNat b.toNat ∉ cs) : b ∉ encode cs := by
  intro hmem
  obtain ⟨c, hc, hbyte⟩ := List.mem_flatMap.1 hmem
  have hval : Char.ofNat b.toNat = c := by
    rw [← toNat_of_mem_encode hbyte hascii]
    exact Char.ofNat_toNat c
  exact h (hval ▸ hc)

/-- The string that the bytes are the encoding of. -/
def decode (bytes : List UInt8) : Option (List Char) :=
  bytes.toByteArray.utf8Decode?.map Array.toList

@[simp] theorem decode_encode (cs : List Char) : decode (encode cs) = some cs := by
  have h : (encode cs).toByteArray = cs.utf8Encode := rfl
  rw [decode, h, List.utf8Decode?_utf8Encode]
  rfl

/-- Bytes that are a string are its encoding. -/
theorem encode_of_decode {cs : List Char} {bytes : List UInt8} (h : decode bytes = some cs) :
    encode cs = bytes := by
  obtain ⟨chars, hchars, rfl⟩ := Option.map_eq_some_iff.1 h
  have hsome : bytes.toByteArray.utf8Decode?.isSome := by rw [hchars]; rfl
  have hbytes : chars.toList.utf8Encode = bytes.toByteArray := by
    have hget : bytes.toByteArray.utf8Decode?.get hsome = chars := by
      simp only [hchars, Option.get_some]
    rw [← hget]
    exact ByteArray.utf8Encode_get_utf8Decode?
  have hsame : (encode chars.toList).toByteArray = bytes.toByteArray := hbytes
  simpa using congrArg (fun b => b.data.toList) hsame

/-- **The bytes up to the first zero** are those of the characters up to the first NUL. -/
theorem takeWhile_encode (cs : List Char) :
    (encode cs).takeWhile (· ≠ 0) = encode (cs.takeWhile (· ≠ '\x00')) := by
  induction cs with
  | nil => rfl
  | cons c cs ih =>
    rw [encode_cons, List.takeWhile_cons]
    by_cases hc : c = '\x00'
    · subst hc
      rfl
    · have hall : ∀ b ∈ String.utf8EncodeChar c, decide (b ≠ 0) = true := by
        rintro b hb
        refine decide_eq_true ?_
        rintro rfl
        have hzero := toNat_of_mem_encode hb (by decide)
        exact hc (by rw [← Char.ofNat_toNat c, hzero]; rfl)
      rw [List.takeWhile_append_of_pos hall, ih, if_pos (decide_eq_true hc), encode_cons]

/-- The character whose encoding is in front. -/
def front (bytes : List UInt8) : Option Char := bytes.toByteArray.utf8DecodeChar? 0

@[simp] theorem front_append (c : Char) (bytes : List UInt8) :
    front (String.utf8EncodeChar c ++ bytes) = some c := by
  rw [front, List.toByteArray_append]
  exact ByteArray.utf8DecodeChar?_utf8EncodeChar_append

/-- The bytes that may follow the first byte of a longer encoding: those that would encode a
character with fewer bytes, a surrogate or no character at all are excluded. -/
def allowedSecond (first second : UInt8) : Bool :=
  if first = 0xE0 then 0xA0 ≤ second ∧ second ≤ 0xBF
  else if first = 0xED then 0x80 ≤ second ∧ second ≤ 0x9F
  else if first = 0xF0 then 0x90 ≤ second ∧ second ≤ 0xBF
  else if first = 0xF4 then 0x80 ≤ second ∧ second ≤ 0x8F
  else 0x80 ≤ second ∧ second ≤ 0xBF

/-- How many bytes behind the first one belong to the beginning of an encoding that is broken off:
one replacement character stands for all of them. -/
def brokenTail (first : UInt8) (rest : List UInt8) : ℕ :=
  if first < 0xE0 ∨ 0xF4 < first then 0
  else
    match rest with
    | [] => 0
    | second :: rest =>
      if ¬ allowedSecond first second then 0
      else if first < 0xF0 then 1
      else
        match rest with
        | [] => 1
        | third :: _ => if 0x80 ≤ third ∧ third ≤ 0xBF then 2 else 1

/-- The string that the bytes stand for, with a replacement character for each maximal piece that
encodes nothing. -/
def lossy : List UInt8 → List Char
  | [] => []
  | b :: bytes =>
    match front (b :: bytes) with
    | some c => c :: lossy (bytes.drop (c.utf8Size - 1))
    | none => .ofNat 0xFFFD :: lossy (bytes.drop (brokenTail b bytes))
termination_by bytes => bytes.length
decreasing_by all_goals simp only [List.length_drop, List.length_cons]; omega

/-- **The bytes of a string are read back**, and nothing is replaced. -/
@[simp] theorem lossy_encode (cs : List Char) : lossy (encode cs) = cs := by
  induction cs with
  | nil => simp [lossy]
  | cons c cs ih =>
    have hfront := front_append c (encode cs)
    have hlength := String.length_utf8EncodeChar c
    have hpos := c.utf8Size_pos
    rw [encode_cons]
    cases hc : String.utf8EncodeChar c with
    | nil =>
      rw [hc, List.length_nil] at hlength
      omega
    | cons b bytes =>
      rw [hc, List.length_cons] at hlength
      rw [hc, List.cons_append] at hfront
      have hdrop : (bytes ++ encode cs).drop (c.utf8Size - 1) = encode cs :=
        List.drop_left' (by omega)
      rw [List.cons_append, lossy, hfront]
      simp only [hdrop, ih]

end Utf8
