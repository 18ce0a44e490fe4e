import Mouser.Lib.Framing

/-!
# CBOR maps of scalars

An item of CBOR starts with a head, a major type and a number; the number is in the first byte when
it is below 24, and else in the 1, 2, 4 or 8 bytes behind it, most significant first. `encodeMap`
writes a map from texts to numbers, byte strings and truth values, of definite length and with every
head as short as it can be. `readMap` reads what it writes, whatever comes after it
(`readMap_encodeMap`), and `length_encodeMap_le` bounds what the heads add to the contents.
-/

namespace Cbor

open Framing

/-- The exponent of the number of bytes that an argument takes behind the first byte. -/
def widthExp (n : ℕ) : ℕ :=
  if n < 2 ^ 8 then 0 else if n < 2 ^ 16 then 1 else if n < 2 ^ 32 then 2 else 3

/-- A major type and its argument. -/
def head (major n : ℕ) : List UInt8 :=
  if n < 24 then [.ofNat (32 * major + n)]
  else .ofNat (32 * major + (24 + widthExp n)) :: (leBytes (2 ^ widthExp n) n).reverse

def readHead : List UInt8 → Option (ℕ × ℕ × List UInt8)
  | [] => none
  | b :: rest =>
    let major := b.toNat / 32
    let info := b.toNat % 32
    if info < 24 then some (major, info, rest)
    else if info < 28 then
      let width := 2 ^ (info - 24)
      if width ≤ rest.length then
        some (major, ofLeBytes (rest.take width).reverse, rest.drop width)
      else none
    else none

theorem widthExp_le (n : ℕ) : widthExp n ≤ 3 := by
  unfold widthExp
  split_ifs <;> decide

theorem lt_of_widthExp {n : ℕ} (h : n < 2 ^ 64) : n < 256 ^ 2 ^ widthExp n := by
  unfold widthExp
  split_ifs <;> norm_num <;> omega

theorem length_head_le (major n : ℕ) : (head major n).length ≤ 9 := by
  unfold head
  split
  · simp
  · have hpow : 2 ^ widthExp n ≤ 2 ^ 3 := Nat.pow_le_pow_right (by decide) (widthExp_le n)
    rw [List.length_cons, List.length_reverse, length_leBytes]
    omega

theorem readHead_head {major n : ℕ} (hmajor : major < 8) (hn : n < 2 ^ 64) (rest : List UInt8) :
    readHead (head major n ++ rest) = some (major, n, rest) := by
  unfold head
  split
  · next hsmall =>
    have hbyte : (UInt8.ofNat (32 * major + n)).toNat = 32 * major + n := by
      rw [UInt8.toNat_ofNat']
      omega
    have hmod : (32 * major + n) % 32 = n := by omega
    have hdiv : (32 * major + n) / 32 = major := by omega
    simp only [List.singleton_append, readHead]
    rw [hbyte, hmod, hdiv, if_pos hsmall]
  · have hexp := widthExp_le n
    have hbyte : (UInt8.ofNat (32 * major + (24 + widthExp n))).toNat =
        32 * major + (24 + widthExp n) := by
      rw [UInt8.toNat_ofNat']
      omega
    have hmod : (32 * major + (24 + widthExp n)) % 32 = 24 + widthExp n := by omega
    have hdiv : (32 * major + (24 + widthExp n)) / 32 = major := by omega
    have hlength : (leBytes (2 ^ widthExp n) n).reverse.length = 2 ^ widthExp n := by
      rw [List.length_reverse, length_leBytes]
    simp only [List.cons_append, readHead]
    rw [hbyte, hmod, hdiv, if_neg (by omega), if_pos (by omega), Nat.add_sub_cancel_left,
      if_pos (by rw [List.length_append, hlength]; omega), List.take_left' hlength,
      List.drop_left' hlength, List.reverse_reverse, ofLeBytes_leBytes (lt_of_widthExp hn)]

/-! ## Items -/

inductive Item where
  | uint (n : ℕ)
  | bytes (b : List UInt8)
  | bool (b : Bool)
deriving DecidableEq

namespace Item

def encode : Item → List UInt8
  | .uint n => head 0 n
  | .bytes b => head 2 b.length ++ b
  | .bool b => head 7 (if b then 21 else 20)

/-- The number of the item, or the length of its bytes, can be written in a head. -/
def Fits : Item → Prop
  | .uint n => n < 2 ^ 64
  | .bytes b => b.length < 2 ^ 64
  | .bool _ => True

/-- How many bytes the item has besides its head. -/
def size : Item → ℕ
  | .bytes b => b.length
  | .uint _ | .bool _ => 0

theorem length_encode_le (i : Item) : i.encode.length ≤ 9 + i.size := by
  cases i with
  | uint n => exact length_head_le 0 n
  | bytes b =>
    rw [encode, List.length_append]
    exact Nat.add_le_add_right (length_head_le 2 b.length) _
  | bool b => exact length_head_le 7 _

end Item

/-- As many bytes as a head of the given major type says. -/
def readString (major : ℕ) (input : List UInt8) : Option (List UInt8 × List UInt8) := do
  let (m, n, rest) ← readHead input
  if m = major ∧ n ≤ rest.length then some (rest.take n, rest.drop n) else none

theorem readString_encode {major : ℕ} (hmajor : major < 8) {b : List UInt8}
    (hb : b.length < 2 ^ 64) (rest : List UInt8) :
    readString major (head major b.length ++ b ++ rest) = some (b, rest) := by
  rw [readString, List.append_assoc, readHead_head hmajor hb]
  dsimp only [bind, Option.bind]
  rw [if_pos ⟨rfl, by rw [List.length_append]; omega⟩, List.take_left, List.drop_left]

def readItem (input : List UInt8) : Option (Item × List UInt8) := do
  let (major, n, rest) ← readHead input
  if major = 0 then some (.uint n, rest)
  else if major = 2 then if n ≤ rest.length then some (.bytes (rest.take n), rest.drop n) else none
  else if major = 7 ∧ n = 20 then some (.bool false, rest)
  else if major = 7 ∧ n = 21 then some (.bool true, rest)
  else none

theorem readItem_encode {i : Item} (h : i.Fits) (rest : List UInt8) :
    readItem (i.encode ++ rest) = some (i, rest) := by
  cases i with
  | uint n =>
    rw [Item.encode, readItem, readHead_head (by decide) h]
    rfl
  | bytes b =>
    rw [Item.encode, readItem, List.append_assoc, readHead_head (by decide) h]
    dsimp only [bind, Option.bind]
    rw [if_neg (by decide), if_pos rfl, if_pos (by rw [List.length_append]; omega),
      List.take_left, List.drop_left]
  | bool b =>
    rw [Item.encode, readItem, readHead_head (by decide) (by split <;> decide)]
    cases b <;> rfl

/-! ## Maps -/

/-- A text of ASCII characters. -/
def ascii (s : String) : List UInt8 := s.toList.map fun c => .ofNat c.toNat

abbrev Field := List UInt8 × Item

namespace Field

def encode (f : Field) : List UInt8 := head 3 f.1.length ++ f.1 ++ f.2.encode

def Fits (f : Field) : Prop := f.1.length < 2 ^ 64 ∧ f.2.Fits

/-- A bound for the bytes of the field. -/
def bound (f : Field) : ℕ := 9 + f.1.length + (9 + f.2.size)

theorem length_encode_le (f : Field) : f.encode.length ≤ f.bound := by
  have hhead := length_head_le 3 f.1.length
  have hitem := f.2.length_encode_le
  rw [encode, List.length_append, List.length_append, bound]
  omega

def read (input : List UInt8) : Option (Field × List UInt8) := do
  let (key, rest) ← readString 3 input
  let (item, rest) ← readItem rest
  return ((key, item), rest)

theorem read_encode {f : Field} (h : f.Fits) (rest : List UInt8) :
    read (f.encode ++ rest) = some (f, rest) := by
  rw [read, encode, List.append_assoc, readString_encode (by decide) h.1]
  dsimp only [bind, Option.bind]
  rw [readItem_encode h.2]
  rfl

end Field

def encodeMap (fields : List Field) : List UInt8 :=
  head 5 fields.length ++ fields.flatMap Field.encode

def readFields : ℕ → List UInt8 → Option (List Field × List UInt8)
  | 0, input => some ([], input)
  | count + 1, input => do
    let (field, rest) ← Field.read input
    let (fields, rest) ← readFields count rest
    return (field :: fields, rest)

def readMap (input : List UInt8) : Option (List Field × List UInt8) := do
  let (major, count, rest) ← readHead input
  if major = 5 then readFields count rest else none

theorem readFields_encode {fields : List Field} (h : ∀ f ∈ fields, f.Fits) (rest : List UInt8) :
    readFields fields.length (fields.flatMap Field.encode ++ rest) = some (fields, rest) := by
  induction fields with
  | nil => rfl
  | cons f fields ih =>
    obtain ⟨hf, hfields⟩ := List.forall_mem_cons.1 h
    rw [List.length_cons, List.flatMap_cons, List.append_assoc, readFields, Field.read_encode hf]
    dsimp only [bind, Option.bind]
    rw [ih hfields]
    rfl

/-- **A map is read as it was written**, whatever comes after it. -/
theorem readMap_encodeMap {fields : List Field} (hlen : fields.length < 2 ^ 64)
    (h : ∀ f ∈ fields, f.Fits) (rest : List UInt8) :
    readMap (encodeMap fields ++ rest) = some (fields, rest) := by
  rw [readMap, encodeMap, List.append_assoc, readHead_head (by decide) hlen]
  exact readFields_encode h rest

/-- The bytes of a map, up to the lengths of its heads. -/
theorem length_encodeMap_le (fields : List Field) :
    (encodeMap fields).length ≤ 9 + (fields.map Field.bound).sum := by
  have hfields : (fields.flatMap Field.encode).length ≤ (fields.map Field.bound).sum := by
    induction fields with
    | nil => exact Nat.zero_le _
    | cons f fields ih =>
      rw [List.flatMap_cons, List.length_append, List.map_cons, List.sum_cons]
      exact Nat.add_le_add f.length_encode_le ih
  rw [encodeMap, List.length_append]
  exact Nat.add_le_add (length_head_le 5 fields.length) hfields

/-- The first byte of a map of less than 24 fields. -/
theorem head?_encodeMap {fields : List Field} (h : fields.length < 24) :
    (encodeMap fields).head? = some (.ofNat (160 + fields.length)) := by
  rw [encodeMap, head, if_pos h]
  rfl

end Cbor
