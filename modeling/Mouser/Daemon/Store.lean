import Mathlib.Data.List.Defs
import Mathlib.Data.List.DropRight
import Mouser.Core.Device
import Mouser.Lib.Chunks

/-!
# Device ids as text

The daemon shows and compares device ids as lowercase base32 without padding, and reads them in
either case. `decodeDeviceId_format` is the round trip.
-/

namespace Mouser

/-- The bits of a byte, most significant first. -/
def byteBits (b : UInt8) : List Bool :=
  (List.range 8).map fun i => b.toNat.testBit (7 - i)

/-- The base32 digit of five bits; missing low bits are zero. -/
def base32Digit (bits : List Bool) : Char :=
  let value := (List.range 5).foldl (fun n i => 2 * n + (bits.getD i false).toNat) 0
  "abcdefghijklmnopqrstuvwxyz234567".toList.getD value 'a'

/-- `BASE32_NOPAD.encode(device_id).to_lowercase()` -/
def formatDeviceId (id : DeviceId) : String :=
  String.ofList (((id.bytes.flatMap byteBits).toChunks 5).map base32Digit)

/-! ## Reading -/

/-- `char::to_uppercase`; what is used of it is that it keeps to ASCII there. -/
class ToUppercase where
  toUppercase : Char → List Char
  ascii : ∀ c : Char, c.toNat < 128 → toUppercase c = [c.toUpper]

export ToUppercase (toUppercase)

/-- The characters of the property `White_Space`. -/
def isWhitespace (c : Char) : Bool :=
  (9 ≤ c.toNat && c.toNat ≤ 13) || c.toNat = 0x20 || c.toNat = 0x85 || c.toNat = 0xa0 ||
    c.toNat = 0x1680 || (0x2000 ≤ c.toNat && c.toNat ≤ 0x200a) || c.toNat = 0x2028 ||
    c.toNat = 0x2029 || c.toNat = 0x202f || c.toNat = 0x205f || c.toNat = 0x3000

/-- `str::trim` -/
def trim (text : List Char) : List Char := (text.dropWhile isWhitespace).rdropWhile isWhitespace

/-- The five bits of an uppercase base32 symbol. -/
def base32Bits (c : Char) : Option (List Bool) :=
  ("ABCDEFGHIJKLMNOPQRSTUVWXYZ234567".toList.idxOf? c).map fun i =>
    (List.range 5).map fun j => i.testBit (4 - j)

/-- The byte of eight bits, most significant first. -/
def bitsByte (bits : List Bool) : UInt8 := .ofNat (bits.foldl (fun n b => 2 * n + b.toNat) 0)

/-- The whole bytes, and the bits that are left over. -/
def takeBytes : List Bool → List UInt8 × List Bool
  | a :: b :: c :: d :: e :: f :: g :: h :: bits =>
    let (bytes, rest) := takeBytes bits
    (bitsByte [a, b, c, d, e, f, g, h] :: bytes, rest)
  | bits => ([], bits)

/-- `BASE32_NOPAD.decode` -/
def base32Decode (text : List Char) : Option (List UInt8) :=
  match text.mapM base32Bits with
  | none => none
  | some bits =>
    let (bytes, rest) := takeBytes bits.flatten
    -- what is left over is padding, and not a symbol of its own
    if rest.length < 5 ∧ rest.all (!·) then some bytes else none

def decodeDeviceId [ToUppercase] (text : List Char) : Option DeviceId :=
  (base32Decode ((trim text).flatMap toUppercase)).bind toId

/-! ## The round trip -/

theorem takeBytes_byteBits (b : UInt8) (bits : List Bool) :
    takeBytes (byteBits b ++ bits) = (b :: (takeBytes bits).1, (takeBytes bits).2) := by
  have hall : ∀ n : Fin 256, bitsByte (byteBits (.ofNat n)) = .ofNat n := by decide +kernel
  have hbyte := hall ⟨b.toNat, b.toNat_lt⟩
  rw [UInt8.ofNat_toNat] at hbyte
  conv_rhs => rw [← hbyte]
  rfl

/-- The whole bytes of padded bits. -/
theorem takeBytes_flatMap (bytes : List UInt8) {pad : List Bool} (h : pad.length < 8) :
    takeBytes (bytes.flatMap byteBits ++ pad) = (bytes, pad) := by
  induction bytes with
  | nil =>
    rw [List.flatMap_nil, List.nil_append]
    unfold takeBytes
    split
    · simp only [List.length_cons] at h
      omega
    · rfl
  | cons b bytes ih => rw [List.flatMap_cons, List.append_assoc, takeBytes_byteBits, ih]

/-- A digit is a symbol, of its bits. -/
theorem base32Bits_digit {bits : List Bool} (h : bits.length ≤ 5) :
    base32Bits (base32Digit bits).toUpper =
      some (bits ++ List.replicate (5 - bits.length) false) := by
  match bits with
  | [] => decide
  | [a] => revert a; decide
  | [a, b] => revert a b; decide
  | [a, b, c] => revert a b c; decide
  | [a, b, c, d] => revert a b c d; decide
  | [a, b, c, d, e] => revert a b c d e; decide
  | _ :: _ :: _ :: _ :: _ :: _ :: rest =>
    simp only [List.length_cons] at h
    omega

/-- The digits are letters and figures. -/
theorem base32Digit_mem (bits : List Bool) :
    base32Digit bits ∈ "abcdefghijklmnopqrstuvwxyz234567".toList := by
  unfold base32Digit
  dsimp only
  generalize (List.range 5).foldl (fun n i => 2 * n + (bits.getD i false).toNat) 0 = value
  rw [List.getD_eq_getElem?_getD]
  cases hc : "abcdefghijklmnopqrstuvwxyz234567".toList[value]? with
  | none => decide
  | some c => exact List.mem_of_getElem? hc

variable [ToUppercase]

theorem toUppercase_digit (bits : List Bool) :
    toUppercase (base32Digit bits) = [(base32Digit bits).toUpper] := by
  refine ToUppercase.ascii _ ?_
  have hascii : "abcdefghijklmnopqrstuvwxyz234567".toList.all (·.toNat < 128) = true := by decide
  exact of_decide_eq_true (List.all_eq_true.1 hascii _ (base32Digit_mem bits))

/-- The symbols have the bits that were encoded, with less than a digit of padding. -/
theorem mapM_digits (bits : List Bool) : ∃ groups pad,
    (((bits.toChunks 5).map base32Digit).flatMap toUppercase).mapM base32Bits = some groups ∧
      groups.flatten = bits ++ List.replicate pad false ∧ pad < 5 := by
  -- The induction is on the chunks: all of them but the last have five bits.
  induction hlength : bits.length using Nat.strong_induction_on generalizing bits with
  | _ n ih =>
    by_cases hnil : bits = []
    · subst hnil
      exact ⟨[], 0, rfl, rfl, by decide⟩
    by_cases hle : bits.length ≤ 5
    · refine ⟨_, 5 - bits.length, ?_, List.flatten_singleton, ?_⟩
      · rw [List.toChunks_of_length_le hnil hle, List.map_singleton, List.flatMap_singleton,
          toUppercase_digit]
        simp [base32Bits_digit hle]
      · have hpos := List.length_pos_iff.2 hnil
        omega
    · have htake : (bits.take 5).length = 5 := by
        rw [List.length_take]
        omega
      obtain ⟨groups, pad, hgroups, hflatten, hpad⟩ := ih (bits.drop 5).length (by
        rw [List.length_drop]
        omega) (bits.drop 5) rfl
      refine ⟨bits.take 5 :: groups, pad, ?_, ?_, hpad⟩
      · conv_lhs => rw [← List.take_append_drop 5 bits]
        rw [List.toChunks_append (by decide) htake, List.map_cons, List.flatMap_cons,
          toUppercase_digit, List.singleton_append, List.mapM_cons, hgroups,
          base32Bits_digit (Nat.le_of_eq htake), htake]
        simp
      · rw [List.flatten_cons, hflatten, ← List.append_assoc, List.take_append_drop]

omit [ToUppercase] in
/-- A text without white space is as it is when trimmed. -/
theorem trim_eq_self {text : List Char} (h : ∀ c ∈ text, isWhitespace c = false) :
    trim text = text := by
  have hleft : text.dropWhile isWhitespace = text := by
    rw [List.dropWhile_eq_self_iff]
    intro hpos
    simp [h _ (List.getElem_mem hpos)]
  rw [trim, hleft, List.rdropWhile_eq_self_iff]
  intro hne
  simp [h _ (List.getLast_mem hne)]

omit [ToUppercase] in
/-- What an id is shown as consists of letters and figures. -/
theorem mem_formatDeviceId {id : DeviceId} {c : Char} (h : c ∈ (formatDeviceId id).toList) :
    c ∈ "abcdefghijklmnopqrstuvwxyz234567".toList := by
  rw [formatDeviceId, String.toList_ofList] at h
  obtain ⟨bits, -, rfl⟩ := List.mem_map.1 h
  exact base32Digit_mem bits

omit [ToUppercase] in
theorem trim_formatDeviceId (id : DeviceId) :
    trim (formatDeviceId id).toList = (formatDeviceId id).toList := by
  have halphabet : "abcdefghijklmnopqrstuvwxyz234567".toList.all (!isWhitespace ·) = true := by
    decide
  refine trim_eq_self fun c hc => ?_
  have hc' := List.all_eq_true.1 halphabet c (mem_formatDeviceId hc)
  rwa [Bool.not_eq_true'] at hc'

/-- **What is shown of an id is read as that id.** -/
theorem decodeDeviceId_format (id : DeviceId) :
    decodeDeviceId (formatDeviceId id).toList = some id := by
  obtain ⟨groups, pad, hgroups, hflatten, hpad⟩ := mapM_digits (id.bytes.flatMap byteBits)
  rw [decodeDeviceId, trim_formatDeviceId, formatDeviceId, String.toList_ofList, base32Decode,
    hgroups]
  dsimp only
  rw [hflatten, takeBytes_flatMap _ (by rw [List.length_replicate]; omega)]
  simp [hpad]

end Mouser
