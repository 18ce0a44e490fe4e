import Mouser.Lib.Cbor
import Mouser.Protocol.Messages

/-!
# Control-plane payloads

`to_cbor` and `from_cbor` are what the messages pass through. They call the library `ciborium`,
which is outside the repository: `Ciborium T` is what it makes of a type, and `WritesMaps` that a
struct is written as a map from its fields' names, of definite length and with heads as short as
they can be, and is read from it.
-/

namespace Mouser

open Cbor

variable {T : Type}

/-- `into_writer` and `from_reader`, which also tells how far it has read. -/
structure Ciborium (T : Type) where
  intoWriter : T → Except String (List UInt8)
  fromReader : List UInt8 → Except String (T × ℕ)

inductive CodecError where
  | encode (m : String)
  | decode (m : String)
deriving DecidableEq

def toCbor (c : Ciborium T) (value : T) : Except CodecError (List UInt8) :=
  (c.intoWriter value).mapError .encode

def indefiniteMap : UInt8 := 0xBF
def indefiniteArray : UInt8 := 0x9F

/-- One item has to take the whole of the bytes. -/
def fromCbor (c : Ciborium T) (bytes : List UInt8) : Except CodecError T :=
  if bytes.head? = some indefiniteMap ∨ bytes.head? = some indefiniteArray then
    .error (.decode "indefinite-length top-level item")
  else
    match c.fromReader bytes with
    | .error m => .error (.decode m)
    | .ok (value, position) =>
      if position ≠ bytes.length then .error (.decode "trailing bytes") else .ok value

/-- The structs of the type are written as maps of `fields`. -/
structure Ciborium.WritesMaps (c : Ciborium T) (fields : T → List Field) : Prop where
  intoWriter_eq (value : T) : c.intoWriter value = .ok (encodeMap (fields value))
  fromReader_eq (value : T) (h : ∀ f ∈ fields value, f.Fits) :
    c.fromReader (encodeMap (fields value)) = .ok (value, (encodeMap (fields value)).length)

theorem fromCbor_encodeMap {c : Ciborium T} {fields : T → List Field} (hc : c.WritesMaps fields)
    {value : T} (hlen : (fields value).length < 24) (h : ∀ f ∈ fields value, f.Fits) :
    fromCbor c (encodeMap (fields value)) = .ok value := by
  have hfirst : ¬ ((encodeMap (fields value)).head? = some indefiniteMap ∨
      (encodeMap (fields value)).head? = some indefiniteArray) := by
    have hbyte : (UInt8.ofNat (160 + (fields value).length)).toNat =
        160 + (fields value).length := by
      rw [UInt8.toNat_ofNat']
      omega
    rw [head?_encodeMap hlen, Option.some.injEq, Option.some.injEq, ← UInt8.toNat_inj,
      ← UInt8.toNat_inj, hbyte]
    have hmap : indefiniteMap.toNat = 191 := rfl
    have harray : indefiniteArray.toNat = 159 := rfl
    omega
  rw [fromCbor, if_neg hfirst, hc.fromReader_eq value h]
  exact if_neg (not_not.2 rfl)

/-! ## Clipboard data -/

/-- The number of a format on the wire. -/
def ClipFormat.number : ClipFormat → ℕ
  | .utf8Text => 0
  | .html => 1
  | .png => 2
  | .uriList => 3
  | .rtf => 4
  | .unknown => 255

def ClipFormat.ofNumber : ℕ → ClipFormat
  | 0 => .utf8Text
  | 1 => .html
  | 2 => .png
  | 3 => .uriList
  | 4 => .rtf
  | _ => .unknown

@[simp] theorem ClipFormat.ofNumber_number (format : ClipFormat) :
    ofNumber format.number = format := by
  cases format <;> rfl

theorem ClipFormat.number_lt (format : ClipFormat) : format.number < 2 ^ 64 := by
  cases format <;> decide

namespace ClipboardData

def fields (data : ClipboardData) : List Field :=
  [(ascii "hash", .bytes data.hash), (ascii "format", .uint data.format.number),
   (ascii "offset", .uint data.offset.toNat), (ascii "data", .bytes data.data),
   (ascii "last", .bool data.last)]

theorem fits_fields {data : ClipboardData} (hhash : data.hash.length < 2 ^ 64)
    (hdata : data.data.length < 2 ^ 64) : ∀ f ∈ data.fields, f.Fits := by
  intro f hf
  simp only [fields, List.mem_cons, List.not_mem_nil, or_false] at hf
  rcases hf with rfl | rfl | rfl | rfl | rfl
  · exact ⟨(by decide : (ascii "hash").length < 2 ^ 64), hhash⟩
  · exact ⟨(by decide : (ascii "format").length < 2 ^ 64), data.format.number_lt⟩
  · exact ⟨(by decide : (ascii "offset").length < 2 ^ 64), data.offset.toNat_lt⟩
  · exact ⟨(by decide : (ascii "data").length < 2 ^ 64), hdata⟩
  · exact ⟨(by decide : (ascii "last").length < 2 ^ 64), trivial⟩

/-- What the encoding has besides the hash and the content. -/
theorem length_encodeMap_fields_le (data : ClipboardData) :
    (encodeMap data.fields).length ≤ 123 + data.hash.length + data.data.length := by
  refine (length_encodeMap_le _).trans ?_
  have hhash : (ascii "hash").length = 4 := rfl
  have hformat : (ascii "format").length = 6 := rfl
  have hoffset : (ascii "offset").length = 6 := rfl
  have hdata : (ascii "data").length = 4 := rfl
  have hlast : (ascii "last").length = 4 := rfl
  simp only [fields, List.map_cons, List.map_nil, List.sum_cons, List.sum_nil, Field.bound,
    Item.size, hhash, hformat, hoffset, hdata, hlast]
  omega

/-- The struct that a map gives, whatever else is in it. -/
def ofFields (fields : List Field) : Option ClipboardData :=
  match fields.lookup (ascii "hash"), fields.lookup (ascii "format"),
    fields.lookup (ascii "offset"), fields.lookup (ascii "data"), fields.lookup (ascii "last") with
  | some (.bytes hash), some (.uint format), some (.uint offset), some (.bytes data),
      some (.bool last) =>
    if offset < 2 ^ 64 then
      some { hash, format := .ofNumber format, offset := .ofNat offset, data, last }
    else none
  | _, _, _, _, _ => none

theorem ofFields_fields (data : ClipboardData) : ofFields data.fields = some data := by
  have hoffset : data.offset.toNat < 2 ^ 64 := data.offset.toNat_lt
  have hlookup : ofFields data.fields = if data.offset.toNat < 2 ^ 64 then
      some { data with
        format := .ofNumber data.format.number
        offset := .ofNat data.offset.toNat }
    else none := rfl
  rw [hlookup, if_pos hoffset, ClipFormat.ofNumber_number, UInt64.ofNat_toNat]

/-- A reader and writer of the maps. -/
def ciborium : Ciborium ClipboardData where
  intoWriter data := .ok (encodeMap data.fields)
  fromReader bytes :=
    match readMap bytes with
    | none => .error "invalid value"
    | some (fields, rest) =>
      match ofFields fields with
      | none => .error "missing field"
      | some data => .ok (data, bytes.length - rest.length)

theorem ciborium_writesMaps : ciborium.WritesMaps fields where
  intoWriter_eq _ := rfl
  fromReader_eq data h := by
    have hlen : data.fields.length < 2 ^ 64 := (by decide : 5 < 2 ^ 64)
    have hread := readMap_encodeMap hlen h []
    rw [List.append_nil] at hread
    simp only [ciborium, hread, ofFields_fields, List.length_nil, Nat.sub_zero]

end ClipboardData

end Mouser
