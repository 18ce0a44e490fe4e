import Mathlib.Logic.Equiv.Defs
import Mathlib.Data.List.Nodup
import Mouser.Lib.CborValue

/-!
# Typed items

A `Codec` writes the values of a type as items and reads them back, and carries the proof that it
does. A struct is a map from the names of its fields: `Fields` is a list of fields, each required or
optional, that are found in a map by name, in any order and among entries of other names. A name
that comes twice is refused. `Codec.decode_encode` is the round trip in bytes, and
`Codec.readStruct_unknown` says that entries of other names do not matter.
-/

namespace Cbor

/-- Values of a type as items. `Small` holds of those whose lengths can be written. -/
structure Codec (T : Type) where
  toValue : T → Value
  ofValue : Value → Option T
  ofValue_toValue (t : T) : ofValue (toValue t) = some t
  depth : ℕ
  Small : T → Prop
  fits (t : T) (h : Small t) : (toValue t).Fits depth

namespace Codec

variable {T A B : Type}

/-- **The round trip in bytes**, whatever comes after the item. -/
theorem decode_encode (c : Codec T) {t : T} (h : c.Small t) {d : ℕ} (hd : c.depth ≤ d)
    (rest : List UInt8) :
    (decode d ((c.toValue t).encode ++ rest)).bind (fun p => (c.ofValue p.1).map (·, p.2)) =
      some (t, rest) := by
  rw [Cbor.decode_encode ((c.fits t h).mono hd)]
  dsimp only [Option.bind]
  rw [c.ofValue_toValue]
  rfl

/-- Numbers below a bound. -/
def number (bound : ℕ) (hbound : bound ≤ 2 ^ 64) (toNat : T → ℕ) (ofNat : ℕ → T)
    (hlt : ∀ t, toNat t < bound) (hof : ∀ t, ofNat (toNat t) = t) : Codec T where
  toValue t := .uint (toNat t)
  ofValue
    | .uint n => if n < bound then some (ofNat n) else none
    | _ => none
  ofValue_toValue t := (if_pos (hlt t)).trans (congrArg some (hof t))
  depth := 1
  Small _ := True
  fits t _ := .uint ((hlt t).trans_le hbound)

def uint64 : Codec UInt64 :=
  number (2 ^ 64) le_rfl UInt64.toNat UInt64.ofNat UInt64.toNat_lt fun _ => UInt64.ofNat_toNat

def uint32 : Codec UInt32 :=
  number (2 ^ 32) (by decide) UInt32.toNat UInt32.ofNat UInt32.toNat_lt fun _ => UInt32.ofNat_toNat

def uint16 : Codec UInt16 :=
  number (2 ^ 16) (by decide) UInt16.toNat UInt16.ofNat UInt16.toNat_lt fun _ => UInt16.ofNat_toNat

def uint8 : Codec UInt8 :=
  number (2 ^ 8) (by decide) UInt8.toNat UInt8.ofNat UInt8.toNat_lt fun _ => UInt8.ofNat_toNat

/-- The integer that an item is, whatever its size. -/
def integer : Value → Option ℤ
  | .uint n => some n
  | .nint n => some (-1 - n)
  | _ => none

def ofInteger : ℤ → Value
  | .ofNat n => .uint n
  | .negSucc n => .nint n

theorem integer_ofInteger (i : ℤ) : integer (ofInteger i) = some i := by
  cases i with
  | ofNat n => rfl
  | negSucc n => exact congrArg some (by omega)

def int32 : Codec Int32 where
  toValue t := ofInteger t.toInt
  ofValue v := (integer v).bind fun i =>
    if -2 ^ 31 ≤ i ∧ i < 2 ^ 31 then some (.ofInt i) else none
  ofValue_toValue t := by
    rw [integer_ofInteger, Option.bind_some, if_pos ⟨t.le_toInt, t.toInt_lt⟩, Int32.ofInt_toInt]
  depth := 1
  Small _ := True
  fits t _ := by
    have hle := t.le_toInt
    have hlt := t.toInt_lt
    cases hi : t.toInt with
    | ofNat n =>
      rw [hi, Int.ofNat_eq_natCast] at hlt
      exact .uint (by omega)
    | negSucc n =>
      rw [hi, Int.negSucc_eq] at hle
      exact .nint (by omega)

def bool : Codec Bool where
  toValue := .bool
  ofValue
    | .bool b => some b
    | _ => none
  ofValue_toValue _ := rfl
  depth := 1
  Small _ := True
  fits b _ := .bool b

/-- A byte string. -/
def bytes : Codec (List UInt8) where
  toValue := .bytes
  ofValue
    | .bytes b => some b
    | _ => none
  ofValue_toValue _ := rfl
  depth := 1
  Small b := b.length < 2 ^ 64
  fits _ h := .bytes h

def text : Codec String where
  toValue s := .text s.toList
  ofValue
    | .text s => some (.ofList s)
    | _ => none
  ofValue_toValue s := congrArg some s.ofList_toList
  depth := 1
  Small s := (Utf8.encode s.toList).length < 2 ^ 64
  fits _ h := .text h

theorem mapM_ofValue (c : Codec T) (ts : List T) : (ts.map c.toValue).mapM c.ofValue = some ts := by
  induction ts with
  | nil => rfl
  | cons t ts ih =>
    rw [List.map_cons, List.mapM_cons, c.ofValue_toValue, ih]
    rfl

/-- The items of an array. -/
def items : Value → Option (List Value)
  | .array items => some items
  | _ => none

/-- An array, each item by the codec. -/
def list (c : Codec T) : Codec (List T) where
  toValue ts := .array (ts.map c.toValue)
  ofValue value := (items value).bind fun items => items.mapM c.ofValue
  ofValue_toValue ts := c.mapM_ofValue ts
  depth := c.depth + 1
  Small ts := ts.length < 2 ^ 64 ∧ ∀ t ∈ ts, c.Small t
  fits ts h := by
    refine .array (by rw [List.length_map]; exact h.1) fun item hitem => ?_
    obtain ⟨t, ht, rfl⟩ := List.mem_map.1 hitem
    exact c.fits t (h.2 t ht)

end Codec

/-- The entries of a map, by the name of the field. -/
abbrev Entries := List (List Char × Value)

/-- No entry has one of the names. -/
def Entries.Avoid (entries : Entries) (keys : List (List Char)) : Prop := ∀ e ∈ entries, e.1 ∉ keys

/-- The fields of a struct. -/
structure Fields (T : Type) where
  write : T → Entries
  read : Entries → Option T
  keys : List (List Char)
  write_keys (t : T) : ((write t).map Prod.fst).Sublist keys
  read_write (t : T) (hkeys : keys.Nodup) {before after : Entries} (hbefore : before.Avoid keys)
    (hafter : after.Avoid keys) : read (before ++ write t ++ after) = some t
  depth : ℕ
  Small : T → Prop
  fits (t : T) (h : Small t) : ∀ e ∈ write t, e.2.Fits depth

namespace Fields

variable {T A B : Type}

/-- The value of a field, when there is an entry of its name. -/
theorem lookup_of_avoid {before : Entries} {keys : List (List Char)} {key : List Char}
    (hkey : key ∈ keys) (hbefore : before.Avoid keys) (after : Entries) :
    (before ++ after).lookup key = after.lookup key := by
  induction before with
  | nil => rfl
  | cons e before ih =>
    have hne : ¬ key = e.1 := fun h => hbefore e (.head _) (h ▸ hkey)
    rw [List.cons_append, List.lookup_cons, beq_false_of_ne hne]
    exact ih fun e' he' => hbefore e' (.tail _ he')

theorem lookup_eq_none {entries : Entries} {key : List Char} (h : ∀ e ∈ entries, e.1 ≠ key) :
    entries.lookup key = none := by
  have havoid : entries.Avoid [key] := fun e he hmem => h e he (List.mem_singleton.1 hmem)
  have happend := lookup_of_avoid (.head _) havoid []
  rwa [List.append_nil] at happend

def nil : Fields Unit where
  write _ := []
  read _ := some ()
  keys := []
  write_keys _ := .slnil
  read_write _ _ _ _ _ _ := rfl
  depth := 0
  Small _ := True
  fits _ _ := nofun

/-- One field more. -/
def field (name : String) (c : Codec A) (rest : Fields B) : Fields (A × B) where
  write p := (name.toList, c.toValue p.1) :: rest.write p.2
  read entries := do
    let value ← entries.lookup name.toList
    let a ← c.ofValue value
    return (a, ← rest.read entries)
  keys := name.toList :: rest.keys
  write_keys p := (rest.write_keys p.2).cons_cons name.toList
  read_write p hkeys before after hbefore hafter := by
    obtain ⟨hkey, hkeys⟩ := List.nodup_cons.1 hkeys
    have hlookup : (before ++ ((name.toList, c.toValue p.1) :: rest.write p.2) ++ after).lookup
        name.toList = some (c.toValue p.1) := by
      rw [List.append_assoc, lookup_of_avoid (.head _) hbefore, List.cons_append,
        List.lookup_cons_self]
    have hrest : rest.read (before ++ ((name.toList, c.toValue p.1) :: rest.write p.2) ++ after) =
        some p.2 := by
      have hbefore' : (before ++ [(name.toList, c.toValue p.1)] : Entries).Avoid rest.keys := by
        intro e he
        rcases List.mem_append.1 he with he | he
        · exact fun hmem => hbefore e he (.tail _ hmem)
        · rw [List.mem_singleton.1 he]
          exact hkey
      have hafter' : after.Avoid rest.keys := fun e he hmem => hafter e he (.tail _ hmem)
      have hread := rest.read_write p.2 hkeys hbefore' hafter'
      rwa [List.append_assoc before, List.singleton_append] at hread
    rw [hlookup]
    dsimp only [bind, Option.bind]
    rw [c.ofValue_toValue]
    dsimp only
    rw [hrest]
    rfl
  depth := max c.depth rest.depth
  Small p := c.Small p.1 ∧ rest.Small p.2
  fits p h e he := by
    rcases List.mem_cons.1 he with rfl | he
    · exact (c.fits p.1 h.1).mono (le_max_left _ _)
    · exact (rest.fits p.2 h.2 e he).mono (le_max_right _ _)

/-- A value that may be missing. -/
def optionalValue (c : Codec A) : Option Value → Option (Option A)
  | none | some .null => some none
  | some value => (c.ofValue value).map some

theorem optionalValue_toValue {c : Codec A} {a : A} (hnull : c.toValue a ≠ .null) :
    optionalValue c (some (c.toValue a)) = some (some a) := by
  have hread := c.ofValue_toValue a
  generalize c.toValue a = value at hnull hread
  cases value with
  | null => exact absurd rfl hnull
  | _ => exact congrArg (Option.map some) hread

/-- The entry of a value that may be missing. -/
def optionalEntry (key : List Char) (c : Codec A) : Option A → Entries
  | none => []
  | some a => [(key, c.toValue a)]

/-- One field more, which is left out when it has no value. -/
def optional (name : String) (c : Codec A) (hnull : ∀ a, c.toValue a ≠ .null) (rest : Fields B) :
    Fields (Option A × B) where
  write p := optionalEntry name.toList c p.1 ++ rest.write p.2
  read entries := do
    let a ← optionalValue c (entries.lookup name.toList)
    return (a, ← rest.read entries)
  keys := name.toList :: rest.keys
  write_keys p := by
    obtain ⟨a, b⟩ := p
    cases a with
    | none => exact (rest.write_keys b).cons name.toList
    | some a => exact (rest.write_keys b).cons_cons name.toList
  read_write p hkeys before after hbefore hafter := by
    obtain ⟨a, b⟩ := p
    obtain ⟨hkey, hkeys⟩ := List.nodup_cons.1 hkeys
    have hafter' : after.Avoid rest.keys := fun e he hmem => hafter e he (.tail _ hmem)
    have hbefore' : before.Avoid rest.keys := fun e he hmem => hbefore e he (.tail _ hmem)
    have hlookup : (before ++ (optionalEntry name.toList c a ++ rest.write b) ++ after).lookup
        name.toList = a.map c.toValue := by
      rw [List.append_assoc, lookup_of_avoid (.head _) hbefore]
      cases a with
      | none =>
        refine lookup_eq_none fun e he => ?_
        rcases List.mem_append.1 he with he | he
        · exact fun h => hkey (h ▸ (rest.write_keys b).subset (List.mem_map_of_mem he))
        · exact fun h => hafter e he (h ▸ .head _)
      | some a => exact List.lookup_cons_self
    have hvalue : optionalValue c (a.map c.toValue) = some a := by
      cases a with
      | none => rfl
      | some a => exact optionalValue_toValue (hnull a)
    have hrest : rest.read (before ++ (optionalEntry name.toList c a ++ rest.write b) ++ after) =
        some b := by
      have hentry : (before ++ optionalEntry name.toList c a : Entries).Avoid rest.keys := by
        intro e he
        rcases List.mem_append.1 he with he | he
        · exact hbefore' e he
        · cases a with
          | none => cases he
          | some a =>
            rw [List.mem_singleton.1 he]
            exact hkey
      have hread := rest.read_write b hkeys hentry hafter'
      rwa [List.append_assoc before] at hread
    rw [hlookup, hvalue]
    dsimp only [bind, Option.bind]
    rw [hrest]
    rfl
  depth := max c.depth rest.depth
  Small p := (∀ a ∈ p.1, c.Small a) ∧ rest.Small p.2
  fits p h e he := by
    rcases List.mem_append.1 he with he | he
    · obtain ⟨a, b⟩ := p
      cases a with
      | none => cases he
      | some a =>
        rw [List.mem_singleton.1 he]
        exact (c.fits a (h.1 a rfl)).mono (le_max_left _ _)
    · exact (rest.fits p.2 h.2 e he).mono (le_max_right _ _)

end Fields

namespace Codec

variable {T A : Type}

/-- The entries that have one of the names, in order. -/
def named (keys : List (List Char)) (entries : Entries) : List (List Char) :=
  (entries.map Prod.fst).filter keys.contains

theorem named_of_avoid {keys : List (List Char)} {entries : Entries} (h : entries.Avoid keys) :
    named keys entries = [] := by
  refine List.filter_eq_nil_iff.2 fun key hkey => ?_
  obtain ⟨e, he, rfl⟩ := List.mem_map.1 hkey
  rw [List.contains_iff_mem]
  exact h e he

/-- What a map gives a struct: no field twice, and each as it is read. -/
def readStruct (fields : Fields A) (e : T ≃ A) (entries : Entries) : Option T :=
  if (named fields.keys entries).Nodup then (fields.read entries).map e.symm else none

/-- **Entries of other names do not matter.** -/
theorem readStruct_unknown {fields : Fields A} (hkeys : fields.keys.Nodup) (e : T ≃ A) (t : T)
    {before after : Entries} (hbefore : before.Avoid fields.keys)
    (hafter : after.Avoid fields.keys) :
    readStruct fields e (before ++ fields.write (e t) ++ after) = some t := by
  have hnamed : (named fields.keys (before ++ fields.write (e t) ++ after)).Nodup := by
    rw [named, List.map_append, List.map_append, List.filter_append, List.filter_append]
    have hb := named_of_avoid hbefore
    have ha := named_of_avoid hafter
    rw [named] at hb ha
    rw [hb, ha, List.nil_append, List.append_nil]
    exact ((fields.write_keys (e t)).nodup hkeys).filter _
  rw [readStruct, if_pos hnamed, fields.read_write (e t) hkeys hbefore hafter, Option.map_some,
    e.symm_apply_apply]

/-- A struct, as the map of its fields. -/
def struct (fields : Fields A) (e : T ≃ A) (hkeys : fields.keys.Nodup)
    (hshort : ∀ key ∈ fields.keys, (Utf8.encode key).length < 2 ^ 64)
    (hlength : fields.keys.length < 2 ^ 64) : Codec T where
  toValue t := .map (fields.write (e t))
  ofValue
    | .map entries => readStruct fields e entries
    | _ => none
  ofValue_toValue t := by
    have hread : readStruct fields e ([] ++ fields.write (e t) ++ []) = some t :=
      readStruct_unknown hkeys e t nofun nofun
    rwa [List.nil_append, List.append_nil] at hread
  depth := fields.depth + 1
  Small t := fields.Small (e t)
  fits t h := by
    have hwrite := (fields.write_keys (e t)).length_le
    rw [List.length_map] at hwrite
    refine .map (hwrite.trans_lt hlength) (fun entry he => ?_) (fields.fits (e t) h)
    exact hshort entry.1 ((fields.write_keys (e t)).subset (List.mem_map_of_mem he))

end Codec

/-- A struct, by its fields. -/
structure Schema (T : Type) where
  {A : Type}
  fields : Fields A
  equiv : T ≃ A
  nodup : fields.keys.Nodup := by decide
  short : ∀ key ∈ fields.keys, (Utf8.encode key).length < 2 ^ 64 := by decide
  length_lt : fields.keys.length < 2 ^ 64 := by decide

def Schema.codec {T : Type} (s : Schema T) : Codec T :=
  .struct s.fields s.equiv s.nodup s.short s.length_lt

/-- The entries that a struct is written as. -/
def Schema.write {T : Type} (s : Schema T) (t : T) : Entries := s.fields.write (s.equiv t)

end Cbor
