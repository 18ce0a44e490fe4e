import Mouser.Lib.Cbor
import Mouser.Lib.Utf8

/-!
# CBOR items

An item is a number, a string, a simple value, an array of items, or a map from texts to items.
`encode` writes it of definite length and with heads as short as they can be; `decode` reads an item
that is nested at most so deep. `decode_encode` says that it reads what was written, whatever comes
after it, and `head?_encode` that no item starts like one of indefinite length.
-/

namespace Cbor

inductive Value where
  | uint (n : ℕ)
  /-- The number `-1 - n`. -/
  | nint (n : ℕ)
  | bytes (b : List UInt8)
  | text (s : List Char)
  | array (items : List Value)
  | map (entries : List (List Char × Value))
  | bool (b : Bool)
  | null

namespace Value

/-- A text, behind its length. -/
def encodeText (s : List Char) : List UInt8 := head 3 (Utf8.encode s).length ++ Utf8.encode s

mutual

def encode : Value → List UInt8
  | .uint n => head 0 n
  | .nint n => head 1 n
  | .bytes b => head 2 b.length ++ b
  | .text s => encodeText s
  | .array items => head 4 items.length ++ encodeItems items
  | .map entries => head 5 entries.length ++ encodeEntries entries
  | .bool b => head 7 (if b then 21 else 20)
  | .null => head 7 22

def encodeItems : List Value → List UInt8
  | [] => []
  | item :: items => encode item ++ encodeItems items

def encodeEntries : List (List Char × Value) → List UInt8
  | [] => []
  | (key, value) :: entries => encodeText key ++ encode value ++ encodeEntries entries

end

/-- The item is nested at most `d` deep, and its lengths and numbers can be written in heads. -/
inductive Fits : ℕ → Value → Prop where
  | uint {d n : ℕ} (h : n < 2 ^ 64) : Fits (d + 1) (.uint n)
  | nint {d n : ℕ} (h : n < 2 ^ 64) : Fits (d + 1) (.nint n)
  | bytes {d : ℕ} {b : List UInt8} (h : b.length < 2 ^ 64) : Fits (d + 1) (.bytes b)
  | text {d : ℕ} {s : List Char} (h : (Utf8.encode s).length < 2 ^ 64) : Fits (d + 1) (.text s)
  | array {d : ℕ} {items : List Value} (hlength : items.length < 2 ^ 64)
    (h : ∀ item ∈ items, Fits d item) : Fits (d + 1) (.array items)
  | map {d : ℕ} {entries : List (List Char × Value)} (hlength : entries.length < 2 ^ 64)
    (hkeys : ∀ e ∈ entries, (Utf8.encode e.1).length < 2 ^ 64)
    (h : ∀ e ∈ entries, Fits d e.2) : Fits (d + 1) (.map entries)
  | bool {d : ℕ} (b : Bool) : Fits (d + 1) (.bool b)
  | null {d : ℕ} : Fits (d + 1) .null

/-- An item may be nested less deep. -/
theorem Fits.mono {d d' : ℕ} {v : Value} (h : Fits d v) (hd : d ≤ d') : Fits d' v := by
  induction h generalizing d' with
  | uint h | nint h | bytes h | text h | bool b | null =>
    obtain ⟨n, rfl⟩ : ∃ n, d' = n + 1 := ⟨d' - 1, by omega⟩
    first
    | exact .uint h
    | exact .nint h
    | exact .bytes h
    | exact .text h
    | exact .bool _
    | exact .null
  | array hlength _ ih =>
    obtain ⟨n, rfl⟩ : ∃ n, d' = n + 1 := ⟨d' - 1, by omega⟩
    exact .array hlength fun item hitem => ih item hitem (by omega)
  | map hlength hkeys _ ih =>
    obtain ⟨n, rfl⟩ : ∃ n, d' = n + 1 := ⟨d' - 1, by omega⟩
    exact .map hlength hkeys fun e he => ih e he (by omega)

end Value

/-! ## Reading -/

def readText (input : List UInt8) : Option (List Char × List UInt8) := do
  let (bytes, rest) ← readString 3 input
  return (← Utf8.decode bytes, rest)

/-- `count` times, one after the other. -/
def readMany {α : Type} (read : List UInt8 → Option (α × List UInt8)) :
    ℕ → List UInt8 → Option (List α × List UInt8)
  | 0, input => some ([], input)
  | count + 1, input => do
    let (a, rest) ← read input
    let (as, rest) ← readMany read count rest
    return (a :: as, rest)

def readEntry (read : List UInt8 → Option (Value × List UInt8)) (input : List UInt8) :
    Option ((List Char × Value) × List UInt8) := do
  let (key, rest) ← readText input
  let (value, rest) ← read rest
  return ((key, value), rest)

/-- Read an item that is nested at most `d` deep. -/
def decode : ℕ → List UInt8 → Option (Value × List UInt8)
  | 0, _ => none
  | d + 1, input =>
    match readHead input with
    | none => none
    | some (0, n, rest) => some (.uint n, rest)
    | some (1, n, rest) => some (.nint n, rest)
    | some (2, n, rest) =>
      if n ≤ rest.length then some (.bytes (rest.take n), rest.drop n) else none
    | some (3, _, _) => (readText input).map fun (s, rest) => (.text s, rest)
    | some (4, n, rest) => (readMany (decode d) n rest).map fun (items, rest) => (.array items, rest)
    | some (5, n, rest) =>
      (readMany (readEntry (decode d)) n rest).map fun (entries, rest) => (.map entries, rest)
    | some (7, 20, rest) => some (.bool false, rest)
    | some (7, 21, rest) => some (.bool true, rest)
    | some (7, 22, rest) => some (.null, rest)
    | _ => none

theorem readText_encodeText {s : List Char} (h : (Utf8.encode s).length < 2 ^ 64)
    (rest : List UInt8) : readText (Value.encodeText s ++ rest) = some (s, rest) := by
  rw [readText, Value.encodeText, readString_encode (by decide) h]
  dsimp only [bind, Option.bind]
  rw [Utf8.decode_encode]
  rfl

/-- What is read one by one is read one after the other. -/
theorem readMany_flatMap {α : Type} {read : List UInt8 → Option (α × List UInt8)}
    {write : α → List UInt8} {as : List α}
    (h : ∀ a ∈ as, ∀ rest, read (write a ++ rest) = some (a, rest)) (rest : List UInt8) :
    readMany read as.length (as.flatMap write ++ rest) = some (as, rest) := by
  induction as with
  | nil => rfl
  | cons a as ih =>
    obtain ⟨ha, has⟩ := List.forall_mem_cons.1 h
    rw [List.length_cons, List.flatMap_cons, List.append_assoc, readMany, ha]
    dsimp only [bind, Option.bind]
    rw [ih has]
    rfl

theorem Value.encodeItems_eq (items : List Value) : encodeItems items = items.flatMap encode := by
  induction items with
  | nil => rfl
  | cons item items ih => rw [encodeItems, ih, List.flatMap_cons]

/-- An entry of a map, as it is written. -/
def Value.encodeEntry (e : List Char × Value) : List UInt8 := encodeText e.1 ++ encode e.2

theorem Value.encodeEntries_eq (entries : List (List Char × Value)) :
    encodeEntries entries = entries.flatMap encodeEntry := by
  induction entries with
  | nil => rfl
  | cons e entries ih => rw [encodeEntries, ih, List.flatMap_cons, encodeEntry]

/-- **An item is read as it was written**, whatever comes after it. -/
theorem decode_encode {d : ℕ} {v : Value} (h : v.Fits d) (rest : List UInt8) :
    decode d (v.encode ++ rest) = some (v, rest) := by
  induction h generalizing rest with
  | uint h =>
    rw [Value.encode, decode, readHead_head (by decide) h]
    rfl
  | nint h =>
    rw [Value.encode, decode, readHead_head (by decide) h]
    rfl
  | @bytes d b h =>
    rw [Value.encode, decode, List.append_assoc, readHead_head (by decide) h]
    change (if b.length ≤ (b ++ rest).length then
      some (Value.bytes ((b ++ rest).take b.length), (b ++ rest).drop b.length) else none) = _
    rw [if_pos (by rw [List.length_append]; omega), List.take_left, List.drop_left]
  | @text d s h =>
    have hhead : readHead (Value.encodeText s ++ rest) =
        some (3, (Utf8.encode s).length, Utf8.encode s ++ rest) := by
      rw [Value.encodeText, List.append_assoc, readHead_head (by decide) h]
    rw [Value.encode, decode, hhead]
    change (readText (Value.encodeText s ++ rest)).map (fun p => (Value.text p.1, p.2)) = _
    rw [readText_encodeText h]
    rfl
  | @array d items hlength _ ih =>
    rw [Value.encode, decode, List.append_assoc, readHead_head (by decide) hlength]
    change (readMany (decode d) items.length (Value.encodeItems items ++ rest)).map
      (fun p => (Value.array p.1, p.2)) = _
    rw [Value.encodeItems_eq, readMany_flatMap ih]
    rfl
  | @map d entries hlength hkeys _ ih =>
    have hentry : ∀ e ∈ entries, ∀ rest,
        readEntry (decode d) (Value.encodeEntry e ++ rest) = some (e, rest) := by
      intro e he rest
      rw [readEntry, Value.encodeEntry, List.append_assoc, readText_encodeText (hkeys e he)]
      dsimp only [bind, Option.bind]
      rw [ih e he]
      rfl
    rw [Value.encode, decode, List.append_assoc, readHead_head (by decide) hlength]
    change (readMany (readEntry (decode d)) entries.length
      (Value.encodeEntries entries ++ rest)).map (fun p => (Value.map p.1, p.2)) = _
    rw [Value.encodeEntries_eq, readMany_flatMap hentry]
    rfl
  | bool b =>
    rw [Value.encode, decode, readHead_head (by decide) (by split <;> decide)]
    cases b <;> rfl
  | null =>
    rw [Value.encode, decode, readHead_head (by decide) (by decide)]
    rfl

/-- No head is of indefinite length. -/
theorem head?_head (major n : ℕ) :
    ∃ b, (head major n).head? = some b ∧ b.toNat % 32 < 28 := by
  unfold head
  split
  · next hn =>
    refine ⟨_, rfl, ?_⟩
    rw [UInt8.toNat_ofNat']
    omega
  · have hexp := widthExp_le n
    refine ⟨_, rfl, ?_⟩
    rw [UInt8.toNat_ofNat']
    omega

/-- No item starts like one of indefinite length. -/
theorem head?_encode (v : Value) : ∃ b, v.encode.head? = some b ∧ b.toNat % 32 < 28 := by
  have happend : ∀ (major n : ℕ) (rest : List UInt8),
      ∃ b, (head major n ++ rest).head? = some b ∧ b.toNat % 32 < 28 := by
    intro major n rest
    obtain ⟨b, hb, hlow⟩ := head?_head major n
    exact ⟨b, by rw [List.head?_append, hb]; rfl, hlow⟩
  cases v with
  | uint n => exact head?_head 0 n
  | nint n => exact head?_head 1 n
  | bytes b => exact happend 2 _ _
  | text s => exact happend 3 _ _
  | array items => exact happend 4 _ _
  | map entries => exact happend 5 _ _
  | bool b => exact head?_head 7 _
  | null => exact head?_head 7 22

/-! ## How long an item is -/

theorem length_encode_uint_le (n : ℕ) : (Value.uint n).encode.length ≤ 9 := length_head_le 0 n

theorem length_encode_bytes_le (b : List UInt8) : (Value.bytes b).encode.length ≤ 9 + b.length := by
  rw [Value.encode, List.length_append]
  exact Nat.add_le_add_right (length_head_le 2 _) _

theorem length_encode_bool_le (b : Bool) : (Value.bool b).encode.length ≤ 9 := length_head_le 7 _

theorem length_encodeText_le (s : List Char) :
    (Value.encodeText s).length ≤ 9 + (Utf8.encode s).length := by
  rw [Value.encodeText, List.length_append]
  exact Nat.add_le_add_right (length_head_le 3 _) _

/-- What an entry of a map takes. -/
theorem length_encodeEntries_cons_le {name : String} {v : Value}
    {entries : List (List Char × Value)} {n k m : ℕ}
    (hname : (Utf8.encode name.toList).length = n) (hv : v.encode.length ≤ k)
    (hentries : (Value.encodeEntries entries).length ≤ m) :
    (Value.encodeEntries ((name.toList, v) :: entries)).length ≤ 9 + n + k + m := by
  rw [Value.encodeEntries, List.length_append, List.length_append]
  have htext := length_encodeText_le name.toList
  omega

theorem length_encode_map_le {entries : List (List Char × Value)} {m : ℕ}
    (h : (Value.encodeEntries entries).length ≤ m) : (Value.map entries).encode.length ≤ 9 + m := by
  rw [Value.encode, List.length_append]
  exact Nat.add_le_add (length_head_le 5 _) h

theorem length_encode_array_le {items : List Value} {b : ℕ}
    (h : ∀ item ∈ items, item.encode.length ≤ b) :
    (Value.array items).encode.length ≤ 9 + items.length * b := by
  have hitems : (Value.encodeItems items).length ≤ items.length * b := by
    induction items with
    | nil => exact Nat.zero_le _
    | cons item items ih =>
      have hitem := h item (.head _)
      have hrest := ih fun item hitem => h item (.tail _ hitem)
      rw [Value.encodeItems, List.length_append, List.length_cons, Nat.succ_mul]
      omega
  rw [Value.encode, List.length_append]
  exact Nat.add_le_add (length_head_le 4 _) hitems

end Cbor
