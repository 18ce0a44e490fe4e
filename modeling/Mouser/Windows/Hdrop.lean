import Mouser.Lib.Utf8
import Mouser.State.Codec

/-!
# File lists on the Windows clipboard

A copied file travels as a `file://` URI. `pathToFileUri` turns the backslashes of a path and
escapes each byte that is not plain, and `fileUriToPath` undoes both. A drive path and a UNC path
differ in the slashes in front: the drive path gets one more, which the way back drops again before
a drive letter.
-/

namespace Mouser

namespace Hdrop

/-! ## The code -/

/-- `char::replace` of one character by another. -/
def replace (a b : Char) (cs : List Char) : List Char := cs.map fun c => if c = a then b else c

/-- The characters of a URI path that are written as they are. -/
def passesThrough (c : Char) : Bool :=
  ('A' ≤ c ∧ c ≤ 'Z') ∨ ('a' ≤ c ∧ c ≤ 'z') ∨ ('0' ≤ c ∧ c ≤ '9') ∨
    c ∈ ['/', '-', '_', '.', '~', ':']

/-- A digit of `{:X}`. -/
def upperHexDigit (n : ℕ) : Char := if n < 10 then .ofNat (48 + n) else .ofNat (55 + n)

/-- `%` and `{byte:02X}`. -/
def escapeByte (b : UInt8) : List Char :=
  ['%', upperHexDigit (b.toNat / 16), upperHexDigit (b.toNat % 16)]

/-- One character of a URI path. -/
def encodeChar (c : Char) : List Char :=
  if passesThrough c then [c] else (String.utf8EncodeChar c).flatMap escapeByte

/-- Convert a Windows path to a `file://` URI. -/
def pathToFileUri (path : String) : String :=
  let forward := replace '\\' '/' path.toList
  let encoded := forward.flatMap encodeChar
  .ofList <|
    if encoded.head? = some '/' then "file://".toList ++ encoded else "file:///".toList ++ encoded

/-- `str::strip_prefix`. -/
def stripPrefix (front cs : List Char) : Option (List Char) :=
  if front.isPrefixOf cs then some (cs.drop front.length) else none

/-- `char::is_ascii_alphabetic`. -/
def isAsciiAlphabetic (c : Char) : Bool := ('A' ≤ c ∧ c ≤ 'Z') ∨ ('a' ≤ c ∧ c ≤ 'z')

/-- Whether the text begins with a drive letter and a colon. -/
def isDrivePrefixed : List Char → Bool
  | c :: ':' :: _ => isAsciiAlphabetic c
  | _ => false

/-- The byte that two hexadecimal digits in front stand for. -/
def escapedByte : List UInt8 → Option UInt8
  | h :: l :: _ => do
    let h ← hexNibble (.ofNat h.toNat)
    let l ← hexNibble (.ofNat l.toNat)
    return .ofNat (h * 16 + l)
  | _ => none

/-- The bytes that `%XX` escapes stand for; a malformed escape is passed through. -/
def percentDecodeBytes : List UInt8 → List UInt8
  | [] => []
  | b :: bytes =>
    match if b = 0x25 then escapedByte bytes else none with
    | some byte => byte :: percentDecodeBytes (bytes.drop 2)
    | none => b :: percentDecodeBytes bytes
termination_by bytes => bytes.length
decreasing_by all_goals simp only [List.length_drop, List.length_cons]; omega

/-- Decode the `%XX` escapes of a URI path. -/
def percentDecode (cs : List Char) : List Char :=
  Utf8.lossy (percentDecodeBytes (Utf8.encode cs))

/-- Convert a `file://` URI to a Windows path. -/
def fileUriToPath (uri : String) : Option String := do
  let rest ← stripPrefix "file://".toList uri.toList
  let trimmed :=
    match stripPrefix ['/'] rest with
    | some after => if isDrivePrefixed after then after else rest
    | none => rest
  let decoded := percentDecode trimmed
  return .ofList (replace '/' '\\' decoded)

/-! ## Escapes -/

theorem hexNibble_upperHexDigit {n : ℕ} (h : n < 16) : hexNibble (upperHexDigit n) = some n := by
  revert n
  decide

theorem upperHexDigit_ascii {n : ℕ} (h : n < 16) : (upperHexDigit n).toNat < 0x80 := by
  revert n
  decide

/-- An escaped byte is read back, whatever is behind it. -/
theorem percentDecodeBytes_escapeByte (b : UInt8) (rest : List UInt8) :
    percentDecodeBytes (Utf8.encode (escapeByte b) ++ rest) = b :: percentDecodeBytes rest := by
  have hb := b.toNat_lt
  have hhi : b.toNat / 16 < 16 := by omega
  have hlo : b.toNat % 16 < 16 := by omega
  have hchar (n : ℕ) (hn : n < 16) :
      hexNibble (.ofNat (UInt8.ofNat (upperHexDigit n).toNat).toNat) = some n := by
    have hascii := upperHexDigit_ascii hn
    rw [UInt8.toNat_ofNat_of_lt' (lt_trans hascii (by decide)), Char.ofNat_toNat,
      hexNibble_upperHexDigit hn]
  have hbytes : Utf8.encode (escapeByte b) =
      [0x25, .ofNat (upperHexDigit (b.toNat / 16)).toNat,
        .ofNat (upperHexDigit (b.toNat % 16)).toNat] := by
    rw [escapeByte, Utf8.encode_cons, Utf8.encode_cons, Utf8.encode_cons, Utf8.encode_nil,
      Utf8.utf8EncodeChar_ascii (upperHexDigit_ascii hhi),
      Utf8.utf8EncodeChar_ascii (upperHexDigit_ascii hlo)]
    rfl
  have hvalue : UInt8.ofNat (b.toNat / 16 * 16 + b.toNat % 16) = b := by
    rw [Nat.div_add_mod']
    exact UInt8.ofNat_toNat
  have hescaped (cs : List UInt8) :
      escapedByte (.ofNat (upperHexDigit (b.toNat / 16)).toNat ::
        .ofNat (upperHexDigit (b.toNat % 16)).toNat :: cs) = some b := by
    simp only [escapedByte, hchar _ hhi, hchar _ hlo, Option.bind_eq_bind, Option.bind_some, hvalue]
    rfl
  rw [hbytes, List.cons_append, List.cons_append, List.cons_append, List.nil_append,
    percentDecodeBytes, if_pos rfl, hescaped]
  rfl

/-- The bytes of an escaped piece are read back, whatever is behind it. -/
theorem percentDecodeBytes_flatMap (bytes rest : List UInt8) :
    percentDecodeBytes (Utf8.encode (bytes.flatMap escapeByte) ++ rest) =
      bytes ++ percentDecodeBytes rest := by
  induction bytes with
  | nil => rfl
  | cons b bytes ih =>
    rw [List.flatMap_cons, Utf8.encode_append, List.append_assoc, percentDecodeBytes_escapeByte, ih,
      List.cons_append]

/-- A byte that is no `%` is passed through. -/
theorem percentDecodeBytes_cons {b : UInt8} (h : b ≠ 0x25) (rest : List UInt8) :
    percentDecodeBytes (b :: rest) = b :: percentDecodeBytes rest := by
  rw [percentDecodeBytes, if_neg h]

/-- What is written as it is is ASCII and no `%`. -/
theorem passesThrough_bounds {c : Char} (h : passesThrough c = true) :
    c.toNat < 0x80 ∧ c ≠ '%' := by
  refine ⟨?_, ?_⟩
  · simp only [passesThrough, decide_eq_true_eq] at h
    rcases h with h | h | h | h
    · exact lt_of_le_of_lt h.2 (by decide)
    · exact lt_of_le_of_lt h.2 (by decide)
    · exact lt_of_le_of_lt h.2 (by decide)
    · simp only [List.mem_cons, List.not_mem_nil, or_false] at h
      rcases h with rfl | rfl | rfl | rfl | rfl | rfl <;> decide
  · rintro rfl
    cases h

/-- The bytes of an encoded character are read back, whatever is behind it. -/
theorem percentDecodeBytes_encodeChar (c : Char) (rest : List UInt8) :
    percentDecodeBytes (Utf8.encode (encodeChar c) ++ rest) =
      String.utf8EncodeChar c ++ percentDecodeBytes rest := by
  unfold encodeChar
  split
  · next hplain =>
    obtain ⟨hascii, hne⟩ := passesThrough_bounds hplain
    have hbyte : UInt8.ofNat c.toNat ≠ 0x25 := by
      intro heq
      have hval := congrArg UInt8.toNat heq
      rw [UInt8.toNat_ofNat_of_lt' (lt_trans hascii (by decide))] at hval
      exact hne (Char.toNat_inj.1 hval)
    rw [Utf8.encode_cons, Utf8.encode_nil, List.append_nil, Utf8.utf8EncodeChar_ascii hascii,
      List.singleton_append, percentDecodeBytes_cons hbyte, List.singleton_append]
  · exact percentDecodeBytes_flatMap _ rest

/-- **Percent-encoding is undone.** -/
theorem percentDecode_flatMap (cs : List Char) : percentDecode (cs.flatMap encodeChar) = cs := by
  have hbytes : percentDecodeBytes (Utf8.encode (cs.flatMap encodeChar)) = Utf8.encode cs := by
    induction cs with
    | nil => simp [percentDecodeBytes]
    | cons c cs ih =>
      rw [List.flatMap_cons, Utf8.encode_append, percentDecodeBytes_encodeChar, ih,
        Utf8.encode_cons]
  rw [percentDecode, hbytes, Utf8.lossy_encode]

/-- Slashes that were backslashes are turned back, when there were no slashes before. -/
theorem replace_replace {a b : Char} {cs : List Char} (h : b ∉ cs) :
    replace b a (replace a b cs) = cs := by
  rw [replace, replace, List.map_map]
  conv_rhs => rw [← List.map_id cs]
  refine List.map_congr_left fun c hc => ?_
  rw [Function.comp_apply, id]
  by_cases hca : c = a
  · rw [if_pos hca, if_pos rfl, hca]
  · rw [if_neg hca, if_neg]
    rintro rfl
    exact h hc

/-! ## Paths -/

/-- An absolute path on a drive. -/
def IsDrivePath (path : String) : Prop :=
  ∃ letter rest, isAsciiAlphabetic letter = true ∧ path.toList = letter :: ':' :: '\\' :: rest

/-- A path on a server. -/
def IsUncPath (path : String) : Prop := ∃ rest, path.toList = '\\' :: '\\' :: rest

theorem isAsciiAlphabetic_bounds {c : Char} (h : isAsciiAlphabetic c = true) :
    passesThrough c = true ∧ c ≠ '/' ∧ c ≠ '\\' := by
  refine ⟨?_, ?_, ?_⟩
  · simp only [isAsciiAlphabetic, passesThrough, decide_eq_true_eq] at h ⊢
    tauto
  · rintro rfl
    cases h
  · rintro rfl
    cases h

theorem stripPrefix_append (front cs : List Char) : stripPrefix front (front ++ cs) = some cs := by
  rw [stripPrefix, if_pos (List.isPrefixOf_iff_prefix.2 (List.prefix_append front cs)),
    List.drop_left' rfl]

/-- A path is restored from what is left of its URI without the slashes in front. -/
theorem replace_percentDecode {path : String} (h : '/' ∉ path.toList) :
    String.ofList (replace '/' '\\'
      (percentDecode ((replace '\\' '/' path.toList).flatMap encodeChar))) = path := by
  rw [percentDecode_flatMap, replace_replace h, String.ofList_toList]

/-- The slash that a drive path gets is dropped again. -/
theorem fileUriToPath_drive {path : String} (hpath : IsDrivePath path) (h : '/' ∉ path.toList) :
    fileUriToPath (pathToFileUri path) = some path := by
  obtain ⟨letter, rest, hletter, heq⟩ := hpath
  obtain ⟨hpass, hslash, hback⟩ := isAsciiAlphabetic_bounds hletter
  have hencoded : (replace '\\' '/' path.toList).flatMap encodeChar =
      letter :: ':' :: (replace '\\' '/' ('\\' :: rest)).flatMap encodeChar := by
    rw [heq]
    simp only [replace, List.map_cons, if_neg hback, List.flatMap_cons, encodeChar, if_pos hpass]
    rfl
  have hhead : ¬ (letter :: ':' :: (replace '\\' '/' ('\\' :: rest)).flatMap encodeChar).head? =
      some '/' := by
    rw [List.head?_cons, Option.some.injEq]
    exact hslash
  have hdrive : isDrivePrefixed (letter :: ':' ::
      (replace '\\' '/' ('\\' :: rest)).flatMap encodeChar) = true := hletter
  have hfile : "file:///".toList = "file://".toList ++ ['/'] := by decide
  have hrestored := replace_percentDecode h
  rw [hencoded] at hrestored
  simp only [fileUriToPath, pathToFileUri, hencoded, if_neg hhead, String.toList_ofList, hfile,
    List.append_assoc, stripPrefix_append, Option.bind_eq_bind, Option.bind_some, hdrive, if_true,
    hrestored]
  rfl

/-- The slashes of a server path stay: no drive letter is behind the first one. -/
theorem fileUriToPath_unc {path : String} (hpath : IsUncPath path) (h : '/' ∉ path.toList) :
    fileUriToPath (pathToFileUri path) = some path := by
  obtain ⟨rest, heq⟩ := hpath
  have hencoded : (replace '\\' '/' path.toList).flatMap encodeChar =
      ['/'] ++ ('/' :: (replace '\\' '/' rest).flatMap encodeChar) := by
    rw [heq]
    rfl
  have hdrive : isDrivePrefixed ('/' :: (replace '\\' '/' rest).flatMap encodeChar) = false := by
    unfold isDrivePrefixed
    split
    · next hcons =>
      rw [← (List.cons.inj hcons).1]
      rfl
    · rfl
  have hhead : (['/'] ++ ('/' :: (replace '\\' '/' rest).flatMap encodeChar)).head? = some '/' :=
    rfl
  have hrestored := replace_percentDecode h
  rw [hencoded] at hrestored
  simp only [fileUriToPath, pathToFileUri, hencoded, if_pos hhead, String.toList_ofList,
    stripPrefix_append, Option.bind_eq_bind, Option.bind_some, hdrive, Bool.false_eq_true, if_false,
    hrestored]
  rfl

/-- **The round trip of a file path over the Windows clipboard.** -/
theorem fileUriToPath_pathToFileUri (path : String) (hpath : IsDrivePath path ∨ IsUncPath path)
    (h : '/' ∉ path.toList) : fileUriToPath (pathToFileUri path) = some path := by
  rcases hpath with hpath | hpath
  · exact fileUriToPath_drive hpath h
  · exact fileUriToPath_unc hpath h

/-- A path with an escape in it, a space and characters of two and four bytes. -/
theorem fileUriToPath_pathToFileUri_escapes :
    fileUriToPath (pathToFileUri "C:\\a%20b #é?\\𝄞") = some "C:\\a%20b #é?\\𝄞" :=
  fileUriToPath_pathToFileUri "C:\\a%20b #é?\\𝄞"
    (.inl ⟨'C', "a%20b #é?\\𝄞".toList, by decide, by decide⟩) (by decide)

end Hdrop

end Mouser
