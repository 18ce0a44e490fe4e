import Mouser.Clipboard.Canonical
import Mouser.Lib.Utf16
import Mouser.Lib.Utf8
import Mouser.Protocol.Framing

/-!
# Text on the Windows clipboard

Windows keeps text in UTF-16 with CRLF line ends, up to a NUL, in a block that may be longer. What
is read back of a text that was written is the text up to its first NUL, with its line ends in the
form that both ends of a transfer hash (`text_read_back`). So a canonical text without a NUL, and
no other, comes back as it was.
-/

namespace Mouser

namespace ClipboardText

/-! ## The code -/

/-- `raw.chunks_exact(2)` -/
def units : List UInt8 → List UInt16
  | lo :: hi :: rest => u16OfLeBytes [lo, hi] :: units rest
  | _ => []

/-- The loop of `lf_to_crlf`. -/
def expand : Bool → List Char → List Char
  | _, [] => []
  | previousWasCr, ch :: rest =>
    if ch = '\n' ∧ previousWasCr = false then '\r' :: ch :: expand false rest
    else ch :: expand (decide (ch = '\r')) rest

/-- Expand lone LF to CRLF, preserving existing CRLF pairs. -/
def lfToCrlf (s : List Char) : List Char := expand false s

/-- Collapse CRLF pairs to LF, leaving lone CR unchanged. -/
def collapse : List Char → List Char
  | [] => []
  | ch :: rest => if ch = '\r' ∧ rest.head? = some '\n' then collapse rest else ch :: collapse rest

/-- Decode `CF_UNICODETEXT` bytes to the engine's UTF-8/LF form. -/
def cfUnicodetextBytesToEngineUtf8 (raw : List UInt8) : List UInt8 :=
  Utf8.encode (collapse (Utf16.lossy ((units raw).takeWhile (· ≠ 0))))

/-- Encode engine UTF-8/LF text as `CF_UNICODETEXT` UTF-16LE bytes. -/
def engineUtf8ToCfUnicodetextBytes (s : List Char) : List UInt8 :=
  (Utf16.encode (lfToCrlf s)).flatMap u16ToLeBytes ++ u16ToLeBytes 0

/-- `WinClipboard::write` of a text: the block that is handed to Windows. -/
def writeUtf8Text (data : List UInt8) : Option (List UInt8) :=
  (Utf8.decode data).map engineUtf8ToCfUnicodetextBytes

/-! ## Units -/

theorem u16OfLeBytes_u16ToLeBytes (u : UInt16) : u16OfLeBytes (u16ToLeBytes u) = u := by
  have hu := u.toNat_lt
  rw [u16OfLeBytes, u16ToLeBytes, Framing.ofLeBytes_leBytes (by omega), UInt16.ofNat_toNat]

theorem units_append (us : List UInt16) (rest : List UInt8) :
    units (us.flatMap u16ToLeBytes ++ rest) = us ++ units rest := by
  induction us with
  | nil => rfl
  | cons u us ih =>
    rw [List.flatMap_cons, List.append_assoc, List.cons_append, ← ih]
    exact congrArg (· :: _) (u16OfLeBytes_u16ToLeBytes u)

/-- Nothing behind the terminator is read. -/
theorem takeWhile_units (us : List UInt16) (rest : List UInt8) :
    (units (us.flatMap u16ToLeBytes ++ (u16ToLeBytes 0 ++ rest))).takeWhile (· ≠ 0) =
      us.takeWhile (· ≠ 0) := by
  have hzero : units (u16ToLeBytes 0 ++ rest) = 0 :: units rest := units_append [0] rest
  rw [units_append, hzero]
  induction us with
  | nil => rfl
  | cons u us ih => rw [List.cons_append, List.takeWhile_cons, List.takeWhile_cons, ih]

/-! ## Line ends -/

theorem takeWhile_expand (previousWasCr : Bool) (cs : List Char) :
    (expand previousWasCr cs).takeWhile (· ≠ '\x00') =
      expand previousWasCr (cs.takeWhile (· ≠ '\x00')) := by
  induction cs generalizing previousWasCr with
  | nil => rfl
  | cons ch rest ih =>
    by_cases hnul : ch = '\x00'
    · subst hnul
      rfl
    · rw [List.takeWhile_cons, if_pos (decide_eq_true hnul), expand, expand]
      split
      · rw [List.takeWhile_cons, if_pos (by decide), List.takeWhile_cons,
          if_pos (decide_eq_true hnul), ih]
      · rw [List.takeWhile_cons, if_pos (decide_eq_true hnul), ih]

/-- **The line ends of a text that was expanded** are those that a collapse leaves of it; so it is
behind a CR. -/
theorem collapse_expand (cs : List Char) :
    collapse (expand false cs) = collapse cs ∧
      collapse ('\r' :: expand true cs) = collapse ('\r' :: cs) := by
  induction cs with
  | nil => exact ⟨rfl, rfl⟩
  | cons ch rest ih =>
    by_cases hlf : ch = '\n'
    · subst hlf
      simp [expand, collapse, ih.1]
    · by_cases hcr : ch = '\r'
      · subst hcr
        simp [expand, collapse, ih.2]
      · simp [expand, collapse, hlf, hcr, ih.1]

/-! ## The same line ends in UTF-8 -/

theorem replaceCrlf_cons {b : UInt8} (hb : b ≠ 13) (bytes : List UInt8) :
    replaceCrlf (b :: bytes) = b :: replaceCrlf bytes := by
  cases bytes with
  | nil => rfl
  | cons c rest => rw [replaceCrlf, if_neg fun h => hb h.1]

theorem replaceCrlf_append {front : List UInt8} (hfront : 13 ∉ front) (bytes : List UInt8) :
    replaceCrlf (front ++ bytes) = front ++ replaceCrlf bytes := by
  induction front with
  | nil => rfl
  | cons b front ih =>
    rw [List.mem_cons, not_or] at hfront
    rw [List.cons_append, replaceCrlf_cons (Ne.symm hfront.1), ih hfront.2, List.cons_append]

theorem replaceCrlf_cr (bytes : List UInt8) : replaceCrlf (13 :: bytes) =
    if bytes.head? = some 10 then replaceCrlf bytes else 13 :: replaceCrlf bytes := by
  cases bytes with
  | nil => rfl
  | cons c rest =>
    rw [replaceCrlf, List.head?_cons]
    by_cases hc : c = 10
    · subst hc
      rw [if_pos ⟨rfl, rfl⟩, if_pos rfl, replaceCrlf_cons (by decide)]
    · rw [if_neg fun h => hc h.2, if_neg fun h => hc (Option.some.inj h)]

theorem head?_encode (cs : List Char) :
    (Utf8.encode cs).head? = some 10 ↔ cs.head? = some '\n' := by
  cases cs with
  | nil => simp
  | cons c cs =>
    rw [Utf8.encode_cons, List.head?_cons, Option.some_inj]
    refine ⟨fun h => ?_, fun h => ?_⟩
    · cases hc : String.utf8EncodeChar c with
      | nil =>
        have hlength := String.length_utf8EncodeChar c
        have hpos := c.utf8Size_pos
        rw [hc, List.length_nil] at hlength
        omega
      | cons b bytes =>
        rw [hc, List.cons_append, List.head?_cons, Option.some_inj] at h
        subst h
        have hmem : 10 ∈ String.utf8EncodeChar c := hc ▸ List.mem_cons_self
        have hval := Utf8.toNat_of_mem_encode hmem (by decide)
        rw [← Char.ofNat_toNat c, hval]
        rfl
    · subst h
      rfl

/-- The two collapses are one. -/
theorem encode_collapse (cs : List Char) :
    Utf8.encode (collapse cs) = replaceCrlf (Utf8.encode cs) := by
  induction cs with
  | nil => rfl
  | cons ch rest ih =>
    by_cases hcr : ch = '\r'
    · subst hcr
      have hbyte : String.utf8EncodeChar '\r' = [13] := by decide
      rw [Utf8.encode_cons, hbyte, List.singleton_append, replaceCrlf_cr, collapse]
      by_cases hlf : rest.head? = some '\n'
      · rw [if_pos ⟨rfl, hlf⟩, if_pos ((head?_encode rest).2 hlf), ih]
      · rw [if_neg fun h => hlf h.2, if_neg fun h => hlf ((head?_encode rest).1 h),
          Utf8.encode_cons, hbyte, List.singleton_append, ih]
    · have hbytes : 13 ∉ String.utf8EncodeChar ch := fun hmem => by
        have hval := Utf8.toNat_of_mem_encode hmem (by decide)
        exact hcr (by rw [← Char.ofNat_toNat ch, hval]; rfl)
      rw [collapse, if_neg fun h => hcr h.1, Utf8.encode_cons, Utf8.encode_cons, ih,
        replaceCrlf_append hbytes]

/-! ## What is read back -/

/-- A text that was written, and whatever stands behind it in the block. -/
theorem read_write (cs : List Char) (slack : List UInt8) :
    cfUnicodetextBytesToEngineUtf8 (engineUtf8ToCfUnicodetextBytes cs ++ slack) =
      crlfToLf ((Utf8.encode cs).takeWhile (· ≠ 0)) := by
  rw [cfUnicodetextBytesToEngineUtf8, engineUtf8ToCfUnicodetextBytes, List.append_assoc,
    takeWhile_units, Utf16.takeWhile_encode, Utf16.lossy_encode, lfToCrlf, takeWhile_expand,
    (collapse_expand _).1, encode_collapse, crlfToLf_eq, Utf8.takeWhile_encode]

theorem length_crlfToLf_le (bytes : List UInt8) : (crlfToLf bytes).length ≤ bytes.length := by
  rw [crlfToLf_eq]
  exact length_replaceCrlf_le bytes

/-- A canonical text without a NUL, and no other, is not changed. -/
theorem crlfToLf_takeWhile_eq_self_iff (data : List UInt8) :
    crlfToLf (data.takeWhile (· ≠ 0)) = data ↔ canonical .utf8Text data = data ∧ 0 ∉ data := by
  have hprefix : data.takeWhile (· ≠ 0) <+: data := List.takeWhile_prefix _
  refine ⟨fun h => ?_, ?_⟩
  · have hle := length_crlfToLf_le (data.takeWhile (· ≠ 0))
    rw [h] at hle
    have hall : data.takeWhile (· ≠ 0) = data := hprefix.eq_of_length_le hle
    have hnul : 0 ∉ data := fun hmem => by
      have hne := List.mem_takeWhile_imp (hall.symm ▸ hmem)
      exact of_decide_eq_true hne rfl
    rw [hall] at h
    refine ⟨?_, hnul⟩
    rw [canonical, canonicalText, h, List.rdropWhile_eq_self_iff]
    intro hne hzero
    exact hnul (of_decide_eq_true hzero ▸ List.getLast_mem hne)
  · rintro ⟨hcanonical, hnul⟩
    have hall : data.takeWhile (· ≠ 0) = data :=
      List.takeWhile_eq_self_iff.2 fun b hb => decide_eq_true fun hzero => hnul (hzero ▸ hb)
    rw [canonical, canonicalText] at hcanonical
    have hsuffix : data <+: crlfToLf data := by
      have h := List.rdropWhile_prefix (· = 0) (crlfToLf data)
      rwa [hcanonical] at h
    rw [hall]
    exact (hsuffix.eq_of_length_le (length_crlfToLf_le data)).symm

/-- **Text on the clipboard is read back.** Of a text that was written, whatever stands behind it
in the block that Windows hands out, the text up to its first NUL is read, with its CRLFs collapsed.
That is the text itself just when it is canonical and has no NUL. -/
theorem text_read_back {data block : List UInt8} (hwritten : writeUtf8Text data = some block)
    (slack : List UInt8) :
    cfUnicodetextBytesToEngineUtf8 (block ++ slack) = crlfToLf (data.takeWhile (· ≠ 0)) ∧
    (cfUnicodetextBytesToEngineUtf8 (block ++ slack) = data ↔
      canonical .utf8Text data = data ∧ 0 ∉ data) := by
  obtain ⟨cs, hdecode, rfl⟩ := Option.map_eq_some_iff.1 hwritten
  have hread := read_write cs slack
  rw [Utf8.encode_of_decode hdecode] at hread
  rw [hread]
  exact ⟨rfl, crlfToLf_takeWhile_eq_self_iff data⟩

/-- Two lines, and the block that holds them. -/
def twoLines : List UInt8 := [97, 10, 98]

def twoLinesBlock : List UInt8 := [97, 0, 13, 0, 10, 0, 98, 0, 0, 0]

theorem writeUtf8Text_twoLines : writeUtf8Text twoLines = some twoLinesBlock := by
  have hdecode : Utf8.decode twoLines = some ['a', '\n', 'b'] :=
    Utf8.decode_encode ['a', '\n', 'b']
  rw [writeUtf8Text, hdecode]
  decide

theorem text_read_back_twoLines :
    writeUtf8Text twoLines = some twoLinesBlock ∧
    cfUnicodetextBytesToEngineUtf8 (twoLinesBlock ++ [255]) =
      crlfToLf (twoLines.takeWhile (· ≠ 0)) ∧
    (cfUnicodetextBytesToEngineUtf8 (twoLinesBlock ++ [255]) = twoLines ↔
      canonical .utf8Text twoLines = twoLines ∧ 0 ∉ twoLines) :=
  ⟨writeUtf8Text_twoLines, text_read_back writeUtf8Text_twoLines [255]⟩

end ClipboardText

end Mouser
