import Mathlib.Data.Bool.AllAny
import Mouser.Lib.Search
import Mouser.Lib.Utf8
import Mouser.State.Codec

/-!
# HTML on the Windows clipboard

Windows wants a fragment wrapped in a document behind a description header that holds the byte
offsets of the fragment, `encode`, and a reader finds the fragment by these offsets, `decode`. The
offsets depend on the header's own length, which their fixed width makes a constant, and the header
ends at the first `<`: nothing in the fragment, whatever it imitates, comes before that.
-/

namespace Mouser

namespace CfHtml

open Search (find)

/-! ## The code -/

/-- The marker that precedes the copied fragment. -/
def startFragmentMarker : List Char := "<!--StartFragment-->".toList

/-- The marker that follows the copied fragment. -/
def endFragmentMarker : List Char := "<!--EndFragment-->".toList

/-- HTML that opens the document wrapping the fragment. -/
def docPrefix : List Char := "<html><body>".toList

/-- HTML that closes the document wrapping the fragment. -/
def docSuffix : List Char := "</body></html>".toList

/-- The width of each offset. -/
def offsetWidth : ℕ := 10

/-- `{n:0width$}`: a number that does not fit is written in full. -/
def zeroPadded (width n : ℕ) : List Char :=
  if n < 10 ^ width then paddedDec width n else Nat.toDigits 10 n

/-- The header's first line. -/
def versionLine : List Char := "Version:0.9\r\n".toList

/-- The names of the offsets, in the order of the lines. -/
def startHtmlName : List Char := "StartHTML:".toList
def endHtmlName : List Char := "EndHTML:".toList
def startFragmentName : List Char := "StartFragment:".toList
def endFragmentName : List Char := "EndFragment:".toList

/-- One line of the header. -/
def offsetLine (name : List Char) (offset : ℕ) : List Char :=
  name ++ (zeroPadded offsetWidth offset ++ ['\r', '\n'])

/-- The description header with the four byte offsets. -/
def headerWithOffsets (startHtml endHtml startFragment endFragment : ℕ) : List Char :=
  versionLine ++ offsetLine startHtmlName startHtml ++ offsetLine endHtmlName endHtml ++
    offsetLine startFragmentName startFragment ++ offsetLine endFragmentName endFragment

/-- Wrap a raw HTML fragment. -/
def encode (fragment : List UInt8) : List UInt8 :=
  let headerLen := (Utf8.encode (headerWithOffsets 0 0 0 0)).length
  let startHtml := headerLen
  let startFragment :=
    headerLen + (Utf8.encode docPrefix).length + (Utf8.encode startFragmentMarker).length
  let endFragment := startFragment + fragment.length
  let endHtml :=
    endFragment + (Utf8.encode endFragmentMarker).length + (Utf8.encode docSuffix).length
  let header := headerWithOffsets startHtml endHtml startFragment endFragment
  Utf8.encode header ++ Utf8.encode docPrefix ++ Utf8.encode startFragmentMarker ++ fragment ++
    Utf8.encode endFragmentMarker ++ Utf8.encode docSuffix

/-- `char::is_ascii_digit`. -/
def isAsciiDigit (c : Char) : Bool := '0' ≤ c ∧ c ≤ '9'

/-- A decimal offset of the header, by the name in front of it. -/
def headerOffset (header key : List Char) : Option UInt64 := do
  let i ← find header key
  let after := header.drop (i + key.length)
  parseU64 (after.takeWhile isAsciiDigit)

/-- `<[u8]>::get` on a range. -/
def slice (bytes : List UInt8) (start stop : ℕ) : Option (List UInt8) :=
  if start ≤ stop ∧ stop ≤ bytes.length then some ((bytes.take stop).drop start) else none

/-- The byte range that the header's offsets bound. -/
def fragmentRangeFromHeader (payload : List UInt8) : Option (UInt64 × UInt64) := do
  let found ← find payload (Utf8.encode "<".toList)
  let headerEnd := min found payload.length
  let header ← (slice payload 0 headerEnd).bind Utf8.decode
  let start ← headerOffset header startFragmentName
  let stop ← headerOffset header endFragmentName
  if start ≤ stop ∧ stop.toNat ≤ payload.length then some (start, stop) else none

/-- The bytes between the comment markers. -/
def fragmentBetweenMarkers (payload : List UInt8) : Option (List UInt8) := do
  let found ← find payload (Utf8.encode startFragmentMarker)
  let start := found + (Utf8.encode startFragmentMarker).length
  let stop ← find payload (Utf8.encode endFragmentMarker)
  slice payload start stop

/-- The raw fragment of a payload: by the header, else by the markers, else all of it. -/
def decode (payload : List UInt8) : List UInt8 :=
  match (fragmentRangeFromHeader payload).bind fun (start, stop) =>
    slice payload start.toNat stop.toNat with
  | some frag => frag
  | none =>
    match fragmentBetweenMarkers payload with
    | some frag => frag
    | none => payload

/-! ## The header -/

theorem isAsciiDigit_of_mem_paddedDec {k n : ℕ} {c : Char} (h : c ∈ paddedDec k n) :
    isAsciiDigit c = true := by
  induction k generalizing n with
  | zero => cases h
  | succ k ih =>
    have hdigit : ∀ d < 10, isAsciiDigit (hexDigit d) = true := by decide
    rcases List.mem_append.1 h with h | h
    · exact ih h
    · rw [List.mem_singleton.1 h]
      exact hdigit _ (Nat.mod_lt _ (by decide))

/-- No letter or bracket is among the digits of an offset. -/
theorem notMem_paddedDec {k n : ℕ} {c : Char} (h : isAsciiDigit c = false) :
    c ∉ paddedDec k n := by
  intro hmem
  rw [isAsciiDigit_of_mem_paddedDec hmem] at h
  cases h

/-- A line has the characters of its name, digits and the line break. -/
theorem forall_mem_offsetLine {P : Char → Prop} {name : List Char} {n : ℕ}
    (hn : n < 10 ^ offsetWidth) (hname : ∀ c ∈ name, P c)
    (hdigit : ∀ c, isAsciiDigit c = true → P c) (hbreak : ∀ c ∈ ['\r', '\n'], P c) :
    ∀ c ∈ offsetLine name n, P c := by
  rw [offsetLine, zeroPadded, if_pos hn]
  intro c hc
  rcases List.mem_append.1 hc with hc | hc
  · exact hname c hc
  rcases List.mem_append.1 hc with hc | hc
  · exact hdigit c (isAsciiDigit_of_mem_paddedDec hc)
  · exact hbreak c hc

theorem notMem_offsetLine {name : List Char} {n : ℕ} {c : Char} (hn : n < 10 ^ offsetWidth)
    (hname : c ∉ name) (hdigit : isAsciiDigit c = false) (hbreak : c ∉ ['\r', '\n']) :
    c ∉ offsetLine name n := by
  intro hmem
  refine forall_mem_offsetLine (P := (· ≠ c)) hn ?_ ?_ ?_ c hmem rfl
  · rintro d hd rfl
    exact hname hd
  · rintro d hd rfl
    rw [hd] at hdigit
    cases hdigit
  · rintro d hd rfl
    exact hbreak hd

/-- A padded offset behind the first occurrence of its name is read back. -/
theorem headerOffset_eq {before name after : List Char} {n : ℕ} (hn : n < 10 ^ offsetWidth)
    (hfirst : find (before ++ (offsetLine name n ++ after)) name = some before.length) :
    ∃ offset : UInt64,
      headerOffset (before ++ (offsetLine name n ++ after)) name = some offset ∧
        offset.toNat = n := by
  have hlt : n < 2 ^ 64 := hn.trans (by decide)
  have hdrop : (before ++ (offsetLine name n ++ after)).drop (before.length + name.length) =
      paddedDec offsetWidth n ++ '\r' :: '\n' :: after := by
    rw [offsetLine, zeroPadded, if_pos hn, List.append_assoc, ← List.append_assoc,
      List.drop_left' List.length_append, List.append_assoc]
    rfl
  have hdigits : (paddedDec offsetWidth n ++ '\r' :: '\n' :: after).takeWhile isAsciiDigit =
      paddedDec offsetWidth n := by
    rw [List.takeWhile_append_of_pos fun c hc => isAsciiDigit_of_mem_paddedDec hc,
      List.takeWhile_cons_of_neg (by decide), List.append_nil]
  refine ⟨.ofNatLT n hlt, ?_, UInt64.toNat_ofNatLT⟩
  simp only [headerOffset, hfirst, Option.bind_eq_bind, Option.bind_some, hdrop, hdigits]
  exact parseU64_paddedDec_of_lt (by decide) hn hlt

/-- The names of the document's offsets begin as those of the fragment's. -/
theorem startHtmlName_eq : startHtmlName = 'S' :: ("tart".toList ++ 'H' :: "TML:".toList) := by
  decide

theorem startFragmentName_eq :
    startFragmentName = 'S' :: ("tart".toList ++ 'F' :: "ragment:".toList) := by
  decide

theorem endHtmlName_eq : endHtmlName = 'E' :: ("nd".toList ++ 'H' :: "TML:".toList) := by
  decide

theorem endFragmentName_eq :
    endFragmentName = 'E' :: ("nd".toList ++ 'F' :: "ragment:".toList) := by
  decide

section
variable {startHtml endHtml startFragment endFragment : ℕ}

theorem find_startFragmentName (hstart : startHtml < 10 ^ offsetWidth)
    (hend : endHtml < 10 ^ offsetWidth) (rest : List Char) :
    find (versionLine ++ offsetLine startHtmlName startHtml ++ offsetLine endHtmlName endHtml ++
        (startFragmentName ++ rest)) startFragmentName =
      some (versionLine ++ offsetLine startHtmlName startHtml ++
        offsetLine endHtmlName endHtml).length := by
  let decoy := "TML:".toList ++
    (zeroPadded offsetWidth startHtml ++ ['\r', '\n'] ++ offsetLine endHtmlName endHtml)
  have hline : offsetLine startHtmlName startHtml ++ offsetLine endHtmlName endHtml =
      'S' :: ("tart".toList ++ 'H' :: decoy) := by
    simp only [offsetLine, startHtmlName_eq, decoy, List.cons_append, List.append_assoc]
  have hnext : 'S' ∉ offsetLine endHtmlName endHtml :=
    notMem_offsetLine hend (by decide) (by decide) (by decide)
  have hdecoy : 'S' ∉ "tart".toList ++ 'H' :: decoy := by
    simp only [decoy, zeroPadded, if_pos hstart, List.mem_append, List.mem_cons, not_or]
    exact ⟨by decide, by decide, by decide, ⟨notMem_paddedDec (by decide), by decide⟩, hnext⟩
  rw [List.append_assoc versionLine, hline, startFragmentName_eq]
  exact Search.find_past_decoy (by decide) hdecoy (by decide)

theorem find_endFragmentName (hstart : startHtml < 10 ^ offsetWidth)
    (hend : endHtml < 10 ^ offsetWidth) (hfragment : startFragment < 10 ^ offsetWidth)
    (rest : List Char) :
    find (versionLine ++ offsetLine startHtmlName startHtml ++ offsetLine endHtmlName endHtml ++
        offsetLine startFragmentName startFragment ++ (endFragmentName ++ rest)) endFragmentName =
      some (versionLine ++ offsetLine startHtmlName startHtml ++ offsetLine endHtmlName endHtml ++
        offsetLine startFragmentName startFragment).length := by
  let decoy := "TML:".toList ++ (zeroPadded offsetWidth endHtml ++ ['\r', '\n'] ++
    offsetLine startFragmentName startFragment)
  have hline : offsetLine endHtmlName endHtml ++ offsetLine startFragmentName startFragment =
      'E' :: ("nd".toList ++ 'H' :: decoy) := by
    simp only [offsetLine, endHtmlName_eq, decoy, List.cons_append, List.append_assoc]
  have hskipped : 'E' ∉ versionLine ++ offsetLine startHtmlName startHtml := by
    rw [List.mem_append, not_or]
    exact ⟨by decide, notMem_offsetLine hstart (by decide) (by decide) (by decide)⟩
  have hnext : 'E' ∉ offsetLine startFragmentName startFragment :=
    notMem_offsetLine hfragment (by decide) (by decide) (by decide)
  have hdecoy : 'E' ∉ "nd".toList ++ 'H' :: decoy := by
    simp only [decoy, zeroPadded, if_pos hend, List.mem_append, List.mem_cons, not_or]
    exact ⟨by decide, by decide, by decide, ⟨notMem_paddedDec (by decide), by decide⟩, hnext⟩
  rw [List.append_assoc (versionLine ++ _), hline, endFragmentName_eq]
  exact Search.find_past_decoy hskipped hdecoy (by decide)

end

/-! ## The header's length -/

theorem le_length_zeroPadded {width n : ℕ} (hwidth : 0 < width) :
    width ≤ (zeroPadded width n).length := by
  unfold zeroPadded
  split
  · rw [length_paddedDec]
  · next h =>
    by_contra hshort
    exact h ((Nat.length_toDigits_le_iff (by decide) hwidth).1 (not_le.1 hshort).le)

theorem length_headerWithOffsets (startHtml endHtml startFragment endFragment : ℕ) :
    (headerWithOffsets startHtml endHtml startFragment endFragment).length =
      65 + (zeroPadded offsetWidth startHtml).length + (zeroPadded offsetWidth endHtml).length +
        (zeroPadded offsetWidth startFragment).length +
        (zeroPadded offsetWidth endFragment).length := by
  have hversion : versionLine.length = 13 := by decide
  have h1 : startHtmlName.length = 10 := by decide
  have h2 : endHtmlName.length = 8 := by decide
  have h3 : startFragmentName.length = 14 := by decide
  have h4 : endFragmentName.length = 12 := by decide
  simp only [headerWithOffsets, offsetLine, List.length_append, hversion, h1, h2, h3, h4,
    List.length_cons, List.length_nil]
  omega

/-- The four offsets fit. -/
structure Fit (startHtml endHtml startFragment endFragment : ℕ) : Prop where
  startHtml_lt : startHtml < 10 ^ offsetWidth
  endHtml_lt : endHtml < 10 ^ offsetWidth
  startFragment_lt : startFragment < 10 ^ offsetWidth
  endFragment_lt : endFragment < 10 ^ offsetWidth

section
variable {startHtml endHtml startFragment endFragment : ℕ}

/-- A header has at least 105 bytes. -/
theorem le_length_header (startHtml endHtml startFragment endFragment : ℕ) :
    105 ≤ (Utf8.encode (headerWithOffsets startHtml endHtml startFragment endFragment)).length := by
  have hpadded (n : ℕ) : 10 ≤ (zeroPadded offsetWidth n).length :=
    le_length_zeroPadded (by decide)
  have h := length_headerWithOffsets startHtml endHtml startFragment endFragment
  have h1 := hpadded startHtml
  have h2 := hpadded endHtml
  have h3 := hpadded startFragment
  have h4 := hpadded endFragment
  have hbytes :=
    Utf8.length_le_length_encode (headerWithOffsets startHtml endHtml startFragment endFragment)
  omega

theorem Fit.forall_mem_header (h : Fit startHtml endHtml startFragment endFragment)
    {P : Char → Prop}
    (hname : ∀ c ∈ versionLine ++ startHtmlName ++ endHtmlName ++ startFragmentName ++
      endFragmentName, P c)
    (hdigit : ∀ c, isAsciiDigit c = true → P c) (hbreak : ∀ c ∈ ['\r', '\n'], P c) :
    ∀ c ∈ headerWithOffsets startHtml endHtml startFragment endFragment, P c := by
  simp only [List.forall_mem_append] at hname
  obtain ⟨⟨⟨⟨hversion, h1⟩, h2⟩, h3⟩, h4⟩ := hname
  simp only [headerWithOffsets, List.forall_mem_append]
  exact ⟨⟨⟨⟨hversion, forall_mem_offsetLine h.startHtml_lt h1 hdigit hbreak⟩,
    forall_mem_offsetLine h.endHtml_lt h2 hdigit hbreak⟩,
    forall_mem_offsetLine h.startFragment_lt h3 hdigit hbreak⟩,
    forall_mem_offsetLine h.endFragment_lt h4 hdigit hbreak⟩

/-- A header whose offsets fit has 105 bytes, whatever the offsets. -/
theorem Fit.length_header (h : Fit startHtml endHtml startFragment endFragment) :
    (Utf8.encode (headerWithOffsets startHtml endHtml startFragment endFragment)).length =
      105 := by
  have hascii : ∀ c, isAsciiDigit c = true → c.toNat < 0x80 := by
    intro c hc
    have hle : c ≤ '9' := (decide_eq_true_iff.1 hc).2
    exact lt_of_le_of_lt hle (by decide)
  rw [Utf8.length_encode_of_ascii (h.forall_mem_header (List.all_iff_forall_prop.1 (by decide))
      hascii (List.all_iff_forall_prop.1 (by decide))),
    length_headerWithOffsets, zeroPadded, if_pos h.startHtml_lt, zeroPadded, if_pos h.endHtml_lt,
    zeroPadded, if_pos h.startFragment_lt, zeroPadded, if_pos h.endFragment_lt]
  simp only [length_paddedDec]
  rfl

/-- The header ends at the first `<`. -/
theorem Fit.notMem_header (h : Fit startHtml endHtml startFragment endFragment) :
    '<' ∉ headerWithOffsets startHtml endHtml startFragment endFragment := by
  intro hmem
  have hne : ∀ c, isAsciiDigit c = true → c ≠ '<' := by
    rintro c hc rfl
    cases hc
  exact h.forall_mem_header (List.all_iff_forall_prop.1 (by decide)) hne
    (List.all_iff_forall_prop.1 (by decide)) '<' hmem rfl

/-- **The header's offsets are read back.** -/
theorem Fit.headerOffset_eq (h : Fit startHtml endHtml startFragment endFragment) :
    (∃ offset : UInt64,
      headerOffset (headerWithOffsets startHtml endHtml startFragment endFragment)
        startFragmentName = some offset ∧ offset.toNat = startFragment) ∧
    ∃ offset : UInt64,
      headerOffset (headerWithOffsets startHtml endHtml startFragment endFragment)
        endFragmentName = some offset ∧ offset.toNat = endFragment := by
  have hline (name : List Char) (n : ℕ) (rest : List Char) :
      offsetLine name n ++ rest = name ++ (zeroPadded offsetWidth n ++ ['\r', '\n'] ++ rest) := by
    rw [offsetLine, List.append_assoc]
  refine ⟨?_, ?_⟩
  · rw [headerWithOffsets, List.append_assoc _ _ (offsetLine endFragmentName endFragment)]
    refine CfHtml.headerOffset_eq h.startFragment_lt ?_
    rw [hline]
    exact find_startFragmentName h.startHtml_lt h.endHtml_lt _
  · rw [headerWithOffsets, ← List.append_nil (offsetLine endFragmentName endFragment)]
    refine CfHtml.headerOffset_eq h.endFragment_lt ?_
    rw [hline]
    exact find_endFragmentName h.startHtml_lt h.endHtml_lt h.startFragment_lt _

end

/-! ## The round trip -/

theorem slice_append (before fragment after : List UInt8) :
    slice (before ++ fragment ++ after) before.length (before.length + fragment.length) =
      some fragment := by
  rw [slice, if_pos (by simp), List.take_left' List.length_append, List.drop_left' rfl]

/-- The header in front of a payload holds the byte offsets of its piece between `before` and
`before ++ fragment`. -/
structure PointsAt (header : List Char) (before fragment : List UInt8) : Prop where
  before_eq : before =
    Utf8.encode header ++ Utf8.encode docPrefix ++ Utf8.encode startFragmentMarker
  notMem : '<' ∉ header
  start_eq : ∃ start : UInt64,
    headerOffset header startFragmentName = some start ∧ start.toNat = before.length
  stop_eq : ∃ stop : UInt64,
    headerOffset header endFragmentName = some stop ∧
      stop.toNat = before.length + fragment.length

/-- What `encode` writes, and that its offsets fit when the payload does. -/
theorem encode_pointsAt {fragment : List UInt8}
    (h : (encode fragment).length < 10 ^ offsetWidth) :
    ∃ header before, PointsAt header before fragment ∧
      encode fragment =
        before ++ fragment ++ (Utf8.encode endFragmentMarker ++ Utf8.encode docSuffix) := by
  have hzero : Fit 0 0 0 0 := ⟨by decide, by decide, by decide, by decide⟩
  have hprefix : (Utf8.encode docPrefix).length = 12 := by decide
  have hmarker : (Utf8.encode startFragmentMarker).length = 20 := by decide
  have hmarker' : (Utf8.encode endFragmentMarker).length = 18 := by decide
  have hsuffix : (Utf8.encode docSuffix).length = 14 := by decide
  unfold encode at h ⊢
  simp only [hzero.length_header, hprefix, hmarker, hmarker', hsuffix, List.length_append] at h ⊢
  have hfit : Fit 105 (105 + 12 + 20 + fragment.length + 18 + 14) (105 + 12 + 20)
      (105 + 12 + 20 + fragment.length) := by
    have hheader := le_length_header 105 (105 + 12 + 20 + fragment.length + 18 + 14)
      (105 + 12 + 20) (105 + 12 + 20 + fragment.length)
    have hwidth : 10 ^ offsetWidth = 10000000000 := rfl
    rw [hwidth] at h
    refine ⟨?_, ?_, ?_, ?_⟩ <;> rw [hwidth] <;> omega
  obtain ⟨hstart, hstop⟩ := hfit.headerOffset_eq
  refine ⟨_, _, ⟨rfl, hfit.notMem_header, ?_, ?_⟩, by simp only [List.append_assoc]⟩
  · simpa only [List.length_append, hfit.length_header, hprefix, hmarker] using hstart
  · simpa only [List.length_append, hfit.length_header, hprefix, hmarker] using hstop

/-- A reader takes the piece that the header points at. -/
theorem PointsAt.decode_eq {header : List Char} {before fragment after : List UInt8}
    (h : PointsAt header before fragment) : decode (before ++ fragment ++ after) = fragment := by
  obtain ⟨start, hstart, hstart'⟩ := h.start_eq
  obtain ⟨stop, hstop, hstop'⟩ := h.stop_eq
  have hnot : (0x3C : UInt8) ∉ Utf8.encode header := Utf8.notMem_encode (by decide) h.notMem
  have hbracket : Utf8.encode "<".toList = [0x3C] := by decide
  have hdoc : Utf8.encode docPrefix = 0x3C :: Utf8.encode "html><body>".toList := by decide
  have hsplit : before ++ fragment ++ after =
      Utf8.encode header ++ ([0x3C] ++ (Utf8.encode "html><body>".toList ++
        Utf8.encode startFragmentMarker ++ fragment ++ after)) := by
    rw [h.before_eq, hdoc]
    simp only [List.append_assoc, List.cons_append, List.nil_append]
  have hfind : find (before ++ fragment ++ after) [0x3C] =
      some (Utf8.encode header).length := by
    rw [hsplit, Search.find_append_of_notMem hnot, Search.find_append, Option.map_some,
      Nat.zero_add]
  have hslice : slice (before ++ fragment ++ after) 0 (Utf8.encode header).length =
      some (Utf8.encode header) := by
    have hcut := slice_append [] (Utf8.encode header) ([0x3C] ++
      (Utf8.encode "html><body>".toList ++ Utf8.encode startFragmentMarker ++ fragment ++ after))
    rw [hsplit]
    simpa only [List.nil_append, List.length_nil, Nat.zero_add] using hcut
  have hle : start ≤ stop ∧ stop.toNat ≤ (before ++ fragment ++ after).length := by
    refine ⟨UInt64.le_iff_toNat_le.2 ?_, ?_⟩
    · omega
    · rw [List.length_append, List.length_append]
      omega
  have hrange : fragmentRangeFromHeader (before ++ fragment ++ after) = some (start, stop) := by
    have hmin : min (Utf8.encode header).length (before ++ fragment ++ after).length =
        (Utf8.encode header).length := by
      rw [hsplit, List.length_append]
      omega
    simp only [fragmentRangeFromHeader, hbracket, hfind, Option.bind_eq_bind, Option.bind_some,
      hmin, hslice, Utf8.decode_encode, hstart, hstop, if_pos hle]
  simp only [decode, hrange, Option.bind_some, hstart', hstop', slice_append]

/-- **The round trip of HTML over the Windows clipboard**, for every fragment whose payload's size
has at most ten digits: the fragment is read back, whatever it contains, and the header's offsets
are the places in the payload where the fragment begins and ends. -/
theorem decode_encode_fragment (fragment : List UInt8) (h : (encode fragment).length < 10 ^ 10) :
    decode (encode fragment) = fragment ∧
      ∃ header before after, PointsAt header before fragment ∧
        encode fragment = before ++ fragment ++ after := by
  obtain ⟨header, before, hpoints, hencode⟩ := encode_pointsAt h
  refine ⟨?_, header, before, _, hpoints, hencode⟩
  rw [hencode]
  exact hpoints.decode_eq

/-- A fragment that holds both markers and a line of a header. -/
def mimic : List UInt8 :=
  Utf8.encode "<!--EndFragment-->\r\nStartFragment:0000000000\r\n<!--StartFragment-->".toList

theorem decode_encode_fragment_mimic :
    decode (encode mimic) = mimic ∧
      ∃ header before after, PointsAt header before mimic ∧
        encode mimic = before ++ mimic ++ after :=
  decode_encode_fragment mimic (by decide +kernel)

end CfHtml

end Mouser
