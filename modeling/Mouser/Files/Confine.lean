import Mouser.Files.Path

/-!
# Which names are confined

`resolve_in_quarantine` checks a name twice: `sanitize_name` looks at its characters, and what it
lets through is joined to the quarantine directory and taken apart again. `Confinable` is what the
characters of a name must be like; such a name is one component of the joined path, the last, so
that the second check refuses nothing.
-/

namespace Mouser

open String (utf8Len)

/-! ## The names -/

/-- The codepoints that override, embed, isolate or mark the direction of a text. -/
def BidiControl (c : Char) : Prop :=
  (0x200E ≤ c.toNat ∧ c.toNat ≤ 0x200F) ∨ (0x202A ≤ c.toNat ∧ c.toNat ≤ 0x202E) ∨
    (0x2066 ≤ c.toNat ∧ c.toNat ≤ 0x2069)

/-- A reserved DOS device name. -/
inductive DeviceName : List Char → Prop where
  | fixed {d : String} (hd : d ∈ ["CON", "PRN", "AUX", "NUL"]) : DeviceName d.toList
  | numbered {d : String} {digit : Char} (hd : d ∈ ["COM", "LPT"]) (hfirst : '1' ≤ digit)
    (hlast : digit ≤ '9') : DeviceName (d.toList ++ [digit])

/-- The characters are a device name in some ASCII case. -/
def NamesDevice (cs : List Char) : Prop :=
  ∃ d, DeviceName d ∧ cs.map Char.toLower = d.map Char.toLower

structure Confinable (name : String) : Prop where
  nonempty : name ≠ ""
  not_dots : name ≠ "." ∧ name ≠ ".."
  no_nul : '\x00' ∉ name.toList
  no_separator : '/' ∉ name.toList ∧ '\\' ∉ name.toList ∧ ':' ∉ name.toList
  no_bidi : ∀ c ∈ name.toList, ¬ BidiControl c
  ending : name.toList.getLast? ≠ some '.' ∧ name.toList.getLast? ≠ some ' '
  no_device : ¬ NamesDevice (stem name.toList)

theorem isBidiControl_iff (c : Char) : isBidiControl c = true ↔ BidiControl c := by
  unfold isBidiControl BidiControl
  simp only [decide_eq_true_eq, List.mem_cons, List.not_mem_nil, or_false, ← UInt32.toNat_inj]
  change c.toNat = _ ∨ c.toNat = _ ∨ c.toNat = _ ∨ c.toNat = _ ∨ c.toNat = _ ∨ c.toNat = _ ∨
    c.toNat = _ ∨ c.toNat = _ ∨ c.toNat = _ ∨ c.toNat = _ ∨ c.toNat = _ ↔ _
  simp only [UInt32.reduceToNat]
  omega

/-! ## Device names -/

theorem eqIgnoreAsciiCase_iff {a b : List Char} :
    eqIgnoreAsciiCase a b = true ↔ a.map Char.toLower = b.map Char.toLower := by
  rw [eqIgnoreAsciiCase, Bool.and_eq_true, decide_eq_true_eq, decide_eq_true_eq]
  refine ⟨And.right, fun h => ⟨?_, h⟩⟩
  rw [← Utf8.utf8Len_map_toLower a, h, Utf8.utf8Len_map_toLower]

/-- The numbered device names take four bytes, of which the last is the number. -/
theorem NamesDevice.numbered {cs : List Char} {d : String} {digit : Char} (hd : d ∈ ["COM", "LPT"])
    (hlast : digit ≤ '9')
    (h : cs.map Char.toLower = (d.toList ++ [digit]).map Char.toLower) :
    ∃ front, cs = front ++ [digit] ∧ utf8Len front = 3 ∧
      eqIgnoreAsciiCase front d.toList = true := by
  have hdigit : digit.toNat < 'A'.toNat :=
    Nat.lt_of_le_of_lt (UInt32.le_iff_toNat_le.1 hlast) (by decide)
  rw [List.map_append, List.map_singleton, (Utf8.toLower_eq_iff hdigit).2 rfl,
    List.map_eq_append_iff] at h
  obtain ⟨front, rest, rfl, hfront, hrest⟩ := h
  obtain ⟨c, rfl, hc⟩ := List.map_eq_singleton_iff.1 hrest
  rw [(Utf8.toLower_eq_iff hdigit).1 hc]
  have hcase := eqIgnoreAsciiCase_iff.2 hfront
  refine ⟨front, rfl, ?_, hcase⟩
  rw [utf8Len_of_eqIgnoreAsciiCase hcase]
  simp only [List.mem_cons, List.not_mem_nil, or_false] at hd
  rcases hd with rfl | rfl <;> rfl

/-- **The check for device names.** -/
theorem isReservedDeviceName_iff {cs : List Char} {reserved : Bool}
    (h : isReservedDeviceName cs = .ok reserved) :
    reserved = true ↔ NamesDevice (stem cs) := by
  unfold isReservedDeviceName at h
  split at h
  · next hfixed =>
    cases h
    obtain ⟨d, hd, heq⟩ := List.any_eq_true.1 hfixed
    exact iff_of_true rfl ⟨d.toList, .fixed hd, eqIgnoreAsciiCase_iff.1 heq⟩
  · next hfixed =>
    -- What is left are the numbered names.
    have hnumbered : NamesDevice (stem cs) ↔ ∃ front d digit, stem cs = front ++ [digit] ∧
        d ∈ ["COM", "LPT"] ∧ '1' ≤ digit ∧ digit ≤ '9' ∧ utf8Len front = 3 ∧
          eqIgnoreAsciiCase front d.toList = true := by
      refine ⟨?_, ?_⟩
      · rintro ⟨_, hd | ⟨hd, hfirst, hlast⟩, heq⟩
        · exact absurd (List.any_eq_true.2 ⟨_, hd, eqIgnoreAsciiCase_iff.2 heq⟩) hfixed
        · obtain ⟨front, hstem, hlen, hfront⟩ := NamesDevice.numbered hd hlast heq
          exact ⟨front, _, _, hstem, hd, hfirst, hlast, hlen, hfront⟩
      · rintro ⟨front, d, digit, hstem, hd, hfirst, hlast, -, hfront⟩
        refine ⟨_, .numbered hd hfirst hlast, ?_⟩
        rw [hstem, List.map_append, List.map_append, eqIgnoreAsciiCase_iff.1 hfront]
    rw [hnumbered]
    split at h
    · next hfour =>
      split at h
      · cases h
      · next front last hcut =>
        cases h
        obtain ⟨hstem, hlen⟩ := Utf8.splitAt_eq_some.1 hcut
        rw [Bool.and_eq_true, Bool.or_eq_true, Option.any_eq_true]
        refine ⟨?_, ?_⟩
        · rintro ⟨hfront, digit, hdigit, hrange⟩
          rw [Bool.and_eq_true, decide_eq_true_eq, decide_eq_true_eq] at hrange
          obtain ⟨rest, rfl⟩ : ∃ rest, last = digit :: rest := by
            cases last with
            | nil => cases hdigit
            | cons c rest =>
              cases hdigit
              exact ⟨rest, rfl⟩
          have hrest : rest = [] := by
            have hpos := digit.utf8Size_pos
            rw [hstem, String.utf8Len_append, String.utf8Len_cons, hlen] at hfour
            exact String.utf8Len_eq_zero.1 (by omega)
          rw [hrest] at hstem
          rcases hfront with hcom | hlpt
          · exact ⟨front, "COM", digit, hstem, .head _, hrange.1, hrange.2, hlen, hcom⟩
          · exact ⟨front, "LPT", digit, hstem, .tail _ (.head _), hrange.1, hrange.2, hlen, hlpt⟩
        · rintro ⟨front', d, digit, hstem', hd, hfirst, hlast, hlen', hfront⟩
          have hcut' := Utf8.splitAt_eq_some.2 ⟨hstem', hlen'⟩
          rw [hcut] at hcut'
          cases hcut'
          refine ⟨?_, digit, rfl, by simp [hfirst, hlast]⟩
          simp only [List.mem_cons, List.not_mem_nil, or_false] at hd
          rcases hd with rfl | rfl
          · exact .inl hfront
          · exact .inr hfront
    · next hfour =>
      cases h
      refine iff_of_false Bool.false_ne_true ?_
      rintro ⟨front, d, digit, hstem, -, -, hlast, hlen, -⟩
      refine hfour ?_
      have hone : digit.utf8Size = 1 :=
        Char.utf8Size_eq_one_iff.2 (UInt32.le_trans hlast (by decide))
      rw [hstem, String.utf8Len_append, String.utf8Len_cons, String.utf8Len_nil, hlen, hone]

/-! ## Sanitizing -/

/-- The early checks and the one for device names refuse just the names that are not confinable. -/
theorem confinable_iff {name : String} :
    Confinable name ↔ ¬ RejectedEarly name ∧ ¬ NamesDevice (stem name.toList) := by
  have hbidi : name.toList.any isBidiControl = true ↔ ∃ c ∈ name.toList, BidiControl c := by
    simp only [List.any_eq_true, isBidiControl_iff]
  rw [RejectedEarly, hbidi]
  simp only [not_or, not_exists, not_and]
  refine ⟨?_, ?_⟩
  · rintro ⟨hempty, hdots, hnul, hseparator, hbidi, hending, hdevice⟩
    exact ⟨⟨⟨hempty, hdots⟩, hnul, hseparator, hbidi, hending⟩, hdevice⟩
  · rintro ⟨⟨⟨hempty, hdots⟩, hnul, hseparator, hbidi, hending⟩, hdevice⟩
    exact ⟨hempty, hdots, hnul, hseparator, hbidi, hending, hdevice⟩

/-- **What `sanitize_name` lets through.** -/
theorem sanitizeName_ok {name : String} {result : Except PathError String}
    (h : sanitizeName name = .ok result) :
    (result = .ok name ∧ Confinable name) ∨
      ∃ e, result = .error e ∧ e ≠ .escapesQuarantine ∧ ¬ Confinable name := by
  rw [confinable_iff]
  by_cases hearly : RejectedEarly name
  · obtain ⟨e, he, hne⟩ := sanitizeName_of_rejectedEarly hearly
    rw [he] at h
    cases h
    exact .inr ⟨e, rfl, hne, fun h => h.1 hearly⟩
  · rw [sanitizeName_of_not_rejectedEarly hearly] at h
    split at h
    · cases h
    · next hreserved =>
      cases h
      refine .inr ⟨_, rfl, nofun, fun h => h.2 ?_⟩
      exact (isReservedDeviceName_iff hreserved).1 rfl
    · next hfree =>
      cases h
      refine .inl ⟨rfl, hearly, fun hdevice => Bool.false_ne_true ?_⟩
      exact (isReservedDeviceName_iff hfree).2 hdevice

/-! ## The joined path -/

theorem OsStr.new_inj {s t : String} (h : OsStr.new s = OsStr.new t) : s = t := by
  rw [← String.toByteArray_inj, ← String.utf8Encode_toList, ← String.utf8Encode_toList]
  unfold List.utf8Encode
  exact congrArg List.toByteArray h

theorem separator_notMem {name : String} (h : '/' ∉ name.toList) :
    separator ∉ OsStr.new name := by
  intro hmem
  obtain ⟨c, hc, hbyte⟩ := List.mem_flatMap.1 hmem
  have hval := Utf8.toNat_of_mem_encode hbyte (by decide)
  have heq : c = '/' := Char.toNat_inj.1 hval
  exact h (heq ▸ hc)

/-- The bytes are a component: not empty, no dots, and without a separator. -/
structure OsStr.Plain (piece : OsStr) : Prop where
  no_separator : separator ∉ piece
  nonempty : piece ≠ []
  not_dot : piece ≠ [0x2e]
  not_dots : piece ≠ [0x2e, 0x2e]

theorem Confinable.plain {name : String} (h : Confinable name) : (OsStr.new name).Plain := by
  refine ⟨separator_notMem h.no_separator.1, ?_, ?_, ?_⟩
  · exact fun heq => h.nonempty (OsStr.new_inj (t := "") heq)
  · exact fun heq => h.not_dots.1 (OsStr.new_inj (t := ".") heq)
  · exact fun heq => h.not_dots.2 (OsStr.new_inj (t := "..") heq)

namespace OsStr.Plain

variable {piece : OsStr}

theorem component_eq (h : piece.Plain) (start : Bool) :
    component start piece = some (.normal piece) := by
  rw [component, if_neg h.nonempty, if_neg h.not_dot, if_neg h.not_dots]

theorem head_ne (h : piece.Plain) : piece.head? ≠ some separator := by
  intro hhead
  exact h.no_separator (List.mem_of_mem_head? hhead)

/-- A component behind a separator is the last one of the path. -/
theorem components_append (h : piece.Plain) (base : OsStr) :
    components (base ++ separator :: piece) =
      components (base ++ [separator]) ++ [.normal piece] := by
  obtain ⟨first, pieces, hbase⟩ := List.exists_cons_of_ne_nil (List.splitOn_ne_nil separator base)
  have hhead : (base ++ separator :: piece).head? = (base ++ [separator]).head? := by
    cases base <;> rfl
  unfold components
  rw [List.splitOn_append_cons_self, List.splitOn_append_cons_self, hbase,
    List.splitOn_eq_singleton h.no_separator, List.splitOn_nil, hhead]
  have hlast : (pieces ++ [piece]).filterMap (component false) =
      (pieces ++ [[]]).filterMap (component false) ++ [.normal piece] := by
    have hpiece : [piece].filterMap (component false) = [.normal piece] := by
      rw [List.filterMap_cons_some (h.component_eq false)]
      rfl
    have hnil : [[]].filterMap (component false) = [] := rfl
    rw [List.filterMap_append, List.filterMap_append, hpiece, hnil, List.append_nil]
  simp only [List.cons_append, hlast]
  split <;> simp

end OsStr.Plain

/-- A separator at the end of a path makes no difference. -/
theorem components_concat_separator {base : OsStr} (h : base ≠ []) :
    components (base ++ [separator]) = components base := by
  obtain ⟨first, pieces, hbase⟩ := List.exists_cons_of_ne_nil (List.splitOn_ne_nil separator base)
  have hhead : (base ++ [separator]).head? = base.head? := by
    cases base with
    | nil => exact absurd rfl h
    | cons => rfl
  unfold components
  rw [List.splitOn_append_cons_self, hbase, List.splitOn_nil, hhead]
  have hlast : (pieces ++ [[]]).filterMap (component false) =
      pieces.filterMap (component false) := by
    have hnil : [[]].filterMap (component false) = [] := rfl
    rw [List.filterMap_append, hnil, List.append_nil]
  simp only [List.cons_append, hlast]

/-- **The components of a joined path.** -/
theorem components_join {piece : OsStr} (h : piece.Plain) (base : OsStr) :
    components (join base piece) = components base ++ [.normal piece] := by
  rw [join, if_neg h.head_ne]
  split
  · next hopen =>
    rcases List.eq_nil_or_concat base with rfl | ⟨front, last, rfl⟩
    · rw [List.nil_append, components, List.splitOn_eq_singleton h.no_separator]
      simp only [if_neg h.head_ne, h.component_eq]
      rfl
    · rw [List.concat_eq_append] at hopen ⊢
      have hlast : last = separator := by simpa using hopen
      rw [hlast, List.append_assoc, List.singleton_append, h.components_append]
  · next hclosed =>
    rw [not_or] at hclosed
    rw [h.components_append, components_concat_separator hclosed.1]

/-- **Quarantine confinement is exact.** On a name on which the call returns, it gives a path just
when the name is confinable; the path is the quarantine with the name as one component more, and the
second check never refuses. -/
theorem quarantine_exact (quarantine : OsStr) (name : String) (result : Except PathError OsStr)
    (h : resolveInQuarantine quarantine name = .ok result) :
    ((∃ path, result = .ok path) ↔ Confinable name) ∧
      (∀ path, result = .ok path →
        components path = components quarantine ++ [.normal (OsStr.new name)]) ∧
      result ≠ .error .escapesQuarantine := by
  unfold resolveInQuarantine at h
  split at h
  · cases h
  · next e hsanitize =>
    cases h
    rcases sanitizeName_ok hsanitize with ⟨heq, -⟩ | ⟨e', heq, hne, hrefused⟩
    · cases heq
    · cases heq
      refine ⟨iff_of_false (by rintro ⟨path, ⟨⟩⟩) hrefused, nofun, ?_⟩
      rintro ⟨⟩
      exact hne rfl
  · next safe hsanitize =>
    rcases sanitizeName_ok hsanitize with ⟨heq, hconfinable⟩ | ⟨e', heq, -⟩
    · cases heq
      have hcomponents := components_join hconfinable.plain quarantine
      have hrest : stripPrefix (join quarantine (OsStr.new name)) quarantine =
          some [.normal (OsStr.new name)] := by
        rw [stripPrefix, hcomponents, if_pos (List.prefix_append _ _), List.drop_left]
      simp only [hrest, if_true] at h
      cases h
      exact ⟨iff_of_true ⟨_, rfl⟩ hconfinable, by rintro _ ⟨⟩; exact hcomponents, nofun⟩
    · cases heq

theorem quarantine_exact_console :
    Confinable "console.txt" ∧ components (OsStr.new "/var/quarantine/./console.txt") =
      components (OsStr.new "/var/quarantine/.") ++ [.normal (OsStr.new "console.txt")] := by
  obtain ⟨hok, hpath, -⟩ := quarantine_exact (OsStr.new "/var/quarantine/.") "console.txt"
    (.ok (OsStr.new "/var/quarantine/./console.txt")) (by decide +kernel)
  exact ⟨hok.1 ⟨_, rfl⟩, hpath _ rfl⟩

end Mouser
