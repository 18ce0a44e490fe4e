import Mathlib.Data.List.DropRight
import Mathlib.Data.List.Infix
import Mouser.Files.Sink

/-!
# Canonical clipboard content

Both ends of a transfer hash `canonical format bytes`, so that the line endings and the terminators
that a platform adds do not matter. `crlf_to_lf` goes over its input once: where a lone CR stands
before a CRLF, a CRLF is left. `canonical_canonical_iff` says which contents are not changed by a
second pass.
-/

namespace Mouser

/-! ## The canonical form -/

/-- Whether a CRLF occurs, as `bytes.windows(2).any(..)` finds it. -/
def containsCrlf : List UInt8 → Bool
  | b :: c :: rest => (b = 13 && c = 10) || containsCrlf (c :: rest)
  | _ => false

/-- The loop of `crlf_to_lf`. -/
def replaceCrlf : List UInt8 → List UInt8
  | b :: c :: rest =>
    if b = 13 ∧ c = 10 then 10 :: replaceCrlf rest else b :: replaceCrlf (c :: rest)
  | bytes => bytes

/-- Every CRLF becomes an LF; a lone CR is kept. -/
def crlfToLf (bytes : List UInt8) : List UInt8 :=
  if !containsCrlf bytes then bytes else replaceCrlf bytes

/-- `utf8_text`: trailing NULs are stripped as well. -/
def canonicalText (bytes : List UInt8) : List UInt8 :=
  (crlfToLf bytes).rdropWhile (· = 0)

/-- `uri_list`: one trailing blank line is dropped as well. -/
def canonicalUriList (bytes : List UInt8) : List UInt8 :=
  if (crlfToLf bytes).getLast? = some 10 then (crlfToLf bytes).dropLast else crlfToLf bytes

def canonical : ClipFormat → List UInt8 → List UInt8
  | .utf8Text, bytes => canonicalText bytes
  | .uriList, bytes => canonicalUriList bytes
  | .html, bytes | .rtf, bytes | .png, bytes | .unknown, bytes => bytes

/-- The hash of an offer or a pull. -/
def contentHash [Sha256] (format : ClipFormat) (bytes : List UInt8) : Hash :=
  sha256 (canonical format bytes)

/-! ## One pass over the line endings -/

theorem containsCrlf_iff (bytes : List UInt8) :
    containsCrlf bytes = true ↔ [13, 10] <:+: bytes := by
  induction bytes with
  | nil => simp [containsCrlf]
  | cons b bytes ih =>
    cases bytes with
    | nil => simp [containsCrlf, List.infix_cons_iff]
    | cons c rest =>
      have hcons : [13, 10] <:+: b :: c :: rest ↔
          [13, 10] <+: b :: c :: rest ∨ [13, 10] <:+: c :: rest :=
        List.infix_cons_iff
      rw [containsCrlf, Bool.or_eq_true, ih, hcons, List.cons_prefix_cons,
        List.singleton_prefix_cons_iff, @eq_comm _ 13 b, @eq_comm _ 10 c, Bool.and_eq_true,
        decide_eq_true_iff, decide_eq_true_iff]

/-- What the loop of `crlf_to_lf` leaves as it is at the end. -/
theorem length_le_one {bytes : List UInt8}
    (h : ∀ b c rest, bytes = b :: c :: rest → False) : bytes.length ≤ 1 := by
  match bytes with
  | [] => exact Nat.zero_le 1
  | [_] => exact Nat.le_refl 1
  | b :: c :: rest => exact (h b c rest rfl).elim

theorem length_replaceCrlf_le (bytes : List UInt8) :
    (replaceCrlf bytes).length ≤ bytes.length := by
  fun_induction replaceCrlf bytes with
  | case1 b c rest h ih =>
    rw [List.length_cons, List.length_cons, List.length_cons]
    omega
  | case2 b c rest h ih =>
    rw [List.length_cons, List.length_cons]
    omega
  | case3 bytes h => exact Nat.le_refl _

/-- A pass takes away every CR that stands before an LF. -/
theorem length_replaceCrlf_lt {bytes : List UInt8} (h : [13, 10] <:+: bytes) :
    (replaceCrlf bytes).length < bytes.length := by
  fun_induction replaceCrlf bytes with
  | case1 b c rest hbc ih =>
    have := length_replaceCrlf_le rest
    rw [List.length_cons, List.length_cons, List.length_cons]
    omega
  | case2 b c rest hbc ih =>
    rcases List.infix_cons_iff.1 h with hpre | hinf
    · simp only [List.cons_prefix_cons] at hpre
      exact absurd ⟨hpre.1.symm, hpre.2.1.symm⟩ hbc
    · have := ih hinf
      rw [List.length_cons, List.length_cons]
      omega
  | case3 bytes hshort => exact absurd (h.length_le.trans (length_le_one hshort)) (by decide)

theorem replaceCrlf_eq_self {bytes : List UInt8} (h : ¬ [13, 10] <:+: bytes) :
    replaceCrlf bytes = bytes := by
  fun_induction replaceCrlf bytes with
  | case1 b c rest hbc ih =>
    obtain ⟨rfl, rfl⟩ := hbc
    exact absurd (List.prefix_append [13, 10] rest).isInfix h
  | case2 b c rest hbc ih =>
    rw [ih fun hinf => h (List.infix_cons hinf)]
  | case3 bytes hshort => rfl

/-- The check before the loop only saves the copy. -/
theorem crlfToLf_eq (bytes : List UInt8) : crlfToLf bytes = replaceCrlf bytes := by
  unfold crlfToLf
  by_cases h : containsCrlf bytes = true
  · rw [h]
    rfl
  · rw [if_pos (by simpa using h)]
    exact (replaceCrlf_eq_self fun hinf => h ((containsCrlf_iff bytes).2 hinf)).symm

/-- What a pass puts first. -/
theorem head?_replaceCrlf (bytes : List UInt8) :
    (replaceCrlf bytes).head? = some 10 ↔ bytes.head? = some 10 ∨ [13, 10] <+: bytes := by
  fun_cases replaceCrlf bytes with
  | case1 b c rest h =>
    obtain ⟨rfl, rfl⟩ := h
    simp
  | case2 b c rest h =>
    simp only [List.head?_cons, List.cons_prefix_cons, List.nil_prefix, and_true]
    refine ⟨.inl, ?_⟩
    rintro (h' | ⟨rfl, rfl⟩)
    · exact h'
    · exact absurd ⟨rfl, rfl⟩ h
  | case3 bytes h =>
    refine ⟨.inl, ?_⟩
    rintro (h' | ⟨rest, rfl⟩)
    · exact h'
    · exact absurd rfl (h 13 10 rest)

/-- **What a pass leaves.** A CRLF is left exactly where a CR stands before a CRLF. -/
theorem infix_replaceCrlf_iff (bytes : List UInt8) :
    [13, 10] <:+: replaceCrlf bytes ↔ [13, 13, 10] <:+: bytes := by
  fun_induction replaceCrlf bytes with
  | case1 b c rest h ih =>
    obtain ⟨rfl, rfl⟩ := h
    simp only [List.infix_cons_iff, List.cons_prefix_cons, ih]
    simp
  | case2 b c rest h ih =>
    have hcons : [13, 13, 10] <:+: b :: c :: rest ↔
        [13, 13, 10] <+: b :: c :: rest ∨ [13, 13, 10] <:+: c :: rest :=
      List.infix_cons_iff
    rw [List.infix_cons_iff, ih, hcons]
    refine or_congr_left ?_
    rw [List.cons_prefix_cons, List.cons_prefix_cons]
    refine and_congr_right ?_
    rintro rfl
    have hc : c ≠ 10 := fun hc => h ⟨rfl, hc⟩
    rw [List.singleton_prefix_iff_head?_eq_some, head?_replaceCrlf, List.head?_cons,
      Option.some.injEq, or_iff_right hc]
  | case3 bytes h =>
    refine ⟨?_, ?_⟩
    · intro hinf
      exact absurd (hinf.length_le.trans (length_le_one h)) (by decide)
    · intro hinf
      exact absurd (hinf.length_le.trans (length_le_one h)) (by decide)

theorem replaceCrlf_append_crlf (bytes : List UInt8) :
    replaceCrlf (bytes ++ [13, 10]) = replaceCrlf bytes ++ [10] := by
  fun_induction replaceCrlf bytes with
  | case1 b c rest h ih =>
    rw [List.cons_append, List.cons_append, replaceCrlf, if_pos h, ih]
    rfl
  | case2 b c rest h ih =>
    rw [List.cons_append, List.cons_append, replaceCrlf, if_neg h, ← List.cons_append, ih]
    rfl
  | case3 bytes h =>
    match bytes with
    | [] => rfl
    | [b] =>
      rw [List.singleton_append, replaceCrlf, if_neg (by simp)]
      rfl
    | b :: c :: rest => exact absurd rfl (h b c rest)

theorem replaceCrlf_append_lf {bytes : List UInt8} (hlast : bytes.getLast? ≠ some 13) :
    replaceCrlf (bytes ++ [10]) = replaceCrlf bytes ++ [10] := by
  fun_induction replaceCrlf bytes with
  | case1 b c rest h ih =>
    rw [List.cons_append, List.cons_append, replaceCrlf, if_pos h, ih]
    · rfl
    · intro hrest
      refine hlast ?_
      rw [List.getLast?_cons, List.getLast?_cons, hrest]
      rfl
  | case2 b c rest h ih =>
    rw [List.cons_append, List.cons_append, replaceCrlf, if_neg h, ← List.cons_append, ih]
    · rfl
    · simpa using hlast
  | case3 bytes h =>
    match bytes with
    | [] => rfl
    | [b] =>
      rw [List.singleton_append, replaceCrlf, if_neg]
      · rfl
      · rintro ⟨rfl, -⟩
        exact hlast rfl
    | b :: c :: rest => exact absurd rfl (h b c rest)

theorem replaceCrlf_eq_nil_iff (bytes : List UInt8) : replaceCrlf bytes = [] ↔ bytes = [] := by
  fun_cases replaceCrlf bytes <;> simp

theorem getLast?_cons_eq_some_iff {α : Type*} {a b : α} {l : List α} :
    (b :: l).getLast? = some a ↔ l.getLast? = some a ∨ (l = [] ∧ b = a) := by
  cases l with
  | nil => simp
  | cons c l => simp

theorem getLast?_replaceCrlf (bytes : List UInt8) :
    (replaceCrlf bytes).getLast? = some 10 ↔ bytes.getLast? = some 10 := by
  fun_induction replaceCrlf bytes with
  | case1 b c rest h ih =>
    obtain ⟨rfl, rfl⟩ := h
    rw [List.getLast?_cons_cons, getLast?_cons_eq_some_iff, getLast?_cons_eq_some_iff, ih,
      replaceCrlf_eq_nil_iff]
  | case2 b c rest h ih =>
    rw [List.getLast?_cons_cons, getLast?_cons_eq_some_iff, ih, replaceCrlf_eq_nil_iff,
      or_iff_left (by simp)]
  | case3 bytes h => exact Iff.rfl

/-! ## A second pass -/

/-- Stripping NULs takes no CRLF away. -/
theorem infix_rdropWhile {l : List UInt8} (h : [13, 10] <:+: l) :
    [13, 10] <:+: l.rdropWhile (· = 0) := by
  induction l using List.reverseRecOn with
  | nil => simp at h
  | append_singleton l b ih =>
    by_cases hb : b = 0
    · rw [List.rdropWhile_concat_pos _ _ _ (by simpa using hb)]
      refine ih ?_
      rcases List.infix_concat_iff.1 h with hsuf | hinf
      · obtain ⟨pre, hpre⟩ := hsuf
        have hlast := congrArg List.getLast? hpre
        simp [hb] at hlast
      · exact hinf
    · rw [List.rdropWhile_concat_neg _ _ _ (by simpa using hb)]
      exact h

theorem length_canonicalText_le (bytes : List UInt8) :
    (canonicalText bytes).length ≤ (replaceCrlf bytes).length := by
  rw [canonicalText, crlfToLf_eq]
  exact (List.rdropWhile_prefix _ _).length_le

theorem canonicalText_canonicalText_iff (bytes : List UInt8) :
    canonicalText (canonicalText bytes) = canonicalText bytes ↔ ¬ [13, 13, 10] <:+: bytes := by
  rw [← infix_replaceCrlf_iff]
  refine ⟨?_, ?_⟩
  · intro heq hinf
    have hcrlf : [13, 10] <:+: canonicalText bytes := by
      rw [canonicalText, crlfToLf_eq]
      exact infix_rdropWhile hinf
    have hlt := (length_canonicalText_le _).trans_lt (length_replaceCrlf_lt hcrlf)
    rw [heq] at hlt
    exact Nat.lt_irrefl _ hlt
  · intro hinf
    have hpre : canonicalText bytes <+: replaceCrlf bytes := by
      rw [canonicalText, crlfToLf_eq]
      exact List.rdropWhile_prefix _ _
    have hsame : crlfToLf (canonicalText bytes) = canonicalText bytes := by
      rw [crlfToLf_eq]
      exact replaceCrlf_eq_self fun h => hinf (h.trans hpre.isInfix)
    rw [canonicalText, hsame, canonicalText]
    exact List.rdropWhile_idempotent _ _

/-- The list without the line end that closes it. -/
def withoutLineEnd (bytes : List UInt8) : List UInt8 :=
  if [13, 10] <:+ bytes then bytes.dropLast.dropLast
  else if bytes.getLast? = some 10 then bytes.dropLast
  else bytes

theorem canonicalUriList_eq (bytes : List UInt8) :
    canonicalUriList bytes = replaceCrlf (withoutLineEnd bytes) := by
  unfold canonicalUriList withoutLineEnd
  rw [crlfToLf_eq]
  by_cases hcrlf : [13, 10] <:+ bytes
  · obtain ⟨pre, rfl⟩ := hcrlf
    rw [if_pos (List.suffix_append _ _), replaceCrlf_append_crlf, List.getLast?_concat,
      if_pos rfl, List.dropLast_concat]
    simp
  · rw [if_neg hcrlf]
    by_cases hlf : bytes.getLast? = some 10
    · obtain ⟨pre, rfl⟩ := List.getLast?_eq_some_iff.1 hlf
      have hlast : pre.getLast? ≠ some 13 := by
        intro h
        obtain ⟨pre', rfl⟩ := List.getLast?_eq_some_iff.1 h
        exact hcrlf ⟨pre', by simp⟩
      rw [if_pos hlf, replaceCrlf_append_lf hlast, List.getLast?_concat, if_pos rfl,
        List.dropLast_concat, List.dropLast_concat]
    · rw [if_neg hlf, if_neg (mt (getLast?_replaceCrlf bytes).1 hlf)]

theorem length_canonicalUriList_le (bytes : List UInt8) :
    (canonicalUriList bytes).length ≤ (replaceCrlf bytes).length := by
  unfold canonicalUriList
  rw [crlfToLf_eq]
  split
  · exact (List.dropLast_prefix _).length_le
  · exact Nat.le_refl _

theorem length_canonical_le (format : ClipFormat) (bytes : List UInt8) :
    (canonical format bytes).length ≤ bytes.length := by
  have hle := length_replaceCrlf_le bytes
  cases format with
  | utf8Text => exact (length_canonicalText_le bytes).trans hle
  | uriList => exact (length_canonicalUriList_le bytes).trans hle
  | html => exact Nat.le_refl _
  | rtf => exact Nat.le_refl _
  | png => exact Nat.le_refl _
  | unknown => exact Nat.le_refl _

/-- A list of URIs is left as it is when it has no CRLF and no line end at its end. -/
theorem canonicalUriList_eq_self_iff (bytes : List UInt8) :
    canonicalUriList bytes = bytes ↔ ¬ [13, 10] <:+: bytes ∧ bytes.getLast? ≠ some 10 := by
  refine ⟨?_, ?_⟩
  · intro heq
    refine ⟨?_, ?_⟩
    · intro hinf
      have hlt := (length_canonicalUriList_le bytes).trans_lt (length_replaceCrlf_lt hinf)
      rw [heq] at hlt
      exact Nat.lt_irrefl _ hlt
    · intro hlast
      have hlast' := (getLast?_replaceCrlf bytes).2 hlast
      have hle := length_replaceCrlf_le bytes
      obtain ⟨pre, hpre⟩ := List.getLast?_eq_some_iff.1 hlast'
      rw [canonicalUriList, crlfToLf_eq, if_pos hlast', hpre, List.dropLast_concat] at heq
      rw [hpre, List.length_append, List.length_singleton, heq] at hle
      omega
  · rintro ⟨hinf, hlast⟩
    have hsame := replaceCrlf_eq_self hinf
    rw [canonicalUriList, crlfToLf_eq, hsame, if_neg hlast]

/-- A second pass changes nothing: no CR stands before a CRLF, and a list of URIs ends in no more
than one line end. -/
def Stable : ClipFormat → List UInt8 → Prop
  | .utf8Text, bytes => ¬ [13, 13, 10] <:+: bytes
  | .uriList, bytes =>
    ¬ [13, 13, 10] <:+: withoutLineEnd bytes ∧ (withoutLineEnd bytes).getLast? ≠ some 10
  | .html, _ | .rtf, _ | .png, _ | .unknown, _ => True

instance (format : ClipFormat) (bytes : List UInt8) : Decidable (Stable format bytes) := by
  cases format <;> unfold Stable <;> infer_instance

/-- **When the canonical form is a fixed point.** -/
theorem canonical_canonical_iff (format : ClipFormat) (bytes : List UInt8) :
    canonical format (canonical format bytes) = canonical format bytes ↔ Stable format bytes := by
  cases format with
  | utf8Text => exact canonicalText_canonicalText_iff bytes
  | uriList =>
    rw [canonical, canonical, canonicalUriList_eq_self_iff, canonicalUriList_eq,
      infix_replaceCrlf_iff, Ne, getLast?_replaceCrlf]
    rfl
  | html => simp [canonical, Stable]
  | rtf => simp [canonical, Stable]
  | png => simp [canonical, Stable]
  | unknown => simp [canonical, Stable]

end Mouser
