import Mathlib.Data.Prod.Lex
import Mathlib.Data.String.Basic
import Mouser.Core.Device

/-!
# The layout register's text form

A layout edit is stamped with its revision and the device that made it. The stamp is kept in the
replicated document as one string, the revision in twenty decimal digits and the editor in
hexadecimal, and every value that a peer wrote there is read back with `decodeLww`, which takes only
strings of that form.
-/

namespace Mouser

/-! ## The stamp -/

/-- The stamp of a layout edit: its revision and its editor. -/
structure LayoutStamp where
  rev : UInt64
  editor : DeviceId
deriving DecidableEq

namespace LayoutStamp

/-- The revision first, then the editor. -/
def key (s : LayoutStamp) : ℕ ×ₗ DeviceId := toLex (s.rev.toNat, s.editor)

theorem key_injective : Function.Injective key := by
  intro a b h
  cases a
  cases b
  obtain ⟨hrev, heditor⟩ := Prod.mk.inj (toLex.injective h)
  cases UInt64.toNat_inj.1 hrev
  cases heditor
  rfl

/-- Stamps are compared as Rust compares `(u64, [u8; 32])`. -/
instance : LinearOrder LayoutStamp := LinearOrder.lift' key key_injective

theorem le_iff {a b : LayoutStamp} :
    a ≤ b ↔ a.rev.toNat < b.rev.toNat ∨ a.rev.toNat = b.rev.toNat ∧ a.editor ≤ b.editor :=
  Prod.Lex.le_iff

theorem lt_iff {a b : LayoutStamp} :
    a < b ↔ a.rev.toNat < b.rev.toNat ∨ a.rev.toNat = b.rev.toNat ∧ a.editor < b.editor :=
  Prod.Lex.lt_iff

theorem rev_le_of_le {a b : LayoutStamp} (h : a ≤ b) : a.rev.toNat ≤ b.rev.toNat := by
  rcases le_iff.1 h with hlt | ⟨heq, -⟩
  · exact hlt.le
  · exact heq.le

end LayoutStamp

/-! ## Hexadecimal -/

/-- `char::from_digit(n, 16)`. -/
def hexDigit (n : ℕ) : Char := if n < 10 then .ofNat (48 + n) else .ofNat (87 + n)

def hexNibble (c : Char) : Option ℕ :=
  if '0' ≤ c ∧ c ≤ '9' then some (c.toNat - '0'.toNat)
  else if 'a' ≤ c ∧ c ≤ 'f' then some (c.toNat - 'a'.toNat + 10)
  else if 'A' ≤ c ∧ c ≤ 'F' then some (c.toNat - 'A'.toNat + 10)
  else none

theorem hexNibble_hexDigit {n : ℕ} (h : n < 16) : hexNibble (hexDigit n) = some n := by
  revert n
  decide

/-- A device id in lowercase hexadecimal. -/
def deviceIdHex (id : DeviceId) : String :=
  .ofList (id.bytes.flatMap fun b => [hexDigit (b.toNat / 16), hexDigit (b.toNat % 16)])

/-- The bytes of pairs of hexadecimal digits. -/
def hexBytes : List Char → Option (List UInt8)
  | [] => some []
  | [_] => none
  | c :: d :: cs => do
    let hi ← hexNibble c
    let lo ← hexNibble d
    let bytes ← hexBytes cs
    return .ofNat (16 * hi + lo) :: bytes

/-- Parse exactly 64 hexadecimal characters. A character of more than one byte is no digit, so that
characters are counted here and bytes in the source. -/
def hex32 (cs : List Char) : Option DeviceId :=
  if cs.length ≠ 64 then none else (hexBytes cs).bind toId

theorem hexBytes_flatMap (bytes : List UInt8) :
    hexBytes (bytes.flatMap fun b => [hexDigit (b.toNat / 16), hexDigit (b.toNat % 16)]) =
      some bytes := by
  induction bytes with
  | nil => rfl
  | cons b bytes ih =>
    have hbyte := b.toNat_lt
    have hhi : hexNibble (hexDigit (b.toNat / 16)) = some (b.toNat / 16) :=
      hexNibble_hexDigit (by omega)
    have hlo : hexNibble (hexDigit (b.toNat % 16)) = some (b.toNat % 16) :=
      hexNibble_hexDigit (by omega)
    have hb : UInt8.ofNat (16 * (b.toNat / 16) + b.toNat % 16) = b := by
      rw [Nat.div_add_mod]
      exact UInt8.ofNat_toNat
    rw [List.flatMap_cons, List.cons_append, List.cons_append, List.nil_append, hexBytes, hhi, hlo,
      ih]
    simp only [Option.bind_eq_bind, Option.bind_some, hb]
    rfl

theorem length_hex (bytes : List UInt8) :
    (bytes.flatMap fun b => [hexDigit (b.toNat / 16), hexDigit (b.toNat % 16)]).length =
      2 * bytes.length := by
  induction bytes with
  | nil => rfl
  | cons b bytes ih =>
    rw [List.flatMap_cons, List.length_append, ih, List.length_cons]
    exact (by simp only [List.length_cons, List.length_nil]; omega)

theorem hex32_deviceIdHex (id : DeviceId) : hex32 (deviceIdHex id).toList = some id := by
  rw [deviceIdHex, String.toList_ofList, hex32, length_hex, id.length_eq, if_neg (by decide),
    hexBytes_flatMap, Option.bind_some, toId_bytes]

theorem deviceIdHex_injective : Function.Injective deviceIdHex := by
  intro a b h
  have hid := congrArg (fun s : String => hex32 s.toList) h
  exact Option.some.inj ((hex32_deviceIdHex a).symm.trans (hid.trans (hex32_deviceIdHex b)))

/-! ## The revision -/

/-- The last `k` decimal digits of `n`, most significant first: `{n:020}` for `k = 20`, since a
`u64` has no more digits. -/
def paddedDec : ℕ → ℕ → List Char
  | 0, _ => []
  | k + 1, n => paddedDec k (n / 10) ++ [hexDigit (n % 10)]

/-- The value of a decimal digit. -/
def decDigit (c : Char) : Option ℕ :=
  if '0' ≤ c ∧ c ≤ '9' then some (c.toNat - '0'.toNat) else none

/-- The number that the digits stand for. -/
def digitsValue (cs : List Char) : Option ℕ :=
  cs.foldl (fun n c => n.bind fun n => (decDigit c).map fun d => 10 * n + d) (some 0)

/-- `str::parse::<u64>`: an optional plus sign, and digits of a number below `2 ^ 64`. -/
def parseU64 (cs : List Char) : Option UInt64 :=
  let digits := if cs.head? = some '+' then cs.tail else cs
  if digits = [] then none
  else (digitsValue digits).bind fun n => if h : n < 2 ^ 64 then some (.ofNatLT n h) else none

theorem digitsValue_paddedDec {k n : ℕ} (h : n < 10 ^ k) :
    digitsValue (paddedDec k n) = some n := by
  induction k generalizing n with
  | zero =>
    rw [Nat.pow_zero, Nat.lt_one_iff] at h
    rw [h]
    rfl
  | succ k ih =>
    have hdiv : n / 10 < 10 ^ k := Nat.div_lt_of_lt_mul (by rwa [pow_succ'] at h)
    have hdigit : ∀ d < 10, decDigit (hexDigit d) = some d := by decide
    have ih' := ih hdiv
    rw [digitsValue] at ih' ⊢
    rw [paddedDec, List.foldl_append, ih', List.foldl_cons, List.foldl_nil, Option.bind_some,
      hdigit _ (Nat.mod_lt _ (by decide)), Option.map_some, Nat.div_add_mod]

theorem length_paddedDec (k n : ℕ) : (paddedDec k n).length = k := by
  induction k generalizing n with
  | zero => rfl
  | succ k ih => simp [paddedDec, ih]

/-- A character of a padded number is a digit. -/
theorem digit_of_mem_paddedDec {k n : ℕ} {c : Char} (h : c ∈ paddedDec k n) :
    c ≠ '|' ∧ c ≠ '+' := by
  induction k generalizing n with
  | zero => cases h
  | succ k ih =>
    have hdigit : ∀ d < 10, hexDigit d ≠ '|' ∧ hexDigit d ≠ '+' := by decide
    rcases List.mem_append.1 h with h | h
    · exact ih h
    · rw [List.mem_singleton.1 h]
      exact hdigit _ (Nat.mod_lt _ (by decide))

/-- A padded number is read back, whatever its width. -/
theorem parseU64_paddedDec_of_lt {k n : ℕ} (hk : 0 < k) (hn : n < 10 ^ k) (hlt : n < 2 ^ 64) :
    parseU64 (paddedDec k n) = some (.ofNatLT n hlt) := by
  have hne : paddedDec k n ≠ [] := by
    intro hnil
    have hlength := length_paddedDec k n
    rw [hnil, List.length_nil] at hlength
    omega
  have hplus : ¬ (paddedDec k n).head? = some '+' := by
    intro hhead
    exact (digit_of_mem_paddedDec (List.mem_of_mem_head? hhead)).2 rfl
  unfold parseU64
  dsimp only
  rw [if_neg hplus, if_neg hne, digitsValue_paddedDec hn, Option.bind_some, dif_pos hlt]

theorem parseU64_paddedDec (n : UInt64) : parseU64 (paddedDec 20 n.toNat) = some n := by
  have hlt := n.toNat_lt
  rw [parseU64_paddedDec_of_lt (by decide) (by omega) hlt]
  exact congrArg some (UInt64.ofNatLT_toNat n)

/-! ## The register value -/

/-- The text form of a stamp. -/
def lwwKey (s : LayoutStamp) : String :=
  .ofList (paddedDec 20 s.rev.toNat ++ '|' :: (deviceIdHex s.editor).toList)

/-- `split_once`. -/
def splitOnce (sep : Char) : List Char → Option (List Char × List Char)
  | [] => none
  | c :: cs =>
    if c = sep then some ([], cs)
    else (splitOnce sep cs).map fun (before, after) => (c :: before, after)

/-- The stamp that a register value stands for; `none` on a malformed value. -/
def decodeLww (s : String) : Option LayoutStamp := do
  let (revStr, editorHex) ← splitOnce '|' s.toList
  let rev ← parseU64 revStr
  let editor ← hex32 editorHex
  return { rev, editor }

theorem splitOnce_append {sep : Char} {before after : List Char} (h : sep ∉ before) :
    splitOnce sep (before ++ sep :: after) = some (before, after) := by
  induction before with
  | nil => exact if_pos rfl
  | cons c before ih =>
    rw [List.mem_cons, not_or] at h
    rw [List.cons_append, splitOnce, if_neg (Ne.symm h.1), ih h.2]
    rfl

/-- **The round trip.** -/
@[simp] theorem decodeLww_lwwKey (s : LayoutStamp) : decodeLww (lwwKey s) = some s := by
  have hsplit : splitOnce '|' (lwwKey s).toList =
      some (paddedDec 20 s.rev.toNat, (deviceIdHex s.editor).toList) := by
    rw [lwwKey, String.toList_ofList]
    exact splitOnce_append fun hmem => (digit_of_mem_paddedDec hmem).1 rfl
  simp only [decodeLww, hsplit, Option.bind_eq_bind, Option.bind_some, parseU64_paddedDec,
    hex32_deviceIdHex]
  rfl

theorem lwwKey_injective : Function.Injective lwwKey := by
  intro a b h
  have hstamp := congrArg decodeLww h
  rw [decodeLww_lwwKey, decodeLww_lwwKey] at hstamp
  exact Option.some.inj hstamp

end Mouser
