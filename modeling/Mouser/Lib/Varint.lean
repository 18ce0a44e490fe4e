import Mathlib.Algebra.Order.Ring.Nat
import Mathlib.Data.List.Chain
import Mathlib.Data.List.Forall2
import Mathlib.Tactic.Ring

/-!
# Base-128 numbers

A number in groups of seven bits, the low group first, each in a byte that is marked when another
one follows (LEB128). `Code` says which bytes are one such code, and `value` what they stand for. A
code ends where its bytes say, so it is the only one that a string of bytes can start with
(`Code.append_inj`). A number has many codes: `encode` gives the one without groups of zeros at its
end, and a code is this one exactly when it is not `Padded` (`Code.eq_encode_iff`).

`zigzag` brings the integers into the order `0, -1, 1, -2, …` for such a code.
-/

namespace Varint

/-- One number, in groups of which each but the last is marked. -/
inductive Code : List UInt8 → Prop where
  | last {b : UInt8} (h : b.toNat < 128) : Code [b]
  | more {b : UInt8} {bs : List UInt8} (h : 128 ≤ b.toNat) (hbs : Code bs) : Code (b :: bs)

/-- The sum of the groups, the `i`-th shifted by `7 * i` bits. -/
def value : List UInt8 → ℕ
  | [] => 0
  | b :: bs => b.toNat % 128 + 128 * value bs

/-- The code of a number in as few groups as it takes. -/
def encode (n : ℕ) : List UInt8 :=
  if n < 128 then [.ofNat n] else .ofNat (n % 128 + 128) :: encode (n / 128)
termination_by n
decreasing_by omega

variable {code code' rest rest' : List UInt8}

theorem Code.ne_nil (h : Code code) : code ≠ [] := by
  cases h <;> exact List.cons_ne_nil _ _

theorem Code.length_pos (h : Code code) : 0 < code.length := List.length_pos_of_ne_nil h.ne_nil

/-- **A string of bytes starts with one code at most.** -/
theorem Code.append_inj (h : Code code) (h' : Code code') (heq : code ++ rest = code' ++ rest') :
    code = code' ∧ rest = rest' := by
  induction h generalizing code' with
  | last hb =>
    cases h' with
    | last => exact ⟨congrArg (fun b => [b]) (List.cons.inj heq).1, (List.cons.inj heq).2⟩
    | more hb' =>
      obtain ⟨rfl, -⟩ := List.cons.inj heq
      omega
  | @more b bs hb hbs ih =>
    cases h' with
    | last hb' =>
      obtain ⟨rfl, -⟩ := List.cons.inj heq
      omega
    | more hb' hbs' =>
      obtain ⟨rfl, htail⟩ := List.cons.inj heq
      obtain ⟨rfl, rfl⟩ := ih hbs' htail
      exact ⟨rfl, rfl⟩

theorem value_lt (code : List UInt8) : value code < 128 ^ code.length := by
  induction code with
  | nil => exact Nat.one_pos
  | cons b bs ih =>
    rw [value, List.length_cons, pow_succ]
    omega

theorem value_append (bytes bytes' : List UInt8) :
    value (bytes ++ bytes') = value bytes + 128 ^ bytes.length * value bytes' := by
  induction bytes with
  | nil => simp [value]
  | cons b bytes ih =>
    rw [List.cons_append, value, value, ih, List.length_cons, pow_succ]
    ring

/-- A code is marked bytes in front of one that is not. -/
theorem code_iff : Code code ↔ ∃ groups b, code = groups ++ [b] ∧
    (∀ g ∈ groups, 128 ≤ g.toNat) ∧ b.toNat < 128 := by
  refine ⟨?_, ?_⟩
  · intro h
    induction h with
    | @last b hb => exact ⟨[], b, rfl, nofun, hb⟩
    | @more g bs hg _ ih =>
      obtain ⟨groups, b, rfl, hgroups, hb⟩ := ih
      exact ⟨g :: groups, b, rfl, List.forall_mem_cons.2 ⟨hg, hgroups⟩, hb⟩
  · rintro ⟨groups, b, rfl, hgroups, hb⟩
    induction groups with
    | nil => exact .last hb
    | cons g groups ih =>
      obtain ⟨hg, hgroups⟩ := List.forall_mem_cons.1 hgroups
      exact .more hg (ih hgroups)

/-! ## The shortest code -/

theorem code_encode (n : ℕ) : Code (encode n) := by
  fun_induction encode n with
  | case1 n h =>
    refine .last ?_
    rw [UInt8.toNat_ofNat']
    omega
  | case2 n h ih =>
    refine .more ?_ ih
    rw [UInt8.toNat_ofNat']
    omega

@[simp] theorem value_encode (n : ℕ) : value (encode n) = n := by
  fun_induction encode n with
  | case1 n h =>
    rw [value, value, UInt8.toNat_ofNat']
    omega
  | case2 n h ih =>
    rw [value, ih, UInt8.toNat_ofNat']
    omega

/-- The shortest code of a number fits where the number does. -/
theorem length_encode_le {n k : ℕ} (h : n < 128 ^ (k + 1)) : (encode n).length ≤ k + 1 := by
  induction k generalizing n with
  | zero =>
    rw [encode, if_pos (by omega)]
    rfl
  | succ k ih =>
    rw [encode]
    split
    · simp
    · have hdiv : n / 128 < 128 ^ (k + 1) := Nat.div_lt_of_lt_mul (by rwa [pow_succ'] at h)
      exact Nat.succ_le_succ (ih hdiv)

/-- Somewhere a zero follows a marked byte: a code ends in a group of zeros there. -/
def Padded (bytes : List UInt8) : Prop :=
  ¬ bytes.IsChain fun a b => 128 ≤ a.toNat → b ≠ 0

instance (bytes : List UInt8) : Decidable (Padded bytes) :=
  inferInstanceAs (Decidable (¬ bytes.IsChain fun a b => 128 ≤ a.toNat → b ≠ 0))

theorem not_padded_encode (n : ℕ) : ¬ Padded (encode n) := by
  rw [Padded, not_not]
  fun_induction encode n with
  | case1 n h => exact .singleton _
  | case2 n h ih =>
    refine List.isChain_cons.2 ⟨?_, ih⟩
    intro b hb _ hzero
    rw [encode] at hb
    split at hb
    · next hsmall =>
      cases hb
      have hnat := congrArg UInt8.toNat hzero
      rw [UInt8.toNat_ofNat', UInt8.toNat_zero] at hnat
      omega
    · next hlarge =>
      cases hb
      have hnat := congrArg UInt8.toNat hzero
      rw [UInt8.toNat_ofNat', UInt8.toNat_zero] at hnat
      omega

/-- The high groups of a code that is not padded are not all zero. -/
theorem Code.value_pos (h : Code code) (hhead : code ≠ [0])
    (hchain : code.IsChain fun a b => 128 ≤ a.toNat → b ≠ 0) : 0 < value code := by
  induction h with
  | @last b hb =>
    have hne : b.toNat ≠ 0 := fun hzero =>
      hhead (congrArg (fun b => [b]) (UInt8.toNat_inj.1 hzero))
    rw [value, value]
    omega
  | @more b bs hb hbs ih =>
    obtain ⟨hnext, hchain⟩ := List.isChain_cons.1 hchain
    have hne : bs ≠ [0] := by
      rintro rfl
      exact hnext 0 rfl hb rfl
    have := ih hne hchain
    rw [value]
    omega

/-- **A code is the shortest one exactly when it is not padded.** -/
theorem Code.eq_encode_iff (h : Code code) : code = encode (value code) ↔ ¬ Padded code := by
  refine ⟨fun heq => heq ▸ not_padded_encode _, ?_⟩
  rw [Padded, not_not]
  intro hchain
  induction h with
  | @last b hb =>
    rw [value, value, encode, if_pos (by omega)]
    congr 1
    apply UInt8.toNat_inj.1
    rw [UInt8.toNat_ofNat']
    omega
  | @more b bs hb hbs ih =>
    obtain ⟨hnext, hchain⟩ := List.isChain_cons.1 hchain
    have hne : bs ≠ [0] := by
      rintro rfl
      exact hnext 0 rfl hb rfl
    have hpos := hbs.value_pos hne hchain
    have hb256 := b.toNat_lt
    rw [value, encode, if_neg (by omega)]
    have hdiv : (b.toNat % 128 + 128 * value bs) / 128 = value bs := by omega
    have hmod : (b.toNat % 128 + 128 * value bs) % 128 + 128 = b.toNat := by omega
    rw [hdiv, hmod, UInt8.ofNat_toNat, ← ih hchain]

/-! ## Several codes -/

theorem flatten_inj {codes codes' : List (List UInt8)} (h : ∀ c ∈ codes, Code c)
    (h' : ∀ c ∈ codes', Code c) (hlen : codes.length = codes'.length)
    (heq : codes.flatten = codes'.flatten) : codes = codes' := by
  induction codes generalizing codes' with
  | nil => exact (List.length_eq_zero_iff.1 hlen.symm).symm
  | cons c codes ih =>
    cases codes' with
    | nil => cases hlen
    | cons c' codes' =>
      rw [List.flatten_cons, List.flatten_cons] at heq
      obtain ⟨rfl, hrest⟩ := (h c (.head _)).append_inj (h' c' (.head _)) heq
      rw [ih (fun x hx => h x (.tail _ hx)) (fun x hx => h' x (.tail _ hx)) (Nat.succ.inj hlen)
        hrest]

/-- The last byte of a code is not marked. -/
theorem Code.getLast?_lt (h : Code code) : ∀ b ∈ code.getLast?, b.toNat < 128 := by
  induction h with
  | last hb =>
    intro b hmem
    cases hmem
    exact hb
  | more hb hbs ih =>
    intro b hmem
    rw [List.getLast?_cons_of_ne_nil hbs.ne_nil] at hmem
    exact ih b hmem

/-- What is padded is one of the codes. -/
theorem not_padded_flatten {codes : List (List UInt8)} (h : ∀ c ∈ codes, Code c) :
    ¬ Padded codes.flatten ↔ ∀ c ∈ codes, ¬ Padded c := by
  have hnil : [] ∉ codes := fun hmem => (h [] hmem).ne_nil rfl
  have hbetween : codes.IsChain fun c c' => ∀ a ∈ c.getLast?, ∀ b ∈ c'.head?,
      128 ≤ a.toNat → b ≠ 0 := by
    refine (List.pairwise_of_forall_mem_list ?_).isChain
    intro c hc _ _ a ha b _ hmarked
    have hlast := (h c hc).getLast?_lt a ha
    omega
  simp only [Padded, not_not]
  rw [List.isChain_flatten hnil]
  exact ⟨And.left, fun hall => ⟨hall, hbetween⟩⟩

/-- Several codes are the shortest ones of their numbers exactly when none of them is padded. -/
theorem flatten_eq_encode_iff {codes : List (List UInt8)} (h : ∀ c ∈ codes, Code c) :
    codes.flatten = ((codes.map value).map encode).flatten ↔ ¬ Padded codes.flatten := by
  rw [not_padded_flatten h, List.map_map]
  refine ⟨?_, ?_⟩
  · intro heq c hc
    have hcodes : codes = codes.map (encode ∘ value) := by
      refine flatten_inj h ?_ (by simp) heq
      simpa using fun c _ => code_encode (value c)
    have hsame : c = encode (value c) := by
      obtain ⟨i, hi, rfl⟩ := List.getElem_of_mem hc
      have hget : codes[i]? = (codes.map (encode ∘ value))[i]? := by rw [← hcodes]
      rw [List.getElem?_map, List.getElem?_eq_getElem hi] at hget
      exact Option.some.inj hget
    exact (h c hc).eq_encode_iff.1 hsame
  · intro hall
    have hcodes : codes.map (encode ∘ value) = codes := by
      rw [List.map_congr_left (g := id), List.map_id]
      intro c hc
      exact ((h c hc).eq_encode_iff.2 (hall c hc)).symm
    rw [hcodes]

/-! ## Reading a code -/

/-- The code at the front of the bytes, and what comes after it. -/
def splitCode : List UInt8 → Option (List UInt8 × List UInt8)
  | [] => none
  | b :: bs =>
    if b.toNat < 128 then some ([b], bs)
    else (splitCode bs).map fun (code, rest) => (b :: code, rest)

theorem splitCode_append (h : Code code) (rest : List UInt8) :
    splitCode (code ++ rest) = some (code, rest) := by
  induction h with
  | last hb => rw [List.singleton_append, splitCode, if_pos hb]
  | more hb hbs ih =>
    rw [List.cons_append, splitCode, if_neg (by omega), ih]
    rfl

theorem splitCode_eq_some {bytes : List UInt8} :
    splitCode bytes = some (code, rest) ↔ bytes = code ++ rest ∧ Code code := by
  refine ⟨?_, ?_⟩
  · intro h
    induction bytes generalizing code rest with
    | nil => cases h
    | cons b bs ih =>
      rw [splitCode] at h
      split at h
      · next hb =>
        cases h
        exact ⟨rfl, .last hb⟩
      · next hb =>
        obtain ⟨⟨code', rest'⟩, hrest, heq⟩ := Option.map_eq_some_iff.1 h
        cases heq
        obtain ⟨rfl, hcode⟩ := ih hrest
        exact ⟨rfl, .more (by omega) hcode⟩
  · rintro ⟨rfl, hcode⟩
    exact splitCode_append hcode rest

/-! ## Signed numbers -/

/-- `0, -1, 1, -2, …` as `0, 1, 2, 3, …` -/
def zigzag (i : ℤ) : ℕ := if 0 ≤ i then 2 * i.toNat else 2 * (-i).toNat - 1

def unzigzag (n : ℕ) : ℤ := if n % 2 = 0 then (n / 2 : ℕ) else -((n / 2 : ℕ) + 1)

@[simp] theorem unzigzag_zigzag (i : ℤ) : unzigzag (zigzag i) = i := by
  unfold zigzag unzigzag
  split <;> split <;> omega

@[simp] theorem zigzag_unzigzag (n : ℕ) : zigzag (unzigzag n) = n := by
  unfold zigzag unzigzag
  split <;> split <;> omega

/-- The integers of `k + 1` bits take `k + 1` bits. -/
theorem zigzag_lt {i : ℤ} {k : ℕ} : zigzag i < 2 ^ (k + 1) ↔ -2 ^ k ≤ i ∧ i < 2 ^ k := by
  have hpow : (2 : ℕ) ^ (k + 1) = 2 * 2 ^ k := pow_succ' 2 k
  have hcast : ((2 : ℤ) ^ k) = ((2 ^ k : ℕ) : ℤ) := by push_cast; rfl
  rw [hpow, hcast]
  unfold zigzag
  split <;> omega

end Varint
