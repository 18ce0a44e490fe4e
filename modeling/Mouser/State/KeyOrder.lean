import Mouser.Lib.Digits
import Mouser.State.Codec

/-!
# The order of the layout register's values

The replicated document compares register values as strings, and a replica compares the stamps they
stand for. `lwwKey_order` says that this is one order: the revision takes twenty decimal digits,
enough for every `u64`, and the hexadecimal digits of a byte are ordered as their values.
-/

namespace Mouser

/-- `0` to `9` and `a` to `f` are in the order of their values. -/
theorem hexDigit_strictMonoOn : StrictMonoOn hexDigit (Set.Iio 16) := by
  have h : ∀ m < 16, ∀ n < 16, m < n → hexDigit m < hexDigit n := by decide
  intro m hm n hn
  exact h m hm n hn

/-! ## The revision -/

theorem paddedDec_eq_fixed (k n : ℕ) : paddedDec k n = (Digits.fixed 10 k n).map hexDigit := by
  induction k generalizing n with
  | zero => rfl
  | succ k ih => rw [paddedDec, Digits.fixed, List.map_append, ih, List.map_singleton]

/-- Zero-padded numbers of the same width are ordered as numbers. -/
theorem paddedDec_lt_iff {k m n : ℕ} (hm : m < 10 ^ k) (hn : n < 10 ^ k) :
    paddedDec k m < paddedDec k n ↔ m < n := by
  have hdigit : ∀ l, ∀ d ∈ Digits.fixed 10 k l, d ∈ Set.Iio 16 := fun l d hd =>
    lt_trans (Digits.lt_of_mem_fixed (by decide) hd) (by decide)
  rw [paddedDec_eq_fixed, paddedDec_eq_fixed,
    Digits.map_lt_map_iff hexDigit_strictMonoOn (hdigit m) (hdigit n),
    Digits.fixed_lt_fixed_iff hm hn]

theorem paddedDec_inj {k m n : ℕ} (hm : m < 10 ^ k) (hn : n < 10 ^ k) :
    paddedDec k m = paddedDec k n ↔ m = n := by
  refine ⟨fun h => ?_, congrArg _⟩
  have hvalue := congrArg digitsValue h
  rw [digitsValue_paddedDec hm, digitsValue_paddedDec hn] at hvalue
  exact Option.some.inj hvalue

/-! ## The editor -/

/-- The two hexadecimal digits of a byte. -/
theorem hexPair_strictMonoOn :
    StrictMonoOn (fun n => [hexDigit (n / 16), hexDigit (n % 16)]) (Set.Iio 256) := by
  intro m hm n hn hlt
  rw [Set.mem_Iio] at hm hn
  have hhi := hexDigit_strictMonoOn.lt_iff_lt (a := m / 16) (b := n / 16)
    (Set.mem_Iio.2 (by omega)) (Set.mem_Iio.2 (by omega))
  have hlo := hexDigit_strictMonoOn.lt_iff_lt (a := m % 16) (b := n % 16)
    (Set.mem_Iio.2 (by omega)) (Set.mem_Iio.2 (by omega))
  rcases Digits.div_lt_or_mod_lt_iff (b := 16).1 hlt with hdiv | ⟨hdiv, hmod⟩
  · exact List.cons_lt_cons_iff.2 (.inl (hhi.2 hdiv))
  · refine List.cons_lt_cons_iff.2 (.inr ⟨congrArg hexDigit hdiv, ?_⟩)
    exact List.cons_lt_cons_iff.2 (.inl (hlo.2 hmod))

theorem deviceIdHex_eq_key (id : DeviceId) :
    deviceIdHex id =
      .ofList (id.key.flatMap fun n => [hexDigit (n / 16), hexDigit (n % 16)]) := by
  rw [deviceIdHex, DeviceId.key, List.flatMap_map]

/-- Hexadecimal ids are ordered as the ids. -/
theorem deviceIdHex_lt_iff (a b : DeviceId) :
    (deviceIdHex a).toList < (deviceIdHex b).toList ↔ a < b := by
  have hbyte : ∀ id : DeviceId, ∀ n ∈ id.key, n ∈ Set.Iio 256 := by
    intro id n hn
    obtain ⟨b, -, rfl⟩ := List.mem_map.1 hn
    exact b.toNat_lt
  have hlength : a.key.length = b.key.length := by
    rw [DeviceId.key, DeviceId.key, List.length_map, List.length_map, a.length_eq, b.length_eq]
  have hpair (n : ℕ) : [hexDigit (n / 16), hexDigit (n % 16)].length = 2 := rfl
  rw [deviceIdHex_eq_key, deviceIdHex_eq_key, String.toList_ofList, String.toList_ofList,
    Digits.flatMap_lt_flatMap_iff hpair hexPair_strictMonoOn (hbyte a) (hbyte b) hlength]
  rfl

/-! ## The register value -/

theorem lwwKey_lt_iff (a b : LayoutStamp) : lwwKey a < lwwKey b ↔ a < b := by
  have ha : a.rev.toNat < 10 ^ 20 := a.rev.toNat_lt.trans (by decide)
  have hb : b.rev.toNat < 10 ^ 20 := b.rev.toNat_lt.trans (by decide)
  rw [String.lt_iff_toList_lt, lwwKey, lwwKey, String.toList_ofList, String.toList_ofList,
    Digits.append_lt_append_iff (by rw [length_paddedDec, length_paddedDec]),
    paddedDec_lt_iff ha hb, paddedDec_inj ha hb, List.cons_lt_cons_self, deviceIdHex_lt_iff,
    LayoutStamp.lt_iff]

/-- **The register's values are ordered as the stamps**: a value is read back as the stamp it was
written for, and two values compare as strings just as their stamps do, the revision first and the
editor's bytes behind it. -/
theorem lwwKey_order (a b : LayoutStamp) :
    decodeLww (lwwKey a) = some a ∧
      (lwwKey a < lwwKey b ↔
        a.rev.toNat < b.rev.toNat ∨ a.rev.toNat = b.rev.toNat ∧ a.editor < b.editor) ∧
      (lwwKey a = lwwKey b ↔ a = b) :=
  ⟨decodeLww_lwwKey a, (lwwKey_lt_iff a b).trans LayoutStamp.lt_iff, lwwKey_injective.eq_iff⟩

end Mouser
