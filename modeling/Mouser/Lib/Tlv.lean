import Mouser.Lib.Framing

/-!
# Elements of a tag, a length and a content

An element is a tag, the octets that say how long its content is, and the content. A length below
128 is one octet; any other length is in the octets behind one that counts them, most significant
first, and a length may be written in more octets than it needs. `read` takes the first element off
the bytes and gives what is behind it. `read_eq_some` says that this is the one way to cut an
element off (`IsElement.append_inj`), and `isElement_element` that every content has an element.
-/

namespace Tlv

open Framing

/-- The octets say a length of `n`. -/
inductive IsLength (max : ℕ) : List UInt8 → ℕ → Prop where
  | short (b : UInt8) (h : b.toNat < 128) : IsLength max [b] b.toNat
  | long (b : UInt8) (octets : List UInt8) (hpos : 0 < octets.length) (hmax : octets.length ≤ max)
    (h : b.toNat = 128 + octets.length) : IsLength max (b :: octets) (ofLeBytes octets.reverse)

/-- The bytes are an element, with a length of at most `max` octets behind the first. -/
def IsElement (max : ℕ) (bytes : List UInt8) (tag : UInt8) (content : List UInt8) : Prop :=
  ∃ octets, IsLength max octets content.length ∧ bytes = tag :: octets ++ content

/-- The length at the head of the bytes, and how many octets it takes. -/
def readLength (max : ℕ) : List UInt8 → Option (ℕ × ℕ)
  | [] => none
  | b :: rest =>
    if b.toNat < 128 then some (b.toNat, 1)
    else
      let n := b.toNat - 128
      if n = 0 ∨ max < n ∨ rest.length < n then none
      else some (ofLeBytes (rest.take n).reverse, 1 + n)

def read (max : ℕ) : List UInt8 → Option (UInt8 × List UInt8 × List UInt8)
  | [] => none
  | tag :: input =>
    match readLength max input with
    | none => none
    | some (len, octets) =>
      let body := input.drop octets
      if body.length < len then none else some (tag, body.take len, body.drop len)

/-- The shortest octets for a length. -/
def lengthOctets (max n : ℕ) : List UInt8 :=
  if n < 128 then [.ofNat n] else .ofNat (128 + max) :: (leBytes max n).reverse

def element (max : ℕ) (tag : UInt8) (content : List UInt8) : List UInt8 :=
  tag :: lengthOctets max content.length ++ content

variable {max : ℕ}

theorem IsLength.ne_nil {octets : List UInt8} {n : ℕ} (h : IsLength max octets n) :
    octets ≠ [] := by
  cases h <;> exact List.cons_ne_nil _ _

/-- **What `readLength` reads**: the octets of a length, whatever is behind them. -/
theorem readLength_eq_some {input : List UInt8} {len k : ℕ} :
    readLength max input = some (len, k) ↔
      IsLength max (input.take k) len ∧ k ≤ input.length := by
  cases input with
  | nil =>
    refine ⟨nofun, ?_⟩
    rintro ⟨h, -⟩
    exact absurd List.take_nil h.ne_nil
  | cons b rest =>
    rw [readLength]
    refine ⟨?_, ?_⟩
    · intro h
      dsimp only at h
      split_ifs at h with hshort
      · obtain ⟨rfl, rfl⟩ := Prod.mk.inj (Option.some.inj h)
        rw [List.take_one, List.head?_cons, Option.toList_some]
        refine ⟨.short b hshort, ?_⟩
        rw [List.length_cons]
        omega
      · obtain ⟨hlen, hk⟩ := Prod.mk.inj (Option.some.inj h)
        subst hlen hk
        have hlength : (rest.take (b.toNat - 128)).length = b.toNat - 128 := by
          rw [List.length_take]
          omega
        rw [Nat.add_comm 1, List.take_succ_cons]
        refine ⟨.long b _ (by omega) (by omega) (by omega), ?_⟩
        rw [List.length_cons]
        omega
    · rintro ⟨h, hk⟩
      generalize hoctets : (b :: rest).take k = octets at h
      have hcount : octets.length = k := by rw [← hoctets, List.length_take_of_le hk]
      cases h with
      | short c hshort =>
        obtain rfl : k = 1 := hcount.symm
        obtain ⟨rfl, -⟩ := List.cons.inj hoctets
        rw [if_pos hshort]
      | long c octets hpos hmax hc =>
        obtain ⟨n, rfl⟩ : ∃ n, k = n + 1 := ⟨octets.length, hcount.symm⟩
        rw [List.take_succ_cons] at hoctets
        obtain ⟨rfl, htake⟩ := List.cons.inj hoctets
        rw [List.length_cons] at hcount hk
        have hn : b.toNat - 128 = n := by omega
        rw [if_neg (by omega), hn, if_neg (by omega), htake, Nat.add_comm]

/-- **What `read` reads**: an element, and what is behind it. -/
theorem read_eq_some {input content rest : List UInt8} {tag : UInt8} :
    read max input = some (tag, content, rest) ↔
      ∃ bytes, IsElement max bytes tag content ∧ input = bytes ++ rest := by
  refine ⟨?_, ?_⟩
  · intro h
    cases input with
    | nil => cases h
    | cons t input =>
      rw [read] at h
      cases hlength : readLength max input with
      | none =>
        rw [hlength] at h
        cases h
      | some p =>
        obtain ⟨len, k⟩ := p
        rw [hlength] at h
        dsimp only at h
        split_ifs at h with hshort
        obtain ⟨rfl, rfl, rfl⟩ : t = tag ∧ (input.drop k).take len = content ∧
            (input.drop k).drop len = rest := by simpa using h
        obtain ⟨hoctets, -⟩ := readLength_eq_some.1 hlength
        have hcontent : ((input.drop k).take len).length = len :=
          List.length_take_of_le (Nat.le_of_not_lt hshort)
        refine ⟨t :: input.take k ++ (input.drop k).take len,
          ⟨input.take k, by rwa [hcontent], rfl⟩, ?_⟩
        rw [List.cons_append, List.cons_append, List.append_assoc, List.take_append_drop,
          List.take_append_drop]
  · rintro ⟨-, ⟨octets, hoctets, rfl⟩, rfl⟩
    have hread : readLength max (octets ++ content ++ rest) =
        some (content.length, octets.length) := by
      refine readLength_eq_some.2 ⟨?_, by simp⟩
      rwa [List.append_assoc, List.take_left]
    rw [List.cons_append, List.cons_append, read, hread]
    dsimp only
    rw [List.append_assoc, List.drop_left, if_neg (by rw [List.length_append]; omega),
      List.take_left, List.drop_left]

/-- There is one way to cut an element off the bytes. -/
theorem IsElement.append_inj {bytes bytes' content content' rest rest' : List UInt8}
    {tag tag' : UInt8} (h : IsElement max bytes tag content)
    (h' : IsElement max bytes' tag' content') (heq : bytes ++ rest = bytes' ++ rest') :
    tag = tag' ∧ content = content' ∧ rest = rest' := by
  have hread : read max (bytes ++ rest) = some (tag, content, rest) :=
    read_eq_some.2 ⟨bytes, h, rfl⟩
  rw [heq, read_eq_some.2 ⟨bytes', h', rfl⟩] at hread
  cases hread
  exact ⟨rfl, rfl, rfl⟩

theorem isLength_lengthOctets (hpos : 0 < max) (hmax : max < 128) {n : ℕ} (hn : n < 256 ^ max) :
    IsLength max (lengthOctets max n) n := by
  unfold lengthOctets
  split
  · next hshort =>
    have hbyte : (UInt8.ofNat n).toNat = n := by
      rw [UInt8.toNat_ofNat']
      omega
    have h : IsLength max [UInt8.ofNat n] (UInt8.ofNat n).toNat := .short _ (by rwa [hbyte])
    rwa [hbyte] at h
  · have hlength : (leBytes max n).reverse.length = max := by
      rw [List.length_reverse, length_leBytes]
    have hbyte : (UInt8.ofNat (128 + max)).toNat = 128 + max := by
      rw [UInt8.toNat_ofNat']
      omega
    have h : IsLength max (UInt8.ofNat (128 + max) :: (leBytes max n).reverse)
        (ofLeBytes (leBytes max n).reverse.reverse) :=
      .long _ _ (by omega) hlength.le (by rw [hbyte, hlength])
    rwa [List.reverse_reverse, ofLeBytes_leBytes hn] at h

/-- Every content that is not too long has an element. -/
theorem isElement_element (hpos : 0 < max) (hmax : max < 128) (tag : UInt8) {content : List UInt8}
    (h : content.length < 256 ^ max) : IsElement max (element max tag content) tag content :=
  ⟨_, isLength_lengthOctets hpos hmax h, rfl⟩

end Tlv
