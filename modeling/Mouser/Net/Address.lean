import Mouser.Lib.Digits
import Mathlib.Data.Prod.Lex
import Mathlib.Data.UInt

/-!
# IP addresses as text

Addresses are sorted by their text, so two addresses must not have the same one. An IPv4 address is
four decimal numbers; an IPv6 address is eight hexadecimal groups, of which the longest run of zeros
is left out, or an IPv4 address behind `::ffff:` where it is mapped. `text_injective` puts the run
back: the groups before and behind it are there to be read, and the run fills up to eight.
-/

namespace Mouser

open Digits

abbrev Ipv4Addr := Vector UInt8 4

abbrev Ipv6Addr := Vector UInt16 8

inductive IpAddr where
  | v4 (addr : Ipv4Addr)
  | v6 (addr : Ipv6Addr)
deriving DecidableEq

namespace Ipv4Addr

def isLoopback (a : Ipv4Addr) : Bool := a.toList.take 1 = [127]

def isLinkLocal (a : Ipv4Addr) : Bool := a.toList.take 2 = [169, 254]

def isUnspecified (a : Ipv4Addr) : Bool := a = #v[0, 0, 0, 0]

/-- The octets in decimal, between dots. -/
def text (a : Ipv4Addr) : List Char :=
  ['.'].intercalate (a.toList.map fun octet => Nat.toDigits 10 octet.toNat)

theorem text_injective : Function.Injective text := by
  intro a b h
  have hdot : ∀ v : Ipv4Addr, ∀ octet ∈ v.toList.map fun octet => Nat.toDigits 10 octet.toNat,
      '.' ∉ octet := by
    intro v octet hoctet hmem
    obtain ⟨o, -, rfl⟩ := List.mem_map.1 hoctet
    obtain ⟨d, hd, heq⟩ := mem_toDigits (by decide) hmem
    have hall : ∀ d < 10, '.' ≠ d.digitChar := by decide
    exact hall d hd heq
  have hne : ∀ v : Ipv4Addr, (v.toList.map fun octet => Nat.toDigits 10 octet.toNat) ≠ [] := by
    intro v hnil
    have hlength := congrArg List.length hnil
    simp at hlength
  have hsplit := congrArg (List.splitOn '.') h
  rw [text, text, List.splitOn_intercalate _ (hdot a) (hne a),
    List.splitOn_intercalate _ (hdot b) (hne b)] at hsplit
  have hinj : Function.Injective fun octet : UInt8 => Nat.toDigits 10 octet.toNat :=
    (toDigits_injective (by decide) (by decide)).comp fun _ _ => UInt8.toNat_inj.1
  exact Vector.toList_inj.1 (hinj.list_map hsplit)

end Ipv4Addr

/-! ## The text of an IPv6 address -/

/-- Where a run of groups starts, and how long it is. -/
structure Span where
  start : ℕ
  len : ℕ
deriving DecidableEq

namespace Ipv6Addr

def isLoopback (a : Ipv6Addr) : Bool := a = #v[0, 0, 0, 0, 0, 0, 0, 1]

def isUnicastLinkLocal (a : Ipv6Addr) : Bool := a[0] &&& 0xffc0 = 0xfe80

def isUnspecified (a : Ipv6Addr) : Bool := a = #v[0, 0, 0, 0, 0, 0, 0, 0]

/-- The IPv4 address that is mapped to this one. -/
def toIpv4Mapped (a : Ipv6Addr) : Option Ipv4Addr :=
  if a.toList.take 6 = [0, 0, 0, 0, 0, 0xffff] then
    some #v[(a[6] >>> 8).toUInt8, a[6].toUInt8, (a[7] >>> 8).toUInt8, a[7].toUInt8]
  else none

/-- The scan for the longest run of zeros, at the segment `i`. -/
def scanZeros : List UInt16 → ℕ → Span → Span → Span
  | [], _, longest, _ => longest
  | segment :: segments, i, longest, current =>
    if segment = 0 then
      let current : Span := ⟨if current.len = 0 then i else current.start, current.len + 1⟩
      scanZeros segments (i + 1) (if longest.len < current.len then current else longest) current
    else scanZeros segments (i + 1) longest ⟨0, 0⟩

def group (segment : UInt16) : List Char := Nat.toDigits 16 segment.toNat

/-- A part of the address, between colons. -/
def fmtSubslice (segments : List UInt16) : List Char := [':'].intercalate (segments.map group)

/-- The groups with the longest run of zeros left out. -/
def groupsText (segments : List UInt16) : List Char :=
  let zeroes := scanZeros segments 0 ⟨0, 0⟩ ⟨0, 0⟩
  if 1 < zeroes.len then
    fmtSubslice (segments.take zeroes.start) ++ ':' :: ':' ::
      fmtSubslice (segments.drop (zeroes.start + zeroes.len))
  else fmtSubslice segments

def text (a : Ipv6Addr) : List Char :=
  match a.toIpv4Mapped with
  | some v4 => "::ffff:".toList ++ v4.text
  | none => groupsText a.toList

/-! ### The run of zeros -/

/-- The span is a run of zeros. -/
def IsRun (segments : List UInt16) (span : Span) : Prop :=
  ∃ front back, segments = front ++ List.replicate span.len 0 ++ back ∧ front.length = span.start

/-- The span is a run of zeros at the end. -/
def IsLastRun (segments : List UInt16) (span : Span) : Prop :=
  span.len = 0 ∨
    ∃ front, segments = front ++ List.replicate span.len 0 ∧ front.length = span.start

theorem IsRun.append {segments : List UInt16} {span : Span} (h : IsRun segments span)
    (more : List UInt16) : IsRun (segments ++ more) span := by
  obtain ⟨front, back, rfl, hfront⟩ := h
  exact ⟨front, back ++ more, by simp only [List.append_assoc], hfront⟩

theorem isRun_empty (segments : List UInt16) : IsRun segments ⟨0, 0⟩ := ⟨[], segments, rfl, rfl⟩

/-- One more zero. -/
theorem IsLastRun.concat {segments : List UInt16} {span : Span} (h : IsLastRun segments span) :
    ∃ front, segments ++ [0] = front ++ List.replicate (span.len + 1) 0 ∧
      front.length = if span.len = 0 then segments.length else span.start := by
  by_cases hzero : span.len = 0
  · exact ⟨segments, by rw [hzero]; rfl, by rw [if_pos hzero]⟩
  · obtain ⟨front, rfl, hfront⟩ := h.resolve_left hzero
    refine ⟨front, ?_, by rw [if_neg hzero, hfront]⟩
    rw [List.replicate_succ', List.append_assoc]

/-- What the scan finds is a run of zeros. -/
theorem isRun_scanZeros (segments done : List UInt16) {longest current : Span}
    (hlongest : IsRun done longest) (hcurrent : IsLastRun done current) :
    IsRun (done ++ segments) (scanZeros segments done.length longest current) := by
  induction segments generalizing done longest current with
  | nil => rwa [List.append_nil]
  | cons segment segments ih =>
    have hdone : done ++ segment :: segments = done ++ [segment] ++ segments := by simp
    have hlength : done.length + 1 = (done ++ [segment]).length := by simp
    rw [scanZeros, hdone, hlength]
    by_cases hzero : segment = 0
    · rw [if_pos hzero]
      subst hzero
      obtain ⟨front, hrun, hfront⟩ := hcurrent.concat
      refine ih _ ?_ (.inr ⟨front, hrun, hfront⟩)
      by_cases hlonger : longest.len < current.len + 1
      · rw [if_pos hlonger]
        exact ⟨front, [], by rw [hrun, List.append_nil], hfront⟩
      · rw [if_neg hlonger]
        exact hlongest.append _
    · rw [if_neg hzero]
      exact ih _ (hlongest.append _) (.inl rfl)

/-- The groups before the longest run of zeros, the run, and the groups behind it. -/
theorem exists_zeros (segments : List UInt16) :
    ∃ front back, segments = front ++ List.replicate
        (scanZeros segments 0 ⟨0, 0⟩ ⟨0, 0⟩).len 0 ++ back ∧
      segments.take (scanZeros segments 0 ⟨0, 0⟩ ⟨0, 0⟩).start = front ∧
      segments.drop ((scanZeros segments 0 ⟨0, 0⟩ ⟨0, 0⟩).start +
        (scanZeros segments 0 ⟨0, 0⟩ ⟨0, 0⟩).len) = back := by
  have hrun : IsRun segments (scanZeros segments 0 ⟨0, 0⟩ ⟨0, 0⟩) :=
    isRun_scanZeros segments [] (isRun_empty []) (.inl rfl)
  generalize scanZeros segments 0 ⟨0, 0⟩ ⟨0, 0⟩ = zeroes at hrun ⊢
  obtain ⟨front, back, rfl, hfront⟩ := hrun
  refine ⟨front, back, rfl, ?_, ?_⟩
  · rw [List.append_assoc, ← hfront, List.take_left]
  · have hlength : (front ++ List.replicate zeroes.len (0 : UInt16)).length =
        zeroes.start + zeroes.len := by
      rw [List.length_append, List.length_replicate, hfront]
    rw [← hlength, List.drop_left]

/-! ### Reading the groups back -/

theorem group_injective : Function.Injective group :=
  (toDigits_injective (by decide) (by decide)).comp fun _ _ => UInt16.toNat_inj.1

theorem group_ne_nil (segment : UInt16) : group segment ≠ [] := Nat.toDigits_ne_nil

theorem not_mem_group {c : Char} (hc : ∀ d < 16, c ≠ d.digitChar) (segment : UInt16) :
    c ∉ group segment := by
  intro hmem
  obtain ⟨d, hd, heq⟩ := mem_toDigits (by decide) hmem
  exact hc d hd heq

/-- A part of the address, at its colons. -/
theorem splitOn_fmtSubslice (segments : List UInt16) :
    (fmtSubslice segments).splitOn ':' =
      if segments = [] then [[]] else segments.map group := by
  split
  · next h =>
    rw [h]
    rfl
  · next h =>
    refine List.splitOn_intercalate _ ?_ (by simpa using h)
    intro g hg
    obtain ⟨segment, -, rfl⟩ := List.mem_map.1 hg
    exact not_mem_group (by decide) segment

/-- The groups of a text, with the run of zeros put back. -/
def fillGroups (groups : List (List Char)) : List (List Char) :=
  if [] ∈ groups then
    let front := groups.takeWhile (· ≠ [])
    let back := (groups.reverse.takeWhile (· ≠ [])).reverse
    front ++ List.replicate (8 - front.length - back.length) (group 0) ++ back
  else groups

/-- The groups up to the first that is empty. -/
theorem takeWhile_groups (segments : List UInt16) (rest : List (List Char)) :
    ((if segments = [] then [[]] else segments.map group) ++ [] :: rest).takeWhile (· ≠ []) =
      segments.map group := by
  split
  · next h =>
    rw [h]
    rfl
  · have hall : ∀ g ∈ segments.map group, decide (g ≠ []) = true := by
      intro g hg
      obtain ⟨segment, -, rfl⟩ := List.mem_map.1 hg
      exact decide_eq_true (group_ne_nil segment)
    rw [List.takeWhile_append_of_pos hall, List.takeWhile_cons_of_neg (by simp), List.append_nil]

/-- The groups behind the last that is empty. -/
theorem takeWhile_reverse_groups (segments : List UInt16) (rest : List (List Char)) :
    (rest ++ [] :: if segments = [] then [[]] else segments.map group).reverse.takeWhile
      (· ≠ []) = (segments.map group).reverse := by
  have hreverse : (if segments = [] then [[]] else segments.map group).reverse =
      if segments.reverse = [] then [[]] else segments.reverse.map group := by
    by_cases h : segments = [] <;> simp [h]
  rw [List.reverse_append, List.reverse_cons, List.append_assoc, List.singleton_append, hreverse,
    takeWhile_groups, List.map_reverse]

/-- **The run of zeros is put back.** -/
theorem fillGroups_groupsText {segments : List UInt16} (h : segments.length = 8) :
    fillGroups ((groupsText segments).splitOn ':') = segments.map group := by
  obtain ⟨front, back, hsegments, hfront, hback⟩ := exists_zeros segments
  unfold groupsText
  dsimp only
  rw [hfront, hback]
  generalize (scanZeros segments 0 ⟨0, 0⟩ ⟨0, 0⟩).len = len at hsegments ⊢
  split
  · have hcolon : (':' :: fmtSubslice back).splitOn ':' = [] :: (fmtSubslice back).splitOn ':' :=
      List.splitOn_append_cons_self [] (fmtSubslice back)
    have hlength : front.length + len + back.length = 8 := by
      rw [← h, hsegments]
      simp only [List.length_append, List.length_replicate]
    have hlen : 8 - front.length - back.length = len := by omega
    rw [List.splitOn_append_cons_self, hcolon, splitOn_fmtSubslice, splitOn_fmtSubslice,
      fillGroups, if_pos (by simp)]
    dsimp only
    rw [takeWhile_groups, takeWhile_reverse_groups, List.reverse_reverse, List.length_map,
      List.length_map, hlen, hsegments, List.map_append, List.map_append, List.map_replicate]
  · have hne : segments ≠ [] := List.length_pos_iff.1 (by omega)
    rw [splitOn_fmtSubslice, if_neg hne, fillGroups, if_neg]
    intro hmem
    obtain ⟨segment, -, hnil⟩ := List.mem_map.1 hmem
    exact group_ne_nil segment hnil

/-! ### One text, one address -/

/-- The octets of a group determine it. -/
theorem eq_of_octets {m n : UInt16} (hhigh : (m >>> 8).toUInt8 = (n >>> 8).toUInt8)
    (hlow : m.toUInt8 = n.toUInt8) : m = n := by
  have hshift : ∀ k : UInt16, (k >>> 8).toUInt8.toNat = k.toNat / 256 % 256 := by
    intro k
    rw [UInt16.toNat_toUInt8, UInt16.toNat_shiftRight, Nat.shiftRight_eq_div_pow]
    rfl
  have hm := m.toNat_lt
  have hn := n.toNat_lt
  have hhigh' := congrArg UInt8.toNat hhigh
  have hlow' := congrArg UInt8.toNat hlow
  rw [hshift, hshift] at hhigh'
  rw [UInt16.toNat_toUInt8, UInt16.toNat_toUInt8] at hlow'
  rw [← UInt16.toNat_inj]
  omega

theorem drop_toList (a : Ipv6Addr) : a.toList.drop 6 = [a[6], a[7]] := by
  obtain ⟨⟨segments⟩, hlength⟩ := a
  match segments, hlength with
  | [_, _, _, _, _, _, _, _], _ => rfl

/-- An IPv4 address is mapped to one address. -/
theorem eq_of_toIpv4Mapped {a b : Ipv6Addr} {v4 : Ipv4Addr} (ha : a.toIpv4Mapped = some v4)
    (hb : b.toIpv4Mapped = some v4) : a = b := by
  unfold toIpv4Mapped at ha hb
  split at ha
  · next hfront =>
    split at hb
    · next hfront' =>
      have hoctets := (Option.some.inj ha).trans (Option.some.inj hb).symm
      have hoctet : ∀ i (hi : i < 4), _ := fun i hi => congrArg (fun v : Ipv4Addr => v[i]) hoctets
      have h6 : a[6] = b[6] := eq_of_octets (hoctet 0 (by decide)) (hoctet 1 (by decide))
      have h7 : a[7] = b[7] := eq_of_octets (hoctet 2 (by decide)) (hoctet 3 (by decide))
      apply Vector.toList_inj.1
      rw [← List.take_append_drop 6 a.toList, ← List.take_append_drop 6 b.toList, hfront, hfront',
        drop_toList, drop_toList, h6, h7]
    · cases hb
  · cases ha

theorem not_mem_fmtSubslice {c : Char} (hcolon : c ≠ ':') (hc : ∀ d < 16, c ≠ d.digitChar)
    (segments : List UInt16) : c ∉ fmtSubslice segments := by
  induction segments with
  | nil => exact List.not_mem_nil
  | cons segment segments ih =>
    have hgroup := not_mem_group hc segment
    unfold fmtSubslice at ih ⊢
    cases segments with
    | nil => simpa using hgroup
    | cons next segments =>
      rw [List.map_cons, List.map_cons, List.intercalate_cons_cons, ← List.map_cons]
      simp only [List.mem_append, List.mem_singleton, not_or]
      exact ⟨⟨hgroup, hcolon⟩, ih⟩

/-- A dot is in the text of a mapped address alone. -/
theorem dot_mem_text {a : Ipv6Addr} : '.' ∈ a.text ↔ a.toIpv4Mapped.isSome := by
  unfold text
  split
  · next v4 hmapped =>
    rw [hmapped]
    refine iff_of_true (List.mem_append_right _ ?_) rfl
    obtain ⟨⟨octets⟩, hlength⟩ := v4
    match octets, hlength with
    | [_, _, _, _], _ => simp [Ipv4Addr.text]
  · next hmapped =>
    rw [hmapped]
    refine iff_of_false ?_ (by decide)
    have hpart := not_mem_fmtSubslice (c := '.') (by decide) (by decide)
    unfold groupsText
    dsimp only
    split
    · simp [hpart]
    · exact hpart _

/-- **The text of an IPv6 address determines it.** -/
theorem text_injective : Function.Injective text := by
  intro a b h
  have hdot : a.toIpv4Mapped.isSome = b.toIpv4Mapped.isSome := by
    rw [Bool.eq_iff_iff, ← dot_mem_text, ← dot_mem_text, h]
  cases ha : a.toIpv4Mapped with
  | some v =>
    obtain ⟨w, hb⟩ : ∃ w, b.toIpv4Mapped = some w :=
      Option.isSome_iff_exists.1 (by rw [← hdot, ha]; rfl)
    rw [text, text, ha, hb] at h
    have hv : v = w := Ipv4Addr.text_injective (List.append_cancel_left h)
    exact eq_of_toIpv4Mapped ha (hv ▸ hb)
  | none =>
    have hb : b.toIpv4Mapped = none := by
      rw [← Option.not_isSome_iff_eq_none, ← hdot, ha]
      decide
    rw [text, text, ha, hb] at h
    have hgroups := congrArg (fun t : List Char => fillGroups (t.splitOn ':')) h
    dsimp only at hgroups
    rw [fillGroups_groupsText a.length_toList, fillGroups_groupsText b.length_toList] at hgroups
    exact Vector.toList_inj.1 (group_injective.list_map hgroups)

example : text #v[0x2a00, 0, 0, 1, 0, 0, 0, 0xab] = "2a00:0:0:1::ab".toList := by decide

example : text #v[0, 0, 0, 0, 0, 0xffff, 0xc0a8, 0x0132] = "::ffff:192.168.1.50".toList := by
  decide

end Ipv6Addr

namespace IpAddr

def isIpv6 : IpAddr → Bool
  | v4 _ => false
  | v6 _ => true

/-- `to_string`. -/
def text : IpAddr → List Char
  | v4 a => a.text
  | v6 a => a.text

/-- What the addresses of an advertisement are sorted by. -/
def sortKey (ip : IpAddr) : Bool ×ₗ List Char := toLex (ip.isIpv6, ip.text)

/-- **No two addresses have the same sort key.** -/
theorem sortKey_injective : Function.Injective sortKey := by
  intro a b h
  obtain ⟨hfamily, htext⟩ := Prod.mk.inj (toLex.injective h)
  cases a with
  | v4 a =>
    cases b with
    | v4 b => exact congrArg v4 (Ipv4Addr.text_injective htext)
    | v6 b => cases hfamily
  | v6 a =>
    cases b with
    | v4 b => cases hfamily
    | v6 b => exact congrArg v6 (Ipv6Addr.text_injective htext)

end IpAddr

end Mouser
