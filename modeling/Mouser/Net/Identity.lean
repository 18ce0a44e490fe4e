import Mathlib.Data.Nat.Bitwise
import Mouser.Core.Device
import Mouser.Lib.Results
import Mouser.Lib.Tlv
import Mouser.Protocol.Framing

/-!
# The identity in a certificate

A device is known by the hash of its public key, and the key comes in the certificate that the peer
presents. `ed25519PublicKeyFromCert` walks the certificate with a cursor, field by field, and looks
at none of the tags but the one of the optional version. `ed25519PublicKeyFromCert_eq_ok` says for
which bytes it yields which key. `DeviceIdentity` is what a device has of its own, and `checkPin`
what a verifier of certificates asks of the peer.
-/

namespace Mouser

open Framing Tlv

/-- `NetError`, with its texts. -/
inductive LinkError where
  | identity (message : String)
  | tls (message : String)
  | io (message : String)
  | connect (message : String)
  | frame (message : String)
deriving DecidableEq

def LinkError.toString : LinkError → String
  | .identity message => "identity: " ++ message
  | .tls message => "tls: " ++ message
  | .io message => "io: " ++ message
  | .connect message => "connect: " ++ message
  | .frame message => "frame: " ++ message

def badDer : LinkError := .identity "malformed certificate DER"

/-- A reader of fields, at a position of a buffer. -/
structure DerCursor where
  buf : List UInt8
  pos : ℕ

namespace DerCursor

def new (buf : List UInt8) : DerCursor := { buf, pos := 0 }

/-- The loop of `read_tlv` over the octets of a long length. -/
def readLen (buf : List UInt8) (pos : ℕ) : ℕ → ℕ → Except LinkError ℕ
  | 0, len => .ok len
  | n + 1, len =>
    match buf[pos]? with
    | none => .error badDer
    | some b => readLen buf (pos + 1) n (len <<< 8 ||| b.toNat)

/-- The tag of the field at the cursor, and where its content starts and ends. -/
def readTlv (c : DerCursor) : Except LinkError (UInt8 × ℕ × ℕ) :=
  match c.buf[c.pos]? with
  | none => .error badDer
  | some tag =>
    match c.buf[c.pos + 1]? with
    | none => .error badDer
    | some lenByte =>
      match
        if lenByte &&& 0x80 = 0 then .ok (lenByte.toNat, 2)
        else
          let n := (lenByte &&& 0x7F).toNat
          if n = 0 ∨ n > 4 then .error badDer
          else (readLen c.buf (c.pos + 2) n 0).map fun len => (len, 2 + n)
      with
      | .error e => .error e
      | .ok (len, header) =>
        let contentStart := c.pos + header
        let contentEnd := contentStart + len
        if contentEnd > c.buf.length then .error badDer else .ok (tag, contentStart, contentEnd)

/-- `buf.get(start..end)` -/
def get (buf : List UInt8) (start stop : ℕ) : Except LinkError (List UInt8) :=
  match slice buf start stop with
  | none => .error badDer
  | some bytes => .ok bytes

/-- Go to the contents of the sequence at the cursor. -/
def enterSequence (c : DerCursor) : Except LinkError DerCursor := do
  let (_, start, stop) ← c.readTlv
  return { buf := ← get c.buf start stop, pos := 0 }

/-- A cursor over the contents of the sequence at the cursor, which goes past it. -/
def enterFieldSequence (c : DerCursor) : Except LinkError (DerCursor × DerCursor) := do
  let (_, start, stop) ← c.readTlv
  let inner ← get c.buf start stop
  return (new inner, { c with pos := stop })

def skipField (c : DerCursor) : Except LinkError DerCursor := do
  let (_, _, stop) ← c.readTlv
  return { c with pos := stop }

def readFieldContent (c : DerCursor) : Except LinkError (List UInt8 × DerCursor) := do
  let (_, start, stop) ← c.readTlv
  let content ← get c.buf start stop
  return (content, { c with pos := stop })

def skipOptionalContext0 (c : DerCursor) : Except LinkError DerCursor :=
  match c.buf[c.pos]? with
  | none => .error badDer
  | some tag => if tag = 0xA0 then c.skipField else .ok c

end DerCursor

open DerCursor in
/-- The raw public key of the certificate. -/
def ed25519PublicKeyFromCert (der : List UInt8) : Except LinkError (List UInt8) := do
  let cert ← (DerCursor.new der).enterSequence
  let cert ← cert.enterSequence
  let cert ← cert.skipOptionalContext0
  let cert ← cert.skipField -- serialNumber
  let cert ← cert.skipField -- signature AlgorithmIdentifier
  let cert ← cert.skipField -- issuer
  let cert ← cert.skipField -- validity
  let cert ← cert.skipField -- subject
  let (spki, _) ← cert.enterFieldSequence
  let spki ← spki.skipField
  let (bitString, _) ← spki.readFieldContent
  match bitString with
  | [] => .error badDer
  | unused :: key => if unused ≠ 0 ∨ key.length ≠ 32 then .error badDer else return key

/-! ## What the cursor reads -/

namespace DerCursor

/-- The bytes that the cursor has before it. -/
def rest (c : DerCursor) : List UInt8 := c.buf.drop c.pos

def advance (c : DerCursor) (n : ℕ) : DerCursor := { c with pos := c.pos + n }

@[simp] theorem rest_new (buf : List UInt8) : (new buf).rest = buf := List.drop_zero

theorem rest_advance {c : DerCursor} {bytes after : List UInt8} (h : c.rest = bytes ++ after) :
    (c.advance bytes.length).rest = after := by
  rw [rest, advance, ← List.drop_drop]
  exact (congrArg _ h).trans List.drop_left

theorem and_128_eq_zero (b : UInt8) : b &&& 0x80 = 0 ↔ b.toNat < 128 := by
  have hb : b.toNat < 2 ^ (7 + 1) := b.toNat_lt
  have hbit : b.toNat &&& 2 ^ 7 = (b.toNat.testBit 7).toNat * 2 ^ 7 := Nat.and_two_pow ..
  rw [← UInt8.toNat_inj, UInt8.toNat_and]
  change b.toNat &&& 2 ^ 7 = 0 ↔ b.toNat < 2 ^ 7
  rw [hbit, Nat.testBit_eq_decide_div_mod_eq, Nat.mul_eq_zero, Bool.toNat_eq_zero,
    decide_eq_false_iff_not]
  omega

theorem toNat_and_127 (b : UInt8) : (b &&& 0x7F).toNat = b.toNat % 128 := by
  rw [UInt8.toNat_and]
  exact Nat.and_two_pow_sub_one_eq_mod b.toNat 7

theorem readLen_eq (buf : List UInt8) (pos n len : ℕ) :
    readLen buf pos n len =
      if n ≤ (buf.drop pos).length then
        .ok (len * 256 ^ n + ofLeBytes ((buf.drop pos).take n).reverse)
      else .error badDer := by
  induction n generalizing pos len with
  | zero => simp [readLen, ofLeBytes]
  | succ n ih =>
    rw [readLen]
    cases hdrop : buf.drop pos with
    | nil =>
      rw [← List.head?_drop, hdrop]
      rfl
    | cons b after =>
      have hafter : buf.drop (pos + 1) = after := by
        rw [← List.drop_drop, hdrop]
        rfl
      have hb := b.toNat_lt
      have hshift : len <<< 8 ||| b.toNat = len * 256 + b.toNat :=
        (Nat.shiftLeft_add_eq_or_of_lt hb len).symm.trans (by rw [Nat.shiftLeft_eq])
      rw [← List.head?_drop, hdrop, List.head?_cons]
      dsimp only
      rw [ih, hafter, hshift, List.length_cons, List.take_succ_cons, List.reverse_cons,
        ofLeBytes_concat, List.length_reverse]
      by_cases hn : n ≤ after.length
      · rw [if_pos hn, if_pos (Nat.succ_le_succ hn), List.length_take_of_le hn]
        ring_nf
      · rw [if_neg hn, if_neg (by omega)]

/-- The length at the cursor, as `read_tlv` finds it. -/
theorem readLength_eq {buf input : List UInt8} {pos : ℕ} {b : UInt8}
    (hinput : buf.drop (pos + 1) = b :: input) :
    (if b &&& 0x80 = 0 then .ok (b.toNat, 2)
      else
        let n := (b &&& 0x7F).toNat
        if n = 0 ∨ n > 4 then .error badDer
        else (readLen buf (pos + 2) n 0).map fun len => (len, 2 + n)) =
      match readLength 4 (b :: input) with
      | none => .error badDer
      | some (len, octets) => .ok (len, 1 + octets) := by
  have hb := b.toNat_lt
  have hdrop : buf.drop (pos + 2) = input := by
    have htail := congrArg (List.drop 1) hinput
    rwa [List.drop_drop] at htail
  rw [readLength, toNat_and_127]
  by_cases hshort : b.toNat < 128
  · rw [if_pos ((and_128_eq_zero b).2 hshort), if_pos hshort]
  · have hn : b.toNat % 128 = b.toNat - 128 := by omega
    rw [if_neg (mt (and_128_eq_zero b).1 hshort), if_neg hshort, hn]
    dsimp only
    by_cases hbad : b.toNat - 128 = 0 ∨ b.toNat - 128 > 4
    · rw [if_pos hbad, if_pos (by omega)]
    · rw [if_neg hbad, readLen_eq, hdrop]
      by_cases hlength : b.toNat - 128 ≤ input.length
      · rw [if_pos hlength, if_neg (by omega), Nat.zero_mul, Nat.zero_add]
        simp only [Except.map, Except.ok.injEq, Prod.mk.injEq, true_and]
        omega
      · rw [if_neg hlength, if_pos (by omega)]
        rfl

/-- **What `read_tlv` does**: it finds the element at the cursor. -/
theorem readTlv_eq (c : DerCursor) :
    c.readTlv =
      match Tlv.read 4 c.rest with
      | none => .error badDer
      | some (tag, content, after) =>
        .ok (tag, c.buf.length - after.length - content.length, c.buf.length - after.length) := by
  rw [readTlv]
  cases hrest : c.rest with
  | nil =>
    rw [← List.head?_drop]
    rw [rest] at hrest
    rw [hrest]
    rfl
  | cons tag input =>
    have hinput : c.buf.drop (c.pos + 1) = input := by
      rw [← List.drop_drop]
      exact congrArg (List.drop 1) hrest
    have htotal : c.buf.length = c.pos + 1 + input.length := by
      have hlength := congrArg List.length hrest
      rw [rest, List.length_drop, List.length_cons] at hlength
      omega
    rw [rest] at hrest
    rw [← List.head?_drop, ← List.head?_drop (i := c.pos + 1), hrest, hinput, Tlv.read]
    cases input with
    | nil => rfl
    | cons b input =>
      rw [List.head?_cons, List.head?_cons]
      dsimp only
      rw [readLength_eq hinput]
      cases hlength : readLength 4 (b :: input) with
      | none => rfl
      | some p =>
        obtain ⟨len, k⟩ := p
        obtain ⟨-, hk⟩ := readLength_eq_some.1 hlength
        dsimp only
        by_cases hend : ((b :: input).drop k).length < len
        · rw [if_pos hend, if_pos]
          rw [List.length_drop] at hend
          omega
        · rw [if_neg hend]
          rw [List.length_drop] at hend
          rw [if_neg (by omega)]
          simp only [Except.ok.injEq, Prod.mk.injEq, true_and, List.length_drop, List.length_take]
          omega

/-- The cursor behind the element at it. -/
def behind (c : DerCursor) (after : List UInt8) : DerCursor :=
  { c with pos := c.buf.length - after.length }

/-- What comes of an operation that reads the element at the cursor. -/
theorem readTlv_bind_eq_ok {β : Type} {c : DerCursor} {f : UInt8 × ℕ × ℕ → Except LinkError β}
    {b : β} :
    (c.readTlv >>= f) = .ok b ↔
      ∃ tag content after, Tlv.read 4 c.rest = some (tag, content, after) ∧
        f (tag, c.buf.length - after.length - content.length, c.buf.length - after.length) =
          .ok b := by
  rw [readTlv_eq]
  cases Tlv.read 4 c.rest with
  | none => exact ⟨nofun, nofun⟩
  | some p =>
    obtain ⟨tag, content, after⟩ := p
    refine ⟨fun h => ⟨tag, content, after, rfl, h⟩, ?_⟩
    rintro ⟨_, _, _, hread, h⟩
    cases hread
    exact h

/-- The element that is read is before the rest, and ends the buffer with it. -/
theorem split_of_read {c : DerCursor} {tag : UInt8} {content after : List UInt8}
    (h : Tlv.read 4 c.rest = some (tag, content, after)) :
    ∃ front, c.buf = front ++ content ++ after := by
  obtain ⟨-, ⟨octets, -, rfl⟩, hrest⟩ := read_eq_some.1 h
  refine ⟨c.buf.take c.pos ++ (tag :: octets), ?_⟩
  have hbuf := (List.take_append_drop c.pos c.buf).symm
  rw [rest] at hrest
  rw [hrest] at hbuf
  simpa [List.append_assoc] using hbuf

theorem rest_behind {c : DerCursor} {tag : UInt8} {content after : List UInt8}
    (h : Tlv.read 4 c.rest = some (tag, content, after)) : (c.behind after).rest = after := by
  obtain ⟨front, hbuf⟩ := split_of_read h
  rw [behind, rest, hbuf, List.length_append, Nat.add_sub_cancel, List.drop_left]

theorem get_of_read {c : DerCursor} {tag : UInt8} {content after : List UInt8}
    (h : Tlv.read 4 c.rest = some (tag, content, after)) :
    get c.buf (c.buf.length - after.length - content.length) (c.buf.length - after.length) =
      .ok content := by
  obtain ⟨front, hbuf⟩ := split_of_read h
  have hslice : slice c.buf (c.buf.length - after.length - content.length)
      (c.buf.length - after.length) = some content := by
    have hstart : c.buf.length - after.length - content.length = front.length := by
      rw [hbuf]
      simp only [List.length_append]
      omega
    have hstop : c.buf.length - after.length = front.length + content.length := by
      rw [hbuf]
      simp only [List.length_append]
      omega
    refine slice_eq_some.2 ⟨Nat.sub_le _ _, Nat.sub_le _ _, ?_⟩
    rw [hstart, hstop, Nat.add_sub_cancel_left, hbuf, List.append_assoc, List.drop_left,
      List.take_left]
  rw [get, hslice]

theorem skipField_eq_ok {c c' : DerCursor} :
    c.skipField = .ok c' ↔
      ∃ tag content after, Tlv.read 4 c.rest = some (tag, content, after) ∧
        c.behind after = c' := by
  rw [skipField, readTlv_bind_eq_ok]
  simp only [Except.pure_eq_ok]
  rfl

theorem enterSequence_eq_ok {c c' : DerCursor} :
    c.enterSequence = .ok c' ↔
      ∃ tag content after, Tlv.read 4 c.rest = some (tag, content, after) ∧ new content = c' := by
  rw [enterSequence, readTlv_bind_eq_ok]
  refine exists₃_congr fun tag content after => and_congr_right fun hread => ?_
  dsimp only
  rw [get_of_read hread]
  exact Except.pure_eq_ok

theorem enterFieldSequence_eq_ok {c : DerCursor} {p : DerCursor × DerCursor} :
    c.enterFieldSequence = .ok p ↔
      ∃ tag content after, Tlv.read 4 c.rest = some (tag, content, after) ∧
        (new content, c.behind after) = p := by
  rw [enterFieldSequence, readTlv_bind_eq_ok]
  refine exists₃_congr fun tag content after => and_congr_right fun hread => ?_
  dsimp only
  rw [get_of_read hread]
  exact Except.pure_eq_ok

theorem readFieldContent_eq_ok {c : DerCursor} {p : List UInt8 × DerCursor} :
    c.readFieldContent = .ok p ↔
      ∃ tag content after, Tlv.read 4 c.rest = some (tag, content, after) ∧
        (content, c.behind after) = p := by
  rw [readFieldContent, readTlv_bind_eq_ok]
  refine exists₃_congr fun tag content after => and_congr_right fun hread => ?_
  dsimp only
  rw [get_of_read hread]
  exact Except.pure_eq_ok

theorem skipOptionalContext0_eq_ok {c c' : DerCursor} :
    c.skipOptionalContext0 = .ok c' ↔
      ∃ tag, c.rest.head? = some tag ∧ if tag = 0xA0 then c.skipField = .ok c' else c = c' := by
  rw [skipOptionalContext0, rest, List.head?_drop]
  cases c.buf[c.pos]? with
  | none => exact ⟨nofun, nofun⟩
  | some tag =>
    simp only [Option.some.injEq, exists_eq_left']
    split
    · exact Iff.rfl
    · exact ⟨Except.ok.inj, congrArg _⟩

end DerCursor

/-! ## The certificates that have a key -/

/-- The bytes are `n` elements, one behind the other. -/
inductive IsFields : ℕ → List UInt8 → Prop where
  | nil : IsFields 0 []
  | cons {n : ℕ} {bytes fields content : List UInt8} {tag : UInt8}
    (h : IsElement 4 bytes tag content) (hfields : IsFields n fields) :
    IsFields (n + 1) (bytes ++ fields)

/-- The version before `fields`: it may be left out, when these do not start like one. -/
inductive IsVersion (fields : List UInt8) : List UInt8 → Prop where
  | default (tag : UInt8) (htag : fields.head? = some tag) (h : tag ≠ 0xA0) : IsVersion fields []
  | explicit {bytes content : List UInt8} (h : IsElement 4 bytes 0xA0 content) :
    IsVersion fields bytes

theorem isFields_one {bytes : List UInt8} :
    IsFields 1 bytes ↔ ∃ tag content, IsElement 4 bytes tag content := by
  refine ⟨?_, ?_⟩
  · intro h
    cases h with
    | @cons _ bytes fields content tag h hfields =>
      cases hfields
      exact ⟨tag, content, by rwa [List.append_nil]⟩
  · rintro ⟨tag, content, h⟩
    simpa using IsFields.cons h .nil

/-- Behind `n` fields come bytes for which `P` holds. -/
def Behind (n : ℕ) (P : List UInt8 → Prop) (bytes : List UInt8) : Prop :=
  ∃ fields after, IsFields n fields ∧ bytes = fields ++ after ∧ P after

theorem behind_one_behind {n : ℕ} {P : List UInt8 → Prop} :
    Behind 1 (Behind n P) = Behind (n + 1) P := by
  funext bytes
  refine propext ⟨?_, ?_⟩
  · rintro ⟨field, -, hfield, rfl, fields, after, hfields, rfl, hP⟩
    obtain ⟨tag, content, hfield⟩ := isFields_one.1 hfield
    exact ⟨field ++ fields, after, .cons hfield hfields, (List.append_assoc ..).symm, hP⟩
  · rintro ⟨_, after, hfields, rfl, hP⟩
    cases hfields with
    | @cons _ field fields content tag hfield hfields =>
      exact ⟨field, fields ++ after, isFields_one.2 ⟨tag, content, hfield⟩,
        List.append_assoc .., fields, after, hfields, rfl, hP⟩

/-- What the subject's public key info holds: an algorithm, and the key in a bit string that leaves
no bits unused. -/
def IsKeyInfo (key spki : List UInt8) : Prop :=
  Behind 1 (fun bytes => ∃ tag field after, IsElement 4 field tag (0 :: key) ∧
    bytes = field ++ after ∧ key.length = 32) spki

/-- `P` holds for the content of the element at the head of the bytes. -/
def InSequence (P : List UInt8 → Prop) (bytes : List UInt8) : Prop :=
  ∃ tag content field after, IsElement 4 field tag content ∧ bytes = field ++ after ∧ P content

/-- What a certificate looks like whose key is `key`: behind the version, which may be left out,
come five fields and the key's. Behind the last field that is read there may be anything, in each of
the nested elements. -/
def IsCertificate (der key : List UInt8) : Prop :=
  InSequence (InSequence fun tbs => ∃ version after, IsVersion after version ∧ tbs = version ++ after ∧
    Behind 5 (InSequence (IsKeyInfo key)) after) der

namespace DerCursor

variable {β : Type} {b : β} {P : List UInt8 → Prop}

/-- What comes of a computation that skips a field first. -/
theorem skipField_bind_eq_ok {c : DerCursor} {f : DerCursor → Except LinkError β}
    (hf : ∀ c', f c' = .ok b ↔ P c'.rest) :
    (c.skipField >>= f) = .ok b ↔ Behind 1 P c.rest := by
  rw [Except.bind_eq_ok]
  refine ⟨?_, ?_⟩
  · rintro ⟨c', hskip, hc'⟩
    obtain ⟨tag, content, after, hread, rfl⟩ := skipField_eq_ok.1 hskip
    obtain ⟨field, hfield, hrest⟩ := read_eq_some.1 hread
    rw [hf, rest_behind hread] at hc'
    exact ⟨field, after, isFields_one.2 ⟨tag, content, hfield⟩, hrest, hc'⟩
  · rintro ⟨field, after, hone, hrest, hP⟩
    obtain ⟨tag, content, hfield⟩ := isFields_one.1 hone
    have hread : Tlv.read 4 c.rest = some (tag, content, after) :=
      read_eq_some.2 ⟨field, hfield, hrest⟩
    exact ⟨_, skipField_eq_ok.2 ⟨tag, content, after, hread, rfl⟩, by rwa [hf, rest_behind hread]⟩

/-- The same for one that goes into a field. -/
theorem enterSequence_bind_eq_ok {c : DerCursor} {f : DerCursor → Except LinkError β}
    (hf : ∀ c', f c' = .ok b ↔ P c'.rest) :
    (c.enterSequence >>= f) = .ok b ↔ InSequence P c.rest := by
  rw [Except.bind_eq_ok]
  simp only [enterSequence_eq_ok, read_eq_some]
  refine ⟨?_, ?_⟩
  · rintro ⟨_, ⟨tag, content, after, ⟨bytes, helement, hrest⟩, rfl⟩, hc⟩
    rw [hf, rest_new] at hc
    exact ⟨tag, content, bytes, after, helement, hrest, hc⟩
  · rintro ⟨tag, content, bytes, after, helement, hrest, hP⟩
    exact ⟨_, ⟨tag, content, after, ⟨bytes, helement, hrest⟩, rfl⟩, by rwa [hf, rest_new]⟩

theorem enterFieldSequence_bind_eq_ok {c : DerCursor}
    {f : DerCursor × DerCursor → Except LinkError β} (hf : ∀ p, f p = .ok b ↔ P p.1.rest) :
    (c.enterFieldSequence >>= f) = .ok b ↔ InSequence P c.rest := by
  rw [Except.bind_eq_ok]
  simp only [enterFieldSequence_eq_ok, read_eq_some]
  refine ⟨?_, ?_⟩
  · rintro ⟨_, ⟨tag, content, after, ⟨bytes, helement, hrest⟩, rfl⟩, hc⟩
    rw [hf, rest_new] at hc
    exact ⟨tag, content, bytes, after, helement, hrest, hc⟩
  · rintro ⟨tag, content, bytes, after, helement, hrest, hP⟩
    exact ⟨_, ⟨tag, content, after, ⟨bytes, helement, hrest⟩, rfl⟩, by rwa [hf, rest_new]⟩

theorem skipOptionalContext0_bind_eq_ok {c : DerCursor} {f : DerCursor → Except LinkError β}
    (hf : ∀ c', f c' = .ok b ↔ P c'.rest) :
    (c.skipOptionalContext0 >>= f) = .ok b ↔
      ∃ version after, IsVersion after version ∧ c.rest = version ++ after ∧ P after := by
  rw [Except.bind_eq_ok]
  simp only [skipOptionalContext0_eq_ok]
  refine ⟨?_, ?_⟩
  · rintro ⟨c', ⟨tag, htag, hskip⟩, hc'⟩
    rw [hf] at hc'
    split at hskip
    · next h0 =>
      obtain ⟨tag', content, after, hread, rfl⟩ := skipField_eq_ok.1 hskip
      obtain ⟨bytes, helement, hrest⟩ := read_eq_some.1 hread
      rw [rest_behind hread] at hc'
      obtain rfl : tag' = 0xA0 := by
        obtain ⟨octets, -, rfl⟩ := helement
        rw [hrest] at htag
        exact (Option.some.inj htag).trans h0
      exact ⟨bytes, after, .explicit helement, hrest, hc'⟩
    · next h0 =>
      subst hskip
      exact ⟨[], c.rest, .default tag htag h0, rfl, hc'⟩
  · rintro ⟨version, after, hversion, hrest, hP⟩
    cases hversion with
    | default tag htag h0 =>
      obtain rfl : c.rest = after := hrest
      exact ⟨c, ⟨tag, htag, by rw [if_neg h0]⟩, (hf c).2 hP⟩
    | @explicit _ content helement =>
      have hread : Tlv.read 4 c.rest = some (0xA0, content, after) :=
        read_eq_some.2 ⟨version, helement, hrest⟩
      have hhead : c.rest.head? = some 0xA0 := by
        obtain ⟨octets, -, rfl⟩ := helement
        rw [hrest]
        rfl
      exact ⟨_, ⟨_, hhead, by
        rw [if_pos rfl, skipField_eq_ok]
        exact ⟨_, _, _, hread, rfl⟩⟩, by rwa [hf, rest_behind hread]⟩

/-- The end of `ed25519PublicKeyFromCert`, which reads the key out of its field. -/
theorem readKey_eq_ok {c : DerCursor} {key : List UInt8} :
    (do
      let (bitString, _) ← c.readFieldContent
      match bitString with
      | [] => .error badDer
      | unused :: key => if unused ≠ 0 ∨ key.length ≠ 32 then .error badDer else return key) =
        Except.ok key ↔
      ∃ tag field after, IsElement 4 field tag (0 :: key) ∧ c.rest = field ++ after ∧
        key.length = 32 := by
  rw [Except.bind_eq_ok]
  simp only [readFieldContent_eq_ok, read_eq_some]
  refine ⟨?_, ?_⟩
  · rintro ⟨_, ⟨tag, content, after, ⟨bytes, helement, hrest⟩, rfl⟩, hkey⟩
    cases content with
    | nil => cases hkey
    | cons unused key' =>
      dsimp only at hkey
      split at hkey
      · cases hkey
      · next hok =>
        obtain ⟨hunused, hlength⟩ := not_or.1 hok
        obtain rfl := not_not.1 hunused
        obtain rfl := Except.pure_eq_ok.1 hkey
        exact ⟨tag, bytes, after, helement, hrest, not_not.1 hlength⟩
  · rintro ⟨tag, field, after, helement, hrest, hlength⟩
    refine ⟨_, ⟨tag, _, after, ⟨field, helement, hrest⟩, rfl⟩, ?_⟩
    dsimp only
    rw [if_neg (not_or.2 ⟨not_not.2 rfl, not_not.2 hlength⟩)]
    rfl

end DerCursor

open DerCursor in
/-- **Which certificates have a key**, and that it is the one. -/
theorem ed25519PublicKeyFromCert_eq_ok {der key : List UInt8} :
    ed25519PublicKeyFromCert der = .ok key ↔ IsCertificate der key := by
  have hfive : Behind 5 (InSequence (IsKeyInfo key)) =
      Behind 1 (Behind 1 (Behind 1 (Behind 1 (Behind 1 (InSequence (IsKeyInfo key)))))) := by
    simp only [behind_one_behind]
  rw [IsCertificate, hfive]
  exact enterSequence_bind_eq_ok fun _ => enterSequence_bind_eq_ok fun _ =>
    skipOptionalContext0_bind_eq_ok fun _ => skipField_bind_eq_ok fun _ =>
    skipField_bind_eq_ok fun _ => skipField_bind_eq_ok fun _ => skipField_bind_eq_ok fun _ =>
    skipField_bind_eq_ok fun _ => enterFieldSequence_bind_eq_ok fun _ =>
    skipField_bind_eq_ok fun _ => readKey_eq_ok

theorem IsKeyInfo.length_eq {key spki : List UInt8} (h : IsKeyInfo key spki) : key.length = 32 := by
  obtain ⟨_, _, -, -, _, _, _, -, -, hlength⟩ := h
  exact hlength

theorem IsCertificate.length_eq {der key : List UInt8} (h : IsCertificate der key) :
    key.length = 32 := by
  obtain ⟨_, _, _, _, -, -, _, _, _, _, -, -, _, _, -, -, _, _, -, -, _, _, _, _, -, -, hinfo⟩ := h
  exact hinfo.length_eq

/-! ## The only error -/

/-- The computation fails in one way. -/
def OnlyBadDer {β : Type} (x : Except LinkError β) : Prop := ∀ e, x = .error e → e = badDer

namespace OnlyBadDer

variable {α β : Type}

theorem ok (b : β) : OnlyBadDer (.ok b) := nofun

theorem error : OnlyBadDer (.error badDer : Except LinkError β) := fun _ h =>
  (Except.error.inj h).symm

theorem bind {x : Except LinkError α} {f : α → Except LinkError β} (hx : OnlyBadDer x)
    (hf : ∀ a, OnlyBadDer (f a)) : OnlyBadDer (x >>= f) := by
  cases x with
  | error e => exact hx e rfl ▸ error
  | ok a => exact hf a

theorem readTlv (c : DerCursor) : OnlyBadDer c.readTlv := by
  rw [DerCursor.readTlv_eq]
  split
  · exact error
  · exact ok _

theorem get (buf : List UInt8) (start stop : ℕ) : OnlyBadDer (DerCursor.get buf start stop) := by
  unfold DerCursor.get
  split
  · exact error
  · exact ok _

theorem skipField (c : DerCursor) : OnlyBadDer c.skipField :=
  (readTlv c).bind fun _ => ok _

theorem enterSequence (c : DerCursor) : OnlyBadDer c.enterSequence :=
  (readTlv c).bind fun _ => bind (get _ _ _) fun _ => ok _

theorem enterFieldSequence (c : DerCursor) : OnlyBadDer c.enterFieldSequence :=
  (readTlv c).bind fun _ => bind (get _ _ _) fun _ => ok _

theorem readFieldContent (c : DerCursor) : OnlyBadDer c.readFieldContent :=
  (readTlv c).bind fun _ => bind (get _ _ _) fun _ => ok _

theorem skipOptionalContext0 (c : DerCursor) : OnlyBadDer c.skipOptionalContext0 := by
  unfold DerCursor.skipOptionalContext0
  split
  · exact error
  · split
    · exact skipField c
    · exact ok _

theorem publicKey (der : List UInt8) : OnlyBadDer (ed25519PublicKeyFromCert der) := by
  refine (enterSequence _).bind fun _ => (enterSequence _).bind fun _ =>
    (skipOptionalContext0 _).bind fun _ => (skipField _).bind fun _ => (skipField _).bind fun _ =>
    (skipField _).bind fun _ => (skipField _).bind fun _ => (skipField _).bind fun _ =>
    (enterFieldSequence _).bind fun _ => (skipField _).bind fun _ =>
    (readFieldContent _).bind fun p => ?_
  obtain ⟨bitString, -⟩ := p
  cases bitString with
  | nil => exact error
  | cons unused key =>
    dsimp only
    split
    · exact error
    · exact ok _

end OnlyBadDer

/-- Ed25519 and SHA-256, with the texts of their errors. Seeds and keys are 32 bytes, and signatures
64. -/
structure Crypto where
  /-- The public key of a seed. -/
  verifyingKey : List UInt8 → List UInt8
  sign : List UInt8 → List UInt8 → List UInt8
  /-- The bytes are a public key. -/
  isKey : List UInt8 → Bool
  verify : List UInt8 → List UInt8 → List UInt8 → Bool
  sha256 : List UInt8 → DeviceId
  keyError : String
  signatureError : String

def ed25519SpkiPrefix : List UInt8 :=
  [0x30, 0x2A, 0x30, 0x05, 0x06, 0x03, 0x2B, 0x65, 0x70, 0x03, 0x21, 0x00]

def ed25519Spki (rawPublicKey : List UInt8) : List UInt8 := ed25519SpkiPrefix ++ rawPublicKey

/-- A permanent identity: the seed of its key. -/
structure DeviceIdentity where
  seed : List UInt8
deriving DecidableEq

namespace Crypto

variable (C : Crypto)

def deviceIdFromPublicKey (publicKey : List UInt8) : DeviceId := C.sha256 (ed25519Spki publicKey)

def deviceIdFromPublicKeyBytes (rawPublicKey : List UInt8) : Except String DeviceId :=
  if C.isKey rawPublicKey then .ok (C.deviceIdFromPublicKey rawPublicKey)
  else .error "invalid Ed25519 public key"

def deviceIdFromCert (der : List UInt8) : Except LinkError DeviceId := do
  let rawKey ← ed25519PublicKeyFromCert der
  (C.deviceIdFromPublicKeyBytes rawKey).mapError .identity

def verifyingKeyFromCert (der : List UInt8) : Except LinkError (List UInt8) := do
  let key ← ed25519PublicKeyFromCert der
  if C.isKey key then return key else .error (.identity ("bad Ed25519 key: " ++ C.keyError))

theorem deviceIdFromCert_eq_ok {der : List UInt8} {id : DeviceId} :
    C.deviceIdFromCert der = .ok id ↔
      ∃ key, IsCertificate der key ∧ C.isKey key = true ∧ C.deviceIdFromPublicKey key = id := by
  rw [deviceIdFromCert, Except.bind_eq_ok]
  simp only [ed25519PublicKeyFromCert_eq_ok]
  refine exists_congr fun key => and_congr_right fun _ => ?_
  rw [deviceIdFromPublicKeyBytes]
  cases C.isKey key <;> simp [Except.mapError]

theorem verifyingKeyFromCert_eq_ok {der key : List UInt8} :
    C.verifyingKeyFromCert der = .ok key ↔ IsCertificate der key ∧ C.isKey key = true := by
  rw [verifyingKeyFromCert, Except.bind_eq_ok]
  simp only [ed25519PublicKeyFromCert_eq_ok]
  refine ⟨?_, ?_⟩
  · rintro ⟨key', hcert, hkey⟩
    split at hkey
    · next hok =>
      obtain rfl := Except.pure_eq_ok.1 hkey
      exact ⟨hcert, hok⟩
    · cases hkey
  · rintro ⟨hcert, hkey⟩
    exact ⟨key, hcert, by rw [if_pos hkey]; rfl⟩

end Crypto

namespace DeviceIdentity

def publicKey (C : Crypto) (identity : DeviceIdentity) : List UInt8 := C.verifyingKey identity.seed

def deviceId (C : Crypto) (identity : DeviceIdentity) : DeviceId :=
  C.deviceIdFromPublicKey (identity.publicKey C)

def sign (C : Crypto) (identity : DeviceIdentity) (message : List UInt8) : List UInt8 :=
  C.sign identity.seed message

end DeviceIdentity

inductive PinPolicy where
  | pinned (id : DeviceId)
  | trustOnFirstUse

inductive TlsError where
  | badEncoding
  | applicationVerificationFailure

/-- What a verifier of certificates, of either end, says to the peer's. -/
def Crypto.checkPin (C : Crypto) (policy : PinPolicy) (endEntity : List UInt8) :
    Except TlsError Unit :=
  match C.deviceIdFromCert endEntity with
  | .error _ => .error .badEncoding
  | .ok observed =>
    match policy with
    | .pinned expected =>
      if expected ≠ observed then .error .applicationVerificationFailure else .ok ()
    | .trustOnFirstUse => .ok ()

end Mouser
