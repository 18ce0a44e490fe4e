import Mathlib.Logic.Equiv.Defs
import Mathlib.Tactic.NormNum
import Mouser.Lib.Varint
import Mouser.Protocol.Messages

/-!
# Motion datagrams

A motion datagram is a tag and the `postcard` form of a motion. `postcard` is outside the
repository: `Postcard T` is what it makes of a type, and `IsVarint` what it does with an integer,
which it writes in the shortest code of base-128 groups, and reads from any code that has no more
groups than the type takes. A struct is its fields one after the other.

The reader of a datagram asks for the whole of it, so the codes are all there is to choose. Of the
datagrams that are read as one motion, `encode_motion` writes the one whose codes are not padded
(`decodeDatagram_encode_iff`).
-/

namespace Mouser

open Varint

variable {A B T : Type}

/-- `to_allocvec` and `take_from_bytes`, with their errors as the texts they are shown as. -/
structure Postcard (T : Type) where
  toAllocvec : T → Except String (List UInt8)
  takeFromBytes : List UInt8 → Except String (T × List UInt8)

namespace Postcard

/-- Two fields, one after the other. -/
def pair (first : Postcard A) (second : Postcard B) : Postcard (A × B) where
  toAllocvec fields := do
    let bytes ← first.toAllocvec fields.1
    let more ← second.toAllocvec fields.2
    return bytes ++ more
  takeFromBytes bytes := do
    let (a, bytes) ← first.takeFromBytes bytes
    let (b, bytes) ← second.takeFromBytes bytes
    return ((a, b), bytes)

/-- A struct, by its fields. -/
def ofFields (fields : T ≃ A) (c : Postcard A) : Postcard T where
  toAllocvec t := c.toAllocvec (fields t)
  takeFromBytes bytes := do
    let (a, bytes) ← c.takeFromBytes bytes
    return (fields.symm a, bytes)

/-- An integer type of `bits` bits: a value is written in the shortest code of its `number`, and
read from any code of it with no more groups than `bits` bits take. -/
structure IsVarint (c : Postcard T) (bits : ℕ) (number : T → ℕ) : Prop where
  toAllocvec_eq (a : T) : c.toAllocvec a = .ok (encode (number a))
  takeFromBytes_eq_ok {bytes rest : List UInt8} {a : T} :
    c.takeFromBytes bytes = .ok (a, rest) ↔
      ∃ code, bytes = code ++ rest ∧ Code code ∧ code.length ≤ (bits + 6) / 7 ∧
        value code = number a

end Postcard

/-- The integer types of the motions. -/
structure Integers where
  u32 : Postcard UInt32
  u64 : Postcard UInt64
  i32 : Postcard Int32
  i64 : Postcard Int64

/-- The format of `postcard`: groups of seven bits, and zig-zag for the signed types. -/
structure Integers.AreVarints (ints : Integers) : Prop where
  u32 : ints.u32.IsVarint 32 fun n => n.toNat
  u64 : ints.u64.IsVarint 64 fun n => n.toNat
  i32 : ints.i32.IsVarint 32 fun i => zigzag i.toInt
  i64 : ints.i64.IsVarint 64 fun i => zigzag i.toInt

def PointerMotion.fields : PointerMotion ≃ UInt64 × UInt32 × UInt32 × Int32 × Int32 where
  toFun m := (m.ownerEpoch, m.seq, m.displayId, m.x, m.y)
  invFun f := ⟨f.1, f.2.1, f.2.2.1, f.2.2.2.1, f.2.2.2.2⟩

def PointerMotionRel.fields : PointerMotionRel ≃ UInt64 × UInt32 × Int64 × Int64 where
  toFun m := (m.ownerEpoch, m.seq, m.dxAcc, m.dyAcc)
  invFun f := ⟨f.1, f.2.1, f.2.2.1, f.2.2.2⟩

def Integers.pointerMotion (ints : Integers) : Postcard PointerMotion :=
  .ofFields PointerMotion.fields
    (ints.u64.pair (ints.u32.pair (ints.u32.pair (ints.i32.pair ints.i32))))

def Integers.pointerMotionRel (ints : Integers) : Postcard PointerMotionRel :=
  .ofFields PointerMotionRel.fields (ints.u64.pair (ints.u32.pair (ints.i64.pair ints.i64)))

/-! ## The datagrams -/

def tagPointerMotion : UInt8 := 0x01

def tagPointerMotionRel : UInt8 := 0x02

inductive DatagramError where
  /-- Empty buffer: no tag byte present. -/
  | empty
  | codec (m : String)
deriving DecidableEq

def encodeTagged (c : Postcard T) (tag : UInt8) (body : T) :
    Except DatagramError (List UInt8) := do
  let encoded ← (c.toAllocvec body).mapError .codec
  return [tag] ++ encoded

def encodeMotion (ints : Integers) (motion : PointerMotion) : Except DatagramError (List UInt8) :=
  encodeTagged ints.pointerMotion tagPointerMotion motion

def encodeMotionRel (ints : Integers) (motion : PointerMotionRel) :
    Except DatagramError (List UInt8) :=
  encodeTagged ints.pointerMotionRel tagPointerMotionRel motion

/-- Decode a body and reject what comes after the first item. -/
def decodeBody (c : Postcard T) (body : List UInt8) : Except DatagramError T := do
  let (value, rest) ← (c.takeFromBytes body).mapError .codec
  if !rest.isEmpty then throw (.codec "trailing bytes")
  return value

def decodeDatagram (ints : Integers) (buf : List UInt8) : Except DatagramError Datagram :=
  match buf with
  | [] => .error .empty
  | tag :: body =>
    if tag = tagPointerMotion then return .motion (← decodeBody ints.pointerMotion body)
    else if tag = tagPointerMotionRel then
      return .motionRel (← decodeBody ints.pointerMotionRel body)
    else return .unknown tag

/-! ## The codes of a value -/

namespace Postcard

/-- A value is written in the shortest codes of its `numbers`, is read from these, and only from
codes of its `numbers`. -/
structure IsCodes (c : Postcard T) (numbers : T → List ℕ) : Prop where
  toAllocvec_eq (a : T) : c.toAllocvec a = .ok ((numbers a).map encode).flatten
  takeFromBytes_encode (a : T) (rest : List UInt8) :
    c.takeFromBytes (((numbers a).map encode).flatten ++ rest) = .ok (a, rest)
  exists_codes {bytes rest : List UInt8} {a : T} (h : c.takeFromBytes bytes = .ok (a, rest)) :
    ∃ codes : List (List UInt8), bytes = codes.flatten ++ rest ∧ (∀ code ∈ codes, Code code) ∧
      codes.map value = numbers a

theorem IsVarint.isCodes {c : Postcard T} {bits : ℕ} {number : T → ℕ} (h : c.IsVarint bits number)
    (hbits : 0 < bits) (hlt : ∀ a, number a < 2 ^ bits) : c.IsCodes fun a => [number a] where
  toAllocvec_eq a := by
    rw [h.toAllocvec_eq, List.map_singleton, List.flatten_singleton]
  takeFromBytes_encode a rest := by
    have hsucc : (bits + 6) / 7 = (bits - 1) / 7 + 1 := by omega
    have hfit : number a < 128 ^ ((bits - 1) / 7 + 1) := by
      refine (hlt a).trans_le ?_
      rw [show 128 = 2 ^ 7 from rfl, ← pow_mul]
      exact Nat.pow_le_pow_right (by decide) (by omega)
    rw [List.map_singleton, List.flatten_singleton, h.takeFromBytes_eq_ok]
    exact ⟨_, rfl, code_encode _, hsucc ▸ length_encode_le hfit, value_encode _⟩
  exists_codes hread := by
    obtain ⟨code, rfl, hcode, -, hvalue⟩ := h.takeFromBytes_eq_ok.1 hread
    exact ⟨[code], by simp, by simpa using hcode, by simp [hvalue]⟩

theorem IsCodes.pair {first : Postcard A} {second : Postcard B} {numbers : A → List ℕ}
    {numbers' : B → List ℕ} (h : first.IsCodes numbers) (h' : second.IsCodes numbers') :
    (first.pair second).IsCodes fun f => numbers f.1 ++ numbers' f.2 where
  toAllocvec_eq f := by
    simp only [Postcard.pair, h.toAllocvec_eq, h'.toAllocvec_eq, List.map_append,
      List.flatten_append]
    rfl
  takeFromBytes_encode f rest := by
    simp only [Postcard.pair, List.map_append, List.flatten_append, List.append_assoc]
    rw [h.takeFromBytes_encode]
    dsimp only [bind, Except.bind]
    rw [h'.takeFromBytes_encode]
    rfl
  exists_codes {bytes rest f} hread := by
    simp only [Postcard.pair] at hread
    cases hfirst : first.takeFromBytes bytes with
    | error e =>
      rw [hfirst] at hread
      cases hread
    | ok x =>
      obtain ⟨a, more⟩ := x
      rw [hfirst] at hread
      dsimp only [bind, Except.bind] at hread
      cases hsecond : second.takeFromBytes more with
      | error e =>
        rw [hsecond] at hread
        cases hread
      | ok y =>
        obtain ⟨b, more'⟩ := y
        rw [hsecond] at hread
        cases hread
        obtain ⟨codes, rfl, hcodes, hvalues⟩ := h.exists_codes hfirst
        obtain ⟨codes', rfl, hcodes', hvalues'⟩ := h'.exists_codes hsecond
        refine ⟨codes ++ codes', ?_, ?_, ?_⟩
        · rw [List.flatten_append, List.append_assoc]
        · exact List.forall_mem_append.2 ⟨hcodes, hcodes'⟩
        · rw [List.map_append, hvalues, hvalues']

theorem IsCodes.ofFields {c : Postcard A} {numbers : A → List ℕ} (h : c.IsCodes numbers)
    (fields : T ≃ A) : (ofFields fields c).IsCodes fun t => numbers (fields t) where
  toAllocvec_eq t := h.toAllocvec_eq (fields t)
  takeFromBytes_encode t rest := by
    simp only [Postcard.ofFields]
    rw [h.takeFromBytes_encode]
    dsimp only [bind, Except.bind]
    rw [fields.symm_apply_apply]
    rfl
  exists_codes {bytes rest t} hread := by
    simp only [Postcard.ofFields] at hread
    cases hfields : c.takeFromBytes bytes with
    | error e =>
      rw [hfields] at hread
      cases hread
    | ok x =>
      rw [hfields] at hread
      cases hread
      rw [fields.apply_symm_apply]
      exact h.exists_codes hfields

end Postcard

theorem zigzag_lt_of_i32 (i : Int32) : zigzag i.toInt < 2 ^ 32 :=
  zigzag_lt.2 ⟨i.le_toInt, i.toInt_lt⟩

theorem zigzag_lt_of_i64 (i : Int64) : zigzag i.toInt < 2 ^ 64 :=
  zigzag_lt.2 ⟨i.le_toInt, i.toInt_lt⟩

namespace Integers.AreVarints

variable {ints : Integers} (h : ints.AreVarints)

include h

theorem isCodes_u32 : ints.u32.IsCodes fun n => [n.toNat] :=
  h.u32.isCodes (by decide) UInt32.toNat_lt

theorem isCodes_u64 : ints.u64.IsCodes fun n => [n.toNat] :=
  h.u64.isCodes (by decide) UInt64.toNat_lt

theorem isCodes_i32 : ints.i32.IsCodes fun i => [zigzag i.toInt] :=
  h.i32.isCodes (by decide) zigzag_lt_of_i32

theorem isCodes_i64 : ints.i64.IsCodes fun i => [zigzag i.toInt] :=
  h.i64.isCodes (by decide) zigzag_lt_of_i64

theorem isCodes_pointerMotion : ∃ numbers, ints.pointerMotion.IsCodes numbers :=
  ⟨_, (h.isCodes_u64.pair (h.isCodes_u32.pair (h.isCodes_u32.pair
    (h.isCodes_i32.pair h.isCodes_i32)))).ofFields PointerMotion.fields⟩

theorem isCodes_pointerMotionRel : ∃ numbers, ints.pointerMotionRel.IsCodes numbers :=
  ⟨_, (h.isCodes_u64.pair (h.isCodes_u32.pair
    (h.isCodes_i64.pair h.isCodes_i64))).ofFields PointerMotionRel.fields⟩

end Integers.AreVarints

namespace Postcard.IsCodes

variable {c : Postcard T} {numbers : T → List ℕ} (h : c.IsCodes numbers)

include h

theorem encodeTagged_eq (tag : UInt8) (body : T) :
    encodeTagged c tag body = .ok (tag :: ((numbers body).map encode).flatten) := by
  rw [encodeTagged, h.toAllocvec_eq]
  rfl

theorem decodeBody_encode (body : T) :
    decodeBody c ((numbers body).map encode).flatten = .ok body := by
  have hread := h.takeFromBytes_encode body []
  rw [List.append_nil] at hread
  rw [decodeBody, hread]
  rfl

/-- A body that is read is the codes of what it is read as, and nothing else. -/
theorem codes_of_decodeBody {bytes : List UInt8} {body : T}
    (hread : decodeBody c bytes = .ok body) :
    ∃ codes : List (List UInt8), bytes = codes.flatten ∧ (∀ code ∈ codes, Code code) ∧
      codes.map value = numbers body := by
  rw [decodeBody] at hread
  cases hbytes : c.takeFromBytes bytes with
  | error e =>
    rw [hbytes] at hread
    cases hread
  | ok x =>
    obtain ⟨a, rest⟩ := x
    rw [hbytes] at hread
    cases rest with
    | cons b rest => cases hread
    | nil =>
      cases hread
      obtain ⟨codes, rfl, hcodes, hvalues⟩ := h.exists_codes hbytes
      exact ⟨codes, List.append_nil _, hcodes, hvalues⟩

/-- **The datagram that a body is written as**, among those it is read from. -/
theorem encodeTagged_iff {bytes : List UInt8} {body : T} {tag : UInt8} (htag : tag.toNat < 128)
    (hread : decodeBody c bytes = .ok body) :
    encodeTagged c tag body = .ok (tag :: bytes) ↔ ¬ Padded (tag :: bytes) := by
  obtain ⟨codes, rfl, hcodes, hvalues⟩ := h.codes_of_decodeBody hread
  have hcons : Padded (tag :: codes.flatten) ↔ Padded codes.flatten := by
    rw [Padded, Padded, List.isChain_cons, not_iff_not]
    exact ⟨And.right, fun hchain => ⟨fun b _ hmarked => absurd htag (Nat.not_lt.2 hmarked), hchain⟩⟩
  rw [hcons, ← flatten_eq_encode_iff hcodes, hvalues, h.encodeTagged_eq, Except.ok.injEq,
    List.cons.injEq]
  exact ⟨fun heq => heq.2.symm, fun heq => ⟨rfl, heq.symm⟩⟩

end Postcard.IsCodes

/-- A body that is wrapped was read. -/
theorem wrap_eq_ok {x : Except DatagramError T} {wrap : T → Datagram} {d : Datagram} :
    (do return wrap (← x)) = (.ok d : Except DatagramError Datagram) ↔
      ∃ a, x = .ok a ∧ wrap a = d := by
  cases x with
  | error e => exact ⟨nofun, fun ⟨_, heq, _⟩ => nomatch heq⟩
  | ok a =>
    refine ⟨fun heq => ⟨a, rfl, Except.ok.inj heq⟩, ?_⟩
    rintro ⟨_, heq, rfl⟩
    cases heq
    rfl

theorem decodeDatagram_motion {ints : Integers} {buf : List UInt8} {m : PointerMotion} :
    decodeDatagram ints buf = .ok (.motion m) ↔
      ∃ body, buf = tagPointerMotion :: body ∧ decodeBody ints.pointerMotion body = .ok m := by
  refine ⟨?_, ?_⟩
  · intro hread
    cases buf with
    | nil => cases hread
    | cons tag body =>
      rw [decodeDatagram] at hread
      split at hread
      · next htag =>
        obtain ⟨_, hbody, heq⟩ := wrap_eq_ok.1 hread
        cases heq
        exact ⟨body, by rw [htag], hbody⟩
      · split at hread
        · obtain ⟨_, -, heq⟩ := wrap_eq_ok.1 hread
          cases heq
        · cases hread
  · rintro ⟨body, rfl, hbody⟩
    rw [decodeDatagram, if_pos rfl, hbody]
    rfl

theorem decodeDatagram_motionRel {ints : Integers} {buf : List UInt8} {m : PointerMotionRel} :
    decodeDatagram ints buf = .ok (.motionRel m) ↔
      ∃ body, buf = tagPointerMotionRel :: body ∧
        decodeBody ints.pointerMotionRel body = .ok m := by
  refine ⟨?_, ?_⟩
  · intro hread
    cases buf with
    | nil => cases hread
    | cons tag body =>
      rw [decodeDatagram] at hread
      split at hread
      · obtain ⟨_, -, heq⟩ := wrap_eq_ok.1 hread
        cases heq
      · split at hread
        · next htag =>
          obtain ⟨_, hbody, heq⟩ := wrap_eq_ok.1 hread
          cases heq
          exact ⟨body, by rw [htag], hbody⟩
        · cases hread
  · rintro ⟨body, rfl, hbody⟩
    rw [decodeDatagram, if_neg (by decide), if_pos rfl, hbody]
    rfl

/-- One kind of datagram: a value is read from the datagram it is written as, and any it is read
from is this one exactly when no code in it is padded. -/
theorem Postcard.IsCodes.decodeDatagram_encode {c : Postcard T} {numbers : T → List ℕ}
    (h : c.IsCodes numbers) {ints : Integers} {tag : UInt8} (htag : tag.toNat < 128)
    {wrap : T → Datagram}
    (hdecode : ∀ {buf m}, decodeDatagram ints buf = .ok (wrap m) ↔
      ∃ body, buf = tag :: body ∧ decodeBody c body = .ok m) (m : T) :
    ∃ buf, encodeTagged c tag m = .ok buf ∧ decodeDatagram ints buf = .ok (wrap m) ∧
      ∀ buf', decodeDatagram ints buf' = .ok (wrap m) → (buf' = buf ↔ ¬ Padded buf') := by
  refine ⟨_, h.encodeTagged_eq tag m, hdecode.2 ⟨_, rfl, h.decodeBody_encode m⟩, ?_⟩
  intro buf' hread
  obtain ⟨body, rfl, hbody⟩ := hdecode.1 hread
  rw [← h.encodeTagged_iff htag hbody, h.encodeTagged_eq, Except.ok.injEq, eq_comm]

/-- **The datagrams of one motion.** A motion is read from the datagram it is written as, and any
datagram it is read from is this one exactly when no code in the datagram is padded. -/
theorem decodeDatagram_encode_iff (ints : Integers) (h : ints.AreVarints) :
    (∀ m, ∃ buf, encodeMotion ints m = .ok buf ∧ decodeDatagram ints buf = .ok (.motion m) ∧
      ∀ buf', decodeDatagram ints buf' = .ok (.motion m) → (buf' = buf ↔ ¬ Padded buf')) ∧
    ∀ m, ∃ buf, encodeMotionRel ints m = .ok buf ∧ decodeDatagram ints buf = .ok (.motionRel m) ∧
      ∀ buf', decodeDatagram ints buf' = .ok (.motionRel m) → (buf' = buf ↔ ¬ Padded buf') := by
  obtain ⟨_, hmotion⟩ := h.isCodes_pointerMotion
  obtain ⟨_, hmotionRel⟩ := h.isCodes_pointerMotionRel
  refine ⟨?_, ?_⟩
  · exact hmotion.decodeDatagram_encode (by decide) decodeDatagram_motion
  · exact hmotionRel.decodeDatagram_encode (by decide) decodeDatagram_motionRel

/-! ## A reader of base-128 numbers -/

namespace Postcard

/-- An integer type whose values are the numbers of `bits` bits. -/
def varint (bits : ℕ) (number : T → ℕ) (ofNumber : ℕ → T) : Postcard T where
  toAllocvec a := .ok (encode (number a))
  takeFromBytes bytes :=
    match splitCode bytes with
    | none => .error "Hit the end of buffer, expected more data"
    | some (code, rest) =>
      if code.length ≤ (bits + 6) / 7 ∧ value code < 2 ^ bits then
        .ok (ofNumber (value code), rest)
      else .error "Found a varint that didn't terminate. Is the usize too big for this platform?"

theorem varint_isVarint {bits : ℕ} {number : T → ℕ} {ofNumber : ℕ → T}
    (hof : ∀ a, ofNumber (number a) = a) (hlt : ∀ a, number a < 2 ^ bits)
    (hnumber : ∀ n < 2 ^ bits, number (ofNumber n) = n) :
    (varint bits number ofNumber).IsVarint bits number where
  toAllocvec_eq _ := rfl
  takeFromBytes_eq_ok {bytes rest a} := by
    refine ⟨?_, ?_⟩
    · intro hread
      simp only [varint] at hread
      split at hread
      · cases hread
      · next code rest' hsplit =>
        split at hread
        · next hok =>
          cases hread
          obtain ⟨hbytes, hcode⟩ := splitCode_eq_some.1 hsplit
          exact ⟨code, hbytes, hcode, hok.1, (hnumber _ hok.2).symm⟩
        · cases hread
    · rintro ⟨code, rfl, hcode, hlength, hvalue⟩
      simp only [varint, splitCode_append hcode]
      rw [hvalue, if_pos ⟨hlength, hlt a⟩, hof]

end Postcard

def Integers.varints : Integers where
  u32 := .varint 32 (fun n => n.toNat) .ofNat
  u64 := .varint 64 (fun n => n.toNat) .ofNat
  i32 := .varint 32 (fun i => zigzag i.toInt) fun n => .ofInt (unzigzag n)
  i64 := .varint 64 (fun i => zigzag i.toInt) fun n => .ofInt (unzigzag n)

theorem Integers.varints_areVarints : Integers.varints.AreVarints where
  u32 := Postcard.varint_isVarint (fun n => UInt32.ofNat_toNat) UInt32.toNat_lt
    fun n hn => UInt32.toNat_ofNat_of_lt' hn
  u64 := Postcard.varint_isVarint (fun n => UInt64.ofNat_toNat) UInt64.toNat_lt
    fun n hn => UInt64.toNat_ofNat_of_lt' hn
  i32 := by
    dsimp only [varints]
    refine Postcard.varint_isVarint (fun i => ?_) zigzag_lt_of_i32 (fun n hn => ?_)
    · rw [unzigzag_zigzag, Int32.ofInt_toInt]
    · rw [← zigzag_unzigzag n] at hn
      obtain ⟨hlo, hhi⟩ := zigzag_lt.1 hn
      rw [Int32.toInt_ofInt_of_le hlo hhi, zigzag_unzigzag]
  i64 := by
    dsimp only [varints]
    refine Postcard.varint_isVarint (fun i => ?_) zigzag_lt_of_i64 (fun n hn => ?_)
    · rw [unzigzag_zigzag, Int64.ofInt_toInt]
    · rw [← zigzag_unzigzag n] at hn
      obtain ⟨hlo, hhi⟩ := zigzag_lt.1 hn
      rw [Int64.toInt_ofInt_of_le hlo hhi, zigzag_unzigzag]

/-- A motion to the origin of the first display, and the datagram it is written as. -/
theorem decodeDatagram_encode_origin :
    encodeMotion .varints ⟨0, 0, 0, 0, 0⟩ = .ok [1, 0, 0, 0, 0, 0] ∧
      ∀ buf, decodeDatagram .varints buf = .ok (.motion ⟨0, 0, 0, 0, 0⟩) →
        (buf = [1, 0, 0, 0, 0, 0] ↔ ¬ Padded buf) := by
  obtain ⟨buf, hencode, hdecode, hpadded⟩ :=
    (decodeDatagram_encode_iff .varints Integers.varints_areVarints).1 ⟨0, 0, 0, 0, 0⟩
  have hbuf : [1, 0, 0, 0, 0, 0] = buf := (hpadded _ (by decide)).2 (by decide)
  rw [hbuf]
  exact ⟨hencode, hpadded⟩

/-- The epoch `0` in two groups instead of one. -/
theorem decodeDatagram_padded :
    ¬ ∀ ints : Integers, ints.AreVarints → ∀ buf buf' m,
      decodeDatagram ints buf = .ok (.motion m) → decodeDatagram ints buf' = .ok (.motion m) →
        buf = buf' := by
  intro h
  have heq := h .varints Integers.varints_areVarints [1, 0, 0, 0, 0, 0] [1, 0x80, 0, 0, 0, 0, 0]
    ⟨0, 0, 0, 0, 0⟩ (by decide) (by decide)
  cases heq

end Mouser
