import Mouser.Lib.Cursor
import Mouser.Lib.Varint
import Mouser.State.SharedState

/-!
# Checking encoded changes

The bytes of a change or a snapshot come from a peer, and the document library unpacks what is
packed in them, however much that is. So they are scanned before: `scan_chunks` walks through the
chunks without unpacking anything, and refuses a packed chunk, and a document chunk with a packed
column.

`PlainChunks` is the format that the scan follows, and `scanChunks_total` says that it accepts
exactly the bytes in that format. A length is what its groups stand for, unless the tenth of them
has bits that do not fit, which `read_leb_u64` drops (`readLebU64_exact_iff`).
-/

namespace Mouser

open Varint Cursor

def usizeMax : ℕ := 2 ^ 64 - 1

/-- A slice holds no more bytes than this, by the language. -/
def isizeMax : ℕ := 2 ^ 63 - 1

abbrev Slice := { bytes : List UInt8 // bytes.length ≤ isizeMax }

/-- How a function ends that does not return a value: with an error, or in a panic. -/
inductive Stop where
  | panic
  | err (e : StateError)
deriving DecidableEq

def Stop.decode (message : String) : Stop := .err (.decode message)

/-- A function of a slice and of a position in it. -/
abbrev Scan := StateT ℕ (Except Stop)

/-- Cap for control-lane payloads, including each encoded change. -/
def controlWireCap : ℕ := 256 * 1024

/-- Cap for a full shared-state snapshot. -/
def snapshotWireCap : ℕ := 8 * 1024 * 1024

def magicBytes : List UInt8 := [0x85, 0x6f, 0x4a, 0x83]
def chunkDocument : UInt8 := 0
def chunkCompressed : UInt8 := 2
def columnDeflate : UInt32 := 0b00001000

def readByte (bytes : Slice) : Scan UInt8 := fun pos =>
  match bytes.val[pos]? with
  | none => .error (.decode "truncated automerge chunk")
  | some b => if pos + 1 ≤ usizeMax then .ok (b, pos + 1) else .error .panic

theorem length_take_drop_le (bytes : Slice) (pos len : ℕ) :
    ((bytes.val.drop pos).take len).length ≤ isizeMax := by
  rw [List.length_take, List.length_drop]
  exact Nat.le_trans (Nat.le_trans (Nat.min_le_right ..) (Nat.sub_le ..)) bytes.property

def take (bytes : Slice) (len : ℕ) : Scan Slice := fun pos =>
  if pos + len ≤ usizeMax then
    -- `bytes.get(*pos..end)`
    if pos + len ≤ bytes.val.length then
      .ok (⟨(bytes.val.drop pos).take len, length_take_drop_le bytes pos len⟩, pos + len)
    else .error (.decode "truncated automerge chunk")
  else .error (.decode "chunk length overflow")

/-- `bits.checked_shl(shift)`: the shift amount is checked, not what is shifted out. -/
def checkedShl (bits : UInt64) (shift : ℕ) : Option UInt64 :=
  if shift < 64 then some (bits <<< .ofNat shift) else none

/-- The loop of `read_leb_u64` with `turns` to go. -/
def readLebLoop (bytes : Slice) : ℕ → UInt64 → ℕ → Scan UInt64
  | 0, _, _ => throw (.decode "LEB128 too long")
  | turns + 1, out, shift => do
    let byte ← readByte bytes
    let bits := (byte &&& 0x7f).toUInt64
    match checkedShl bits shift with
    | none => throw (.decode "LEB128 overflow")
    | some group =>
      if byte &&& 0x80 = 0 then return out ||| group
      else if shift + 7 < 2 ^ 32 then readLebLoop bytes turns (out ||| group) (shift + 7)
      else throw .panic

def readLebU64 (bytes : Slice) : Scan UInt64 := readLebLoop bytes 10 0 0

def readLen (bytes : Slice) : Scan ℕ := do
  let raw ← readLebU64 bytes
  if raw.toNat ≤ usizeMax then return raw.toNat else throw (.decode "length overflow")

def readU32 (bytes : Slice) : Scan UInt32 := do
  let raw ← readLebU64 bytes
  if raw.toNat < 2 ^ 32 then return raw.toUInt32 else throw (.decode "u32 LEB128 overflow")

structure RawColumns where
  hasDeflate : Bool
deriving DecidableEq

def readRawColumns (bytes : Slice) : Scan RawColumns := do
  let count ← readLen bytes
  let hasDeflate ← iterate (fun hasDeflate => do
    let spec ← readU32 bytes
    let _ ← readLen bytes
    return hasDeflate || spec &&& columnDeflate != 0) count false
  return { hasDeflate }

def skipHashes (bytes : Slice) : Scan Unit := do
  let count ← readLen bytes
  iterate (fun _ => do
    let _ ← take bytes 32
    return ()) count ()

def skipActors (bytes : Slice) : Scan Unit := do
  let count ← readLen bytes
  iterate (fun _ => do
    let len ← readLen bytes
    let _ ← take bytes len
    return ()) count ()

/-- The body of `reject_deflated_document_columns`, at its position. -/
def scanDocumentHead (chunk : Slice) : Scan Unit := do
  skipActors chunk
  skipHashes chunk
  let changes ← readRawColumns chunk
  let ops ← readRawColumns chunk
  if changes.hasDeflate || ops.hasDeflate then
    throw (.decode "deflated automerge document columns are not accepted")
  else return ()

def rejectDeflatedDocumentColumns (chunk : Slice) : Except Stop Unit :=
  (scanDocumentHead chunk).run' 0

def readChunkType (bytes : Slice) : Scan UInt8 := do
  let magic ← take bytes magicBytes.length
  if magic.val ≠ magicBytes then throw (.decode "invalid automerge chunk magic")
  else
    let _ ← take bytes 4
    readByte bytes

/-- One turn of the loop of `scan_chunks`. -/
def scanChunk (bytes : Slice) : Scan Unit := do
  let chunkType ← readChunkType bytes
  let chunkLen ← readLen bytes
  let chunk ← take bytes chunkLen
  if chunkType = chunkCompressed then
    throw (.decode "compressed automerge chunks are not accepted")
  else if chunkType = chunkDocument then StateT.lift (rejectDeflatedDocumentColumns chunk)
  else return ()

/-! ## Numbers -/

/-- The error of a function that refuses the bytes. -/
def IsDecode (e : Stop) : Prop := ∃ message, e = .decode message

theorem isDecode_decode (message : String) : IsDecode (.decode message) := ⟨message, rfl⟩

variable {bytes : Slice}

/-- A position in a slice can be moved on. -/
theorem length_lt_usizeMax (bytes : Slice) : bytes.val.length < usizeMax :=
  bytes.property.trans_lt (by decide)

theorem readByte_reads (bytes : Slice) :
    Reads bytes.val IsDecode (readByte bytes) fun b code => code = [b] where
  ok_iff {pos pos' b} hpos := by
    have hmax := length_lt_usizeMax bytes
    refine ⟨?_, ?_⟩
    · intro h
      unfold readByte at h
      split at h
      · cases h
      · next b' hb =>
        split at h
        · cases h
          exact ⟨[b], at_singleton.2 hb, rfl, rfl⟩
        · cases h
    · rintro ⟨code, hat, rfl, rfl⟩
      have hle := hat.le
      rw [List.length_singleton] at hle
      unfold readByte
      rw [at_singleton.1 hat]
      exact if_pos (by omega)
  fault_of_error {pos e} hpos h := by
    have hmax := length_lt_usizeMax bytes
    unfold readByte at h
    split at h
    · cases h
      exact isDecode_decode _
    · rw [if_pos (by omega)] at h
      cases h

theorem take_reads (bytes : Slice) (len : ℕ) :
    Reads bytes.val IsDecode (take bytes len) fun out code =>
      code = out.val ∧ out.val.length = len where
  ok_iff {pos pos' out} hpos := by
    have hmax := length_lt_usizeMax bytes
    refine ⟨?_, ?_⟩
    · intro h
      unfold take at h
      split at h
      · split at h
        · next hle =>
          cases h
          have hlen : ((bytes.val.drop pos).take len).length = len := by
            rw [List.length_take, List.length_drop]
            omega
          refine ⟨_, at_iff_slice.2 ⟨?_, ?_⟩, ⟨rfl, hlen⟩, ?_⟩ <;> rw [hlen]
          exact hle
        · cases h
      · cases h
    · rintro ⟨code, hat, ⟨rfl, rfl⟩, rfl⟩
      obtain ⟨hle, hslice⟩ := at_iff_slice.1 hat
      unfold take
      rw [if_pos (by omega), if_pos hle]
      congr 2
      exact Subtype.ext hslice.symm
  fault_of_error {pos e} hpos h := by
    unfold take at h
    split at h
    · split at h
      · cases h
      · cases h
        exact isDecode_decode _
    · cases h
      exact isDecode_decode _

/-- Whether a byte is marked as one that another follows. -/
theorem and_0x80_eq_zero (b : UInt8) : b &&& 0x80 = 0 ↔ b.toNat < 128 := by
  have hall : ∀ n < 256, n &&& 128 = 0 ↔ n < 128 := by decide +kernel
  rw [← hall b.toNat b.toNat_lt, ← UInt8.toNat_inj, UInt8.toNat_and]
  rfl

theorem toNat_and_0x7f (b : UInt8) : (b &&& 0x7f).toUInt64.toNat = b.toNat % 128 := by
  rw [UInt8.toNat_toUInt64, UInt8.toNat_and]
  exact Nat.and_two_pow_sub_one_eq_mod b.toNat 7

/-- A group above what was read before, without the bits that do not fit. -/
theorem toNat_or_shiftLeft {out : UInt64} (bits : UInt64) {shift : ℕ} (hshift : shift < 64)
    (hout : out.toNat < 2 ^ shift) :
    (out ||| bits <<< .ofNat shift).toNat = (out.toNat + 2 ^ shift * bits.toNat) % 2 ^ 64 := by
  have hpow : 2 ^ 64 = 2 ^ shift * 2 ^ (64 - shift) := by rw [← pow_add]; congr 1; omega
  have hamount : (UInt64.ofNat shift).toNat % 64 = shift := by
    rw [UInt64.toNat_ofNat']
    omega
  have hshifted : (bits <<< .ofNat shift).toNat = 2 ^ shift * (bits.toNat % 2 ^ (64 - shift)) := by
    rw [UInt64.toNat_shiftLeft, hamount, Nat.shiftLeft_eq, Nat.mul_comm, hpow, Nat.mul_mod_mul_left]
  rw [UInt64.toNat_or, hshifted, Nat.or_comm, ← Nat.two_pow_add_eq_or_of_lt hout, hpow, Nat.mod_mul,
    Nat.add_mul_mod_self_left, Nat.mod_eq_of_lt hout,
    Nat.add_mul_div_left _ _ (Nat.two_pow_pos shift), Nat.div_eq_of_lt hout, Nat.zero_add,
    Nat.add_comm]

/-- What a turn that goes on has read takes seven bits more. -/
theorem toNat_or_group_lt {out : UInt64} {b : UInt8} {shift : ℕ} (hshift : shift < 64)
    (hout : out.toNat < 2 ^ shift) :
    (out ||| (b &&& 0x7f).toUInt64 <<< .ofNat shift).toNat < 2 ^ (shift + 7) := by
  rw [toNat_or_shiftLeft _ hshift hout, toNat_and_0x7f]
  refine (Nat.mod_le ..).trans_lt ?_
  have hmul : 2 ^ shift * (b.toNat % 128) ≤ 2 ^ shift * 127 := Nat.mul_le_mul_left _ (by omega)
  rw [pow_add]
  omega

/-- The code of a 64-bit number, in at most ten groups. What the groups have beyond 64 bits does not
count. -/
def Leb (v : UInt64) (code : List UInt8) : Prop :=
  Code code ∧ code.length ≤ 10 ∧ v.toNat = value code % 2 ^ 64

/-- What is left of a code after the byte `b`. -/
def LebTail (turns : ℕ) (b : UInt8) (rest : List UInt8) : Prop :=
  b.toNat < 128 ∧ rest = [] ∨ 128 ≤ b.toNat ∧ Code rest ∧ rest.length ≤ turns

theorem lebTail_iff {turns : ℕ} {b : UInt8} {rest : List UInt8} :
    LebTail turns b rest ↔ Code (b :: rest) ∧ (b :: rest).length ≤ turns + 1 := by
  refine ⟨?_, ?_⟩
  · rintro (⟨hb, rfl⟩ | ⟨hb, hcode, hlength⟩)
    · exact ⟨.last hb, Nat.succ_le_succ (Nat.zero_le _)⟩
    · exact ⟨.more hb hcode, Nat.succ_le_succ hlength⟩
  · rintro ⟨hcode, hlength⟩
    cases hcode with
    | last hb => exact .inl ⟨hb, rfl⟩
    | more hb hcode => exact .inr ⟨hb, hcode, Nat.le_of_succ_le_succ hlength⟩

/-- **The turns of `read_leb_u64`** read a code of as many groups, above what was read before. -/
theorem readLebLoop_reads (turns : ℕ) {out : UInt64} {shift : ℕ} (hshift : shift + 7 * turns ≤ 70)
    (hout : out.toNat < 2 ^ shift) :
    Reads bytes.val IsDecode (readLebLoop bytes turns out shift) fun v code =>
      Code code ∧ code.length ≤ turns ∧
        v.toNat = (out.toNat + 2 ^ shift * value code) % 2 ^ 64 := by
  induction turns generalizing out shift with
  | zero =>
    refine (Reads.throw (isDecode_decode _)).congr fun v code => ⟨False.elim, ?_⟩
    rintro ⟨hcode, hlength, -⟩
    exact hcode.ne_nil (List.eq_nil_of_length_eq_zero (Nat.le_zero.1 hlength))
  | succ turns ih =>
    refine ((readByte_reads bytes).bind (K := fun b v rest => LebTail turns b rest ∧
      v.toNat = (out.toNat + 2 ^ shift * value (b :: rest)) % 2 ^ 64) ?_).congr ?_
    · intro b
      have hlt : shift < 64 := by omega
      have hgroup := toNat_or_shiftLeft (b &&& 0x7f).toUInt64 hlt hout
      rw [toNat_and_0x7f] at hgroup
      have hshl : checkedShl (b &&& 0x7f).toUInt64 shift =
          some ((b &&& 0x7f).toUInt64 <<< .ofNat shift) := if_pos hlt
      dsimp only
      rw [hshl]
      dsimp only
      by_cases hb : b.toNat < 128
      · -- the last group
        rw [if_pos ((and_0x80_eq_zero b).2 hb)]
        refine (Reads.pure _).congr fun v rest => ⟨?_, ?_⟩
        · rintro ⟨rfl, rfl⟩
          exact ⟨.inl ⟨hb, rfl⟩, by simpa [value] using hgroup⟩
        · rintro ⟨⟨-, rfl⟩ | ⟨hmarked, -⟩, hv⟩
          · refine ⟨UInt64.toNat_inj.1 ?_, rfl⟩
            rw [hv, hgroup, value, value]
            rfl
          · omega
      · rw [if_neg (mt (and_0x80_eq_zero b).1 hb), if_pos (by omega)]
        refine (ih (by omega) (toNat_or_group_lt hlt hout)).congr fun v rest => ?_
        have hvalue : ((out ||| (b &&& 0x7f).toUInt64 <<< .ofNat shift).toNat +
            2 ^ (shift + 7) * value rest) % 2 ^ 64 =
              (out.toNat + 2 ^ shift * value (b :: rest)) % 2 ^ 64 := by
          rw [hgroup, Nat.mod_add_mod, value, pow_add]
          congr 1
          ring
        rw [hvalue]
        constructor
        · rintro ⟨hcode, hlength, hv⟩
          exact ⟨.inr ⟨by omega, hcode, hlength⟩, hv⟩
        · rintro ⟨⟨hsmall, -⟩ | ⟨-, hcode, hlength⟩, hv⟩
          · omega
          · exact ⟨hcode, hlength, hv⟩
    · intro v code
      refine ⟨?_, ?_⟩
      · rintro ⟨b, front, rest, rfl, ⟨htail, hv⟩, rfl⟩
        obtain ⟨hcode, hlength⟩ := lebTail_iff.1 htail
        exact ⟨hcode, hlength, hv⟩
      · rintro ⟨hcode, hlength, hv⟩
        cases code with
        | nil => cases hcode
        | cons b rest => exact ⟨b, [b], rest, rfl, ⟨lebTail_iff.2 ⟨hcode, hlength⟩, hv⟩, rfl⟩

theorem readLebU64_reads (bytes : Slice) : Reads bytes.val IsDecode (readLebU64 bytes) Leb :=
  (readLebLoop_reads 10 (by decide) (by decide)).congr fun v code => by
    rw [Leb, UInt64.toNat_zero, Nat.zero_add, pow_zero, Nat.one_mul]

/-! ## Lengths that are too long -/

/-- There are nine marked bytes at the position, and behind them one that is not marked and has more
than one bit. -/
def LargeTenthGroup (bytes : List UInt8) (pos : ℕ) : Prop :=
  ∃ groups b, At bytes pos (groups ++ [b]) ∧ groups.length = 9 ∧ (∀ g ∈ groups, 128 ≤ g.toNat) ∧
    2 ≤ b.toNat ∧ b.toNat < 128

theorem readLebU64_outside {pos : ℕ} (h : bytes.val.length < pos) :
    readLebU64 bytes pos = .error (.decode "truncated automerge chunk") := by
  have hnone : bytes.val[pos]? = none := List.getElem?_eq_none (Nat.le_of_lt h)
  have hbyte : readByte bytes pos = .error (.decode "truncated automerge chunk") := by
    rw [readByte, hnone]
  simp only [readLebU64, readLebLoop, Bind.bind, StateT.bind, hbyte, Except.bind]

/-- One code at most is at a position. -/
theorem code_eq_of_at {bytes code code' : List UInt8} {pos : ℕ} (h : Code code)
    (h' : Code code') (hat : At bytes pos code) (hat' : At bytes pos code') : code = code' := by
  obtain ⟨front, rest, rfl, rfl⟩ := hat
  obtain ⟨front', rest', heq, hfront⟩ := hat'
  obtain ⟨-, heq⟩ := List.append_inj heq hfront.symm
  exact (h.append_inj h' heq).1

/-- A code of at most ten groups fits in 64 bits unless the tenth is too large. -/
theorem value_lt_iff {code : List UInt8} {pos : ℕ} (hcode : Code code) (hlength : code.length ≤ 10)
    (hat : At bytes.val pos code) : value code < 2 ^ 64 ↔ ¬ LargeTenthGroup bytes.val pos := by
  refine ⟨?_, ?_⟩
  · rintro hvalue ⟨groups, b, hat', hnine, hgroups, hlo, hhi⟩
    obtain rfl := code_eq_of_at hcode (code_iff.2 ⟨groups, b, rfl, hgroups, hhi⟩) hat hat'
    rw [value_append, hnine, value, value] at hvalue
    omega
  · intro hlarge
    by_contra hvalue
    obtain ⟨groups, b, rfl, hgroups, hb⟩ := code_iff.1 hcode
    rw [List.length_append, List.length_singleton] at hlength
    have hlow := value_lt groups
    rw [value_append, value, value] at hvalue
    by_cases hnine : groups.length = 9
    · rw [hnine] at hlow hvalue
      exact hlarge ⟨groups, b, hat, hnine, hgroups, by omega, hb⟩
    · have hpow : 128 ^ groups.length ≤ 128 ^ 8 := Nat.pow_le_pow_right (by decide) (by omega)
      have hmul : 128 ^ groups.length * (b.toNat % 128 + 128 * 0) ≤ 128 ^ 8 * 127 :=
        Nat.mul_le_mul hpow (by omega)
      omega

/-- **When `read_leb_u64` is exact.** The number it returns is the one that the bytes stand for, and
it refuses every number of more than 64 bits, exactly where the tenth group is not too large. -/
theorem readLebU64_exact_iff (bytes : Slice) (pos : ℕ) :
    ((∀ v pos', readLebU64 bytes pos = .ok (v, pos') → ∃ code, At bytes.val pos code ∧
        pos' = pos + code.length ∧ Code code ∧ value code = v.toNat) ∧
      ∀ code, At bytes.val pos code → Code code → 2 ^ 64 ≤ value code →
        ∃ message, readLebU64 bytes pos = .error (.decode message)) ↔
    ¬ LargeTenthGroup bytes.val pos := by
  have hreads := readLebU64_reads bytes
  refine ⟨?_, ?_⟩
  · rintro ⟨hexact, -⟩ hlarge
    obtain ⟨groups, b, hat, hnine, hgroups, hlo, hhi⟩ := hlarge
    have hcode : Code (groups ++ [b]) := code_iff.2 ⟨groups, b, rfl, hgroups, hhi⟩
    have hlength : (groups ++ [b]).length ≤ 10 := by
      rw [List.length_append, hnine]
      exact Nat.le_refl 10
    have hpos : pos ≤ bytes.val.length := Nat.le_trans (Nat.le_add_right ..) hat.le
    have hread := (hreads.ok_iff hpos).2 ⟨_, hat, ⟨hcode, hlength, UInt64.toNat_ofNat'⟩, rfl⟩
    obtain ⟨code, hat', -, hcode', hvalue⟩ := hexact _ _ hread
    obtain rfl := code_eq_of_at hcode hcode' hat hat'
    refine (value_lt_iff hcode hlength hat).1 ?_ ⟨groups, b, hat, hnine, hgroups, hlo, hhi⟩
    rw [hvalue]
    exact UInt64.toNat_lt _
  · intro hlarge
    refine ⟨?_, ?_⟩
    · intro v pos' hread
      by_cases hpos : pos ≤ bytes.val.length
      · obtain ⟨code, hat, ⟨hcode, hlength, hv⟩, rfl⟩ := (hreads.ok_iff hpos).1 hread
        have hvalue := (value_lt_iff hcode hlength hat).2 hlarge
        exact ⟨code, hat, rfl, hcode, by rw [hv, Nat.mod_eq_of_lt hvalue]⟩
      · rw [readLebU64_outside (Nat.lt_of_not_le hpos)] at hread
        cases hread
    · intro code hat hcode hvalue
      have hpos : pos ≤ bytes.val.length := Nat.le_trans (Nat.le_add_right ..) hat.le
      cases hread : readLebU64 bytes pos with
      | error e =>
        obtain ⟨message, rfl⟩ := hreads.fault_of_error hpos hread
        exact ⟨message, rfl⟩
      | ok x =>
        obtain ⟨v, pos'⟩ := x
        obtain ⟨code', hat', ⟨hcode', hlength, -⟩, -⟩ := (hreads.ok_iff hpos).1 hread
        obtain rfl := code_eq_of_at hcode hcode' hat hat'
        have hlt := (value_lt_iff hcode hlength hat).2 hlarge
        omega

/-- `2 ^ 64`, in ten groups. -/
def twoPow64 : Slice := ⟨List.replicate 9 0x80 ++ [0x02], by decide⟩

/-- A number of more than 64 bits that is read as another one. -/
theorem readLebU64_truncates :
    readLebU64 twoPow64 0 = .ok (0, 10) ∧
      ¬ ((∀ v pos', readLebU64 twoPow64 0 = .ok (v, pos') → ∃ code, At twoPow64.val 0 code ∧
          pos' = 0 + code.length ∧ Code code ∧ value code = v.toNat) ∧
        ∀ code, At twoPow64.val 0 code → Code code → 2 ^ 64 ≤ value code →
          ∃ message, readLebU64 twoPow64 0 = .error (.decode message)) := by
  have hread : readLebU64 twoPow64 0 = .ok (0, 10) := by decide
  have hcode : Code twoPow64.val := by
    refine code_iff.2 ⟨List.replicate 9 0x80, 0x02, rfl, ?_, by decide⟩
    intro g hg
    rw [List.eq_of_mem_replicate hg]
    decide
  refine ⟨hread, ?_⟩
  rintro ⟨-, hrefused⟩
  obtain ⟨message, herror⟩ := hrefused twoPow64.val ⟨[], [], by simp, rfl⟩ hcode (by decide)
  rw [hread] at herror
  cases herror

/-! ## The format -/

/-- A length and as many bytes. -/
def Sized (body code : List UInt8) : Prop :=
  ∃ len v, Leb v len ∧ body.length = v.toNat ∧ code = len ++ body

/-- A count and as many items. -/
def Counted (Item : List UInt8 → Prop) (code : List UInt8) : Prop :=
  ∃ count n, ∃ items : List (List UInt8), Leb n count ∧ items.length = n.toNat ∧
    (∀ item ∈ items, Item item) ∧ code = count ++ items.flatten

/-- The specification of a column and the length of its data. -/
def Column (spec : UInt32) (code : List UInt8) : Prop :=
  ∃ front raw len v, Leb raw front ∧ raw.toNat < 2 ^ 32 ∧ spec = raw.toUInt32 ∧ Leb v len ∧
    code = front ++ len

/-- The table of the columns with these specifications. -/
def Columns (specs : List UInt32) (code : List UInt8) : Prop :=
  ∃ count n, ∃ items : List (List UInt8), Leb n count ∧ specs.length = n.toNat ∧
    List.Forall₂ Column specs items ∧ code = count ++ items.flatten

/-- The head of a document chunk in which no column is packed: the actors, the hashes of the heads,
and the tables of the columns of the changes and of the operations. -/
def DocumentHead (code : List UInt8) : Prop :=
  ∃ actors hashes changes ops specs specs',
    Counted (fun item => ∃ actor, Sized actor item) actors ∧
    Counted (fun hash => hash.length = 32) hashes ∧ Columns specs changes ∧ Columns specs' ops ∧
    (∀ spec ∈ specs ++ specs', spec &&& columnDeflate = 0) ∧
    code = actors ++ (hashes ++ (changes ++ ops))

def Document (body : List UInt8) : Prop :=
  ∃ head rest, body = head ++ rest ∧ DocumentHead head

/-- A chunk: the magic bytes, a checksum, the type and the body behind its length. -/
def Chunk (chunkType : UInt8) (body code : List UInt8) : Prop :=
  ∃ checksum sized, checksum.length = 4 ∧ Sized body sized ∧
    code = magicBytes ++ checksum ++ [chunkType] ++ sized

/-- A chunk that is not packed, and in which nothing is. -/
def PlainChunk (code : List UInt8) : Prop :=
  ∃ chunkType body, Chunk chunkType body code ∧ chunkType ≠ chunkCompressed ∧
    (chunkType = chunkDocument → Document body)

/-! ## The readers are exact -/

theorem readLen_reads (bytes : Slice) :
    Reads bytes.val IsDecode (readLen bytes) fun n code => ∃ v, Leb v code ∧ n = v.toNat := by
  refine ((readLebU64_reads bytes).bind fun raw =>
    (Reads.pure raw.toNat).ite (Reads.throw (isDecode_decode _))).congr fun n code => ⟨?_, ?_⟩
  · rintro ⟨raw, front, rest, hraw, hrest, rfl⟩
    obtain ⟨rfl, rfl⟩ := hrest.1 (Nat.le_sub_one_of_lt raw.toNat_lt)
    rw [List.append_nil]
    exact ⟨raw, hraw, rfl⟩
  · rintro ⟨v, hv, rfl⟩
    refine ⟨v, code, [], hv, ⟨fun _ => ⟨rfl, rfl⟩, ?_⟩, (List.append_nil _).symm⟩
    exact fun hlarge => hlarge (Nat.le_sub_one_of_lt v.toNat_lt)

theorem readU32_reads (bytes : Slice) :
    Reads bytes.val IsDecode (readU32 bytes) fun n code =>
      ∃ raw, Leb raw code ∧ raw.toNat < 2 ^ 32 ∧ n = raw.toUInt32 := by
  refine ((readLebU64_reads bytes).bind fun raw =>
    (Reads.pure raw.toUInt32).ite (Reads.throw (isDecode_decode _))).congr fun n code => ⟨?_, ?_⟩
  · rintro ⟨raw, front, rest, hraw, hrest, rfl⟩
    by_cases hlt : raw.toNat < 2 ^ 32
    · obtain ⟨rfl, rfl⟩ := hrest.1 hlt
      rw [List.append_nil]
      exact ⟨raw, hraw, hlt, rfl⟩
    · exact (hrest.2 hlt).elim
  · rintro ⟨raw, hraw, hlt, rfl⟩
    exact ⟨raw, code, [], hraw, ⟨fun _ => ⟨rfl, rfl⟩, fun hlarge => hlarge hlt⟩,
      (List.append_nil _).symm⟩

/-- Bytes that are skipped. -/
theorem skip_reads (bytes : Slice) (len : ℕ) :
    Reads bytes.val IsDecode (do let _ ← take bytes len; return ()) fun (_ : Unit) code =>
      code.length = len := by
  refine ((take_reads bytes len).bind fun _ => Reads.pure ()).congr_of_le fun _ code hle => ⟨?_, ?_⟩
  · rintro ⟨out, front, rest, ⟨rfl, hlen⟩, ⟨-, rfl⟩, rfl⟩
    rwa [List.append_nil]
  · intro hlen
    exact ⟨⟨code, Nat.le_trans hle bytes.property⟩, code, [], ⟨rfl, hlen⟩, ⟨rfl, rfl⟩,
      (List.append_nil _).symm⟩

/-- A count, and as many turns of a loop. -/
theorem counted_reads {body : Unit → Scan Unit} {Item : List UInt8 → Prop}
    (h : ∀ u, Reads bytes.val IsDecode (body u) fun _ => Item) :
    Reads bytes.val IsDecode (do let count ← readLen bytes; iterate body count ()) fun _ code =>
      Counted Item code := by
  refine ((readLen_reads bytes).bind fun count => Reads.iterate h count ()).congr
    fun _ code => ⟨?_, ?_⟩
  · rintro ⟨count, front, rest, ⟨n, hn, rfl⟩, hturns, rfl⟩
    obtain ⟨items, hlen, hitems, rfl⟩ := turns_unit.1 hturns
    exact ⟨front, n, items, hn, hlen, hitems, rfl⟩
  · rintro ⟨front, n, items, hn, hlen, hitems, rfl⟩
    exact ⟨n.toNat, front, _, ⟨n, hn, rfl⟩, turns_unit.2 ⟨items, hlen, hitems, rfl⟩, rfl⟩

theorem skipHashes_reads (bytes : Slice) : Reads bytes.val IsDecode (skipHashes bytes) fun _ code =>
    Counted (fun hash => hash.length = 32) code :=
  counted_reads fun _ => skip_reads bytes 32

theorem skipActors_reads (bytes : Slice) : Reads bytes.val IsDecode (skipActors bytes) fun _ code =>
    Counted (fun item => ∃ actor, Sized actor item) code := by
  refine counted_reads fun _ => ?_
  refine ((readLen_reads bytes).bind (skip_reads bytes)).congr fun _ code => ⟨?_, ?_⟩
  · rintro ⟨len, front, actor, ⟨v, hv, rfl⟩, hlen, rfl⟩
    exact ⟨actor, front, v, hv, hlen, rfl⟩
  · rintro ⟨actor, front, v, hv, hlen, rfl⟩
    exact ⟨v.toNat, front, actor, ⟨v, hv, rfl⟩, hlen, rfl⟩

/-- One turn of the loop over a table of columns. -/
theorem column_reads (bytes : Slice) (hasDeflate : Bool) :
    Reads bytes.val IsDecode (do
      let spec ← readU32 bytes
      let _ ← readLen bytes
      return hasDeflate || spec &&& columnDeflate != 0) fun hasDeflate' code =>
        ∃ spec, Column spec code ∧ hasDeflate' = (hasDeflate || spec &&& columnDeflate != 0) := by
  refine ((readU32_reads bytes).bind fun spec => (readLen_reads bytes).bind fun _ =>
    Reads.pure (hasDeflate || spec &&& columnDeflate != 0)).congr fun _ code => ⟨?_, ?_⟩
  · rintro ⟨spec, front, _, ⟨raw, hraw, hlt, rfl⟩, ⟨_, len, _, ⟨v, hv, rfl⟩, ⟨rfl, rfl⟩, rfl⟩, rfl⟩
    rw [List.append_nil]
    exact ⟨_, ⟨front, raw, len, v, hraw, hlt, rfl, hv, rfl⟩, rfl⟩
  · rintro ⟨_, ⟨front, raw, len, v, hraw, hlt, rfl, hv, rfl⟩, rfl⟩
    exact ⟨_, front, len, ⟨raw, hraw, hlt, rfl⟩, ⟨_, len, [], ⟨v, hv, rfl⟩, ⟨rfl, rfl⟩,
      (List.append_nil _).symm⟩, rfl⟩

/-- A flag that is raised by one of the values. -/
theorem foldl_or_eq_any {α : Type} (p : α → Bool) (values : List α) (b : Bool) :
    values.foldl (fun b a => b || p a) b = (b || values.any p) := by
  induction values generalizing b with
  | nil => simp
  | cons a values ih => rw [List.foldl_cons, ih, List.any_cons, Bool.or_assoc]

theorem readRawColumns_reads (bytes : Slice) :
    Reads bytes.val IsDecode (readRawColumns bytes) fun columns code =>
      ∃ specs, Columns specs code ∧
        columns.hasDeflate = specs.any fun spec => spec &&& columnDeflate != 0 := by
  refine ((readLen_reads bytes).bind fun count =>
    (Reads.iterate (column_reads bytes) count false).bind fun hasDeflate =>
      Reads.pure (RawColumns.mk hasDeflate)).congr fun columns code => ⟨?_, ?_⟩
  · rintro ⟨_, front, _, ⟨n, hn, rfl⟩, ⟨_, rest, _, hturns, ⟨rfl, rfl⟩, rfl⟩, rfl⟩
    obtain ⟨specs, items, hlen, hcolumns, rfl, rfl⟩ := turns_foldl.1 hturns
    refine ⟨specs, ⟨front, n, items, hn, hlen, hcolumns, by rw [List.append_nil]⟩, ?_⟩
    rw [foldl_or_eq_any, Bool.false_or]
  · rintro ⟨specs, ⟨front, n, items, hn, hlen, hcolumns, rfl⟩, hdeflate⟩
    refine ⟨_, front, items.flatten, ⟨n, hn, rfl⟩, ⟨columns.hasDeflate, items.flatten, [], ?_,
      ⟨rfl, rfl⟩, (List.append_nil _).symm⟩, rfl⟩
    refine turns_foldl.2 ⟨specs, items, hlen, hcolumns, rfl, ?_⟩
    rw [foldl_or_eq_any, Bool.false_or, hdeflate]

theorem not_deflate_iff {specs : List UInt32} :
    (specs.any fun spec => spec &&& columnDeflate != 0) = false ↔
      ∀ spec ∈ specs, spec &&& columnDeflate = 0 := by
  rw [List.any_eq_false]
  simp only [bne_iff_ne, ne_eq, not_not]

theorem scanDocumentHead_reads (chunk : Slice) :
    Reads chunk.val IsDecode (scanDocumentHead chunk) fun _ => DocumentHead := by
  refine ((skipActors_reads chunk).bind fun _ => (skipHashes_reads chunk).bind fun _ =>
    (readRawColumns_reads chunk).bind fun changes => (readRawColumns_reads chunk).bind fun ops =>
      (Reads.throw (isDecode_decode _)).ite (Reads.pure ())).congr fun _ code => ⟨?_, ?_⟩
  · rintro ⟨_, actors, _, hactors, ⟨_, hashes, _, hhashes, ⟨columns, changes, _,
      ⟨specs, hchanges, hspecs⟩, ⟨columns', ops, last, ⟨specs', hops, hspecs'⟩, hflags, rfl⟩, rfl⟩,
      rfl⟩, rfl⟩
    have hplain : ¬ (columns.hasDeflate || columns'.hasDeflate) = true := fun h => (hflags.1 h).elim
    obtain ⟨-, rfl⟩ := hflags.2 hplain
    rw [Bool.not_eq_true, Bool.or_eq_false_iff, hspecs, hspecs', not_deflate_iff,
      not_deflate_iff] at hplain
    rw [List.append_nil]
    exact ⟨actors, hashes, changes, ops, specs, specs', hactors, hhashes, hchanges, hops,
      List.forall_mem_append.2 hplain, rfl⟩
  · rintro ⟨actors, hashes, changes, ops, specs, specs', hactors, hhashes, hchanges, hops, hplain,
      rfl⟩
    obtain ⟨hspecs, hspecs'⟩ := List.forall_mem_append.1 hplain
    refine ⟨(), actors, _, hactors, ⟨(), hashes, _, hhashes, ⟨⟨false⟩, changes, _,
      ⟨specs, hchanges, (not_deflate_iff.2 hspecs).symm⟩, ⟨⟨false⟩, ops, [],
        ⟨specs', hops, (not_deflate_iff.2 hspecs').symm⟩, ?_, (List.append_nil _).symm⟩, rfl⟩,
      rfl⟩, rfl⟩
    exact ⟨nofun, fun _ => ⟨rfl, rfl⟩⟩

theorem readChunkType_reads (bytes : Slice) :
    Reads bytes.val IsDecode (readChunkType bytes) fun chunkType code =>
      ∃ checksum, checksum.length = 4 ∧ code = magicBytes ++ (checksum ++ [chunkType]) := by
  refine ((take_reads bytes _).bind fun magic => (Reads.throw (isDecode_decode _)).ite
    ((take_reads bytes 4).bind fun _ => readByte_reads bytes)).congr_of_le
      fun chunkType code hle => ⟨?_, ?_⟩
  · rintro ⟨magic, _, _, ⟨rfl, -⟩, hrest, rfl⟩
    have hmagic : ¬ magic.val ≠ magicBytes := fun h => hrest.1 h
    obtain ⟨checksum, _, _, ⟨rfl, hlen⟩, rfl, rfl⟩ := hrest.2 hmagic
    exact ⟨checksum.val, hlen, by rw [not_not.1 hmagic]⟩
  · rintro ⟨checksum, hlen, rfl⟩
    refine ⟨⟨magicBytes, by decide⟩, magicBytes, _, ⟨rfl, rfl⟩, ⟨fun h => h rfl, fun _ => ?_⟩, rfl⟩
    exact ⟨⟨checksum, by rw [hlen]; decide⟩, checksum, _, ⟨rfl, hlen⟩, rfl, rfl⟩

/-- What the scan makes of the body of a chunk. -/
theorem chunkBody_reads (bytes : Slice) (chunkType : UInt8) (chunk : Slice) :
    Reads bytes.val IsDecode
      (if chunkType = chunkCompressed then
        throw (.decode "compressed automerge chunks are not accepted")
      else if chunkType = chunkDocument then StateT.lift (rejectDeflatedDocumentColumns chunk)
      else return () : Scan Unit)
      fun _ code => (chunkType ≠ chunkCompressed ∧
        (chunkType = chunkDocument → Document chunk.val)) ∧ code = [] := by
  have hok : ∀ u, rejectDeflatedDocumentColumns chunk = .ok u ↔ Document chunk.val :=
    fun _ => (scanDocumentHead_reads chunk).run'_ok_iff
  have herr : ∀ e, rejectDeflatedDocumentColumns chunk = .error e → IsDecode e :=
    fun _ => (scanDocumentHead_reads chunk).run'_fault
  refine ((Reads.throw (isDecode_decode _)).ite
    ((Reads.lift hok herr).ite (Reads.pure ()))).congr fun _ code => ?_
  by_cases hcompressed : chunkType = chunkCompressed
  · simp [hcompressed]
  · by_cases hdocument : chunkType = chunkDocument
    · simp [hdocument, chunkDocument, chunkCompressed]
    · simp [hcompressed, hdocument]

theorem scanChunk_reads (bytes : Slice) :
    Reads bytes.val IsDecode (scanChunk bytes) fun _ => PlainChunk := by
  refine ((readChunkType_reads bytes).bind fun chunkType => (readLen_reads bytes).bind fun len =>
    (take_reads bytes len).bind fun chunk => chunkBody_reads bytes chunkType chunk).congr_of_le
      fun _ code hle => ⟨?_, ?_⟩
  · rintro ⟨chunkType, _, _, ⟨checksum, hchecksum, rfl⟩, ⟨_, front, _, ⟨v, hv, rfl⟩, ⟨chunk, _, _,
      ⟨rfl, hlen⟩, ⟨⟨htype, hdocument⟩, rfl⟩, rfl⟩, rfl⟩, rfl⟩
    refine ⟨chunkType, chunk.val, ⟨checksum, front ++ chunk.val, hchecksum,
      ⟨front, v, hv, hlen, rfl⟩, ?_⟩, htype, hdocument⟩
    simp only [List.append_assoc, List.append_nil]
  · rintro ⟨chunkType, body, ⟨checksum, _, hchecksum, ⟨front, v, hv, hlen, rfl⟩, rfl⟩, htype,
      hdocument⟩
    simp only [List.length_append] at hle
    have hbody : body.length ≤ isizeMax := Nat.le_trans (by omega) bytes.property
    refine ⟨chunkType, magicBytes ++ (checksum ++ [chunkType]), front ++ (body ++ []),
      ⟨checksum, hchecksum, rfl⟩, ⟨v.toNat, front, body ++ [], ⟨v, hv, rfl⟩,
        ⟨⟨body, hbody⟩, body, [], ⟨rfl, hlen⟩, ⟨⟨htype, hdocument⟩, rfl⟩, rfl⟩, rfl⟩, ?_⟩
    simp only [List.append_assoc, List.append_nil]

theorem PlainChunk.length_pos {code : List UInt8} (h : PlainChunk code) : 0 < code.length := by
  obtain ⟨chunkType, body, ⟨checksum, sized, -, -, rfl⟩, -⟩ := h
  simp only [List.length_append, List.length_singleton]
  omega

/-- A turn of the loop of `scan_chunks` moves on. -/
theorem scanChunk_moves (bytes : Slice) (pos pos' : ℕ) (hpos : pos < bytes.val.length)
    (h : scanChunk bytes pos = .ok ((), pos')) : pos < pos' := by
  obtain ⟨code, -, hchunk, rfl⟩ := ((scanChunk_reads bytes).ok_iff (Nat.le_of_lt hpos)).1 h
  exact Nat.lt_add_of_pos_right hchunk.length_pos

/-! ## The scan -/

def scanChunks (bytes : Slice) : Except Stop Unit :=
  untilEnd bytes.val (scanChunk bytes) (scanChunk_moves bytes) 0

/-- `validate_len`. -/
def validateLen (kind : String) (len cap : ℕ) : Except Stop Unit :=
  if len > cap then .error (.decode s!"{kind} payload exceeds {cap} bytes") else .ok ()

def validateChangeBytes (bytes : Slice) : Except Stop Unit := do
  validateLen "change" bytes.val.length controlWireCap
  scanChunks bytes

def validateSnapshotBytes (bytes : Slice) : Except Stop Unit := do
  validateLen "snapshot" bytes.val.length snapshotWireCap
  scanChunks bytes

/-- The bytes are chunks, and nothing in them is packed. -/
def PlainChunks (bytes : List UInt8) : Prop :=
  ∃ chunks : List (List UInt8), bytes = chunks.flatten ∧ ∀ chunk ∈ chunks, PlainChunk chunk

theorem scanChunks_ok_iff {bytes : Slice} : scanChunks bytes = .ok () ↔ PlainChunks bytes.val := by
  rw [scanChunks, untilEnd_ok_iff (scanChunk_reads bytes) (Nat.zero_le _), List.drop_zero]
  simp only [PlainChunks, and_comm]

/-- **What the scan accepts**: a sequence of chunks of which none is packed, in part or as a whole.
It does not panic on what it does not accept, but refuses it. -/
theorem scanChunks_total (bytes : Slice) :
    (scanChunks bytes = .ok () ↔ PlainChunks bytes.val) ∧
      ∀ e, scanChunks bytes = .error e → ∃ message, e = .decode message :=
  ⟨scanChunks_ok_iff, fun _ => untilEnd_fault (scanChunk_reads bytes) (Nat.zero_le _)⟩

theorem validateLen_bind_ok_iff {kind : String} {len cap : ℕ} {x : Except Stop Unit} :
    (validateLen kind len cap >>= fun _ => x) = .ok () ↔ len ≤ cap ∧ x = .ok () := by
  unfold validateLen
  split
  · next hlarge => exact ⟨nofun, fun h => absurd h.1 (Nat.not_le.2 hlarge)⟩
  · next hsmall => exact ⟨fun h => ⟨Nat.le_of_not_lt hsmall, h⟩, fun h => h.2⟩

/-- A change that reaches the library is within the cap, and plain. -/
theorem validateChangeBytes_ok_iff {bytes : Slice} :
    validateChangeBytes bytes = .ok () ↔
      bytes.val.length ≤ controlWireCap ∧ PlainChunks bytes.val := by
  rw [← scanChunks_ok_iff]
  exact validateLen_bind_ok_iff

theorem validateSnapshotBytes_ok_iff {bytes : Slice} :
    validateSnapshotBytes bytes = .ok () ↔
      bytes.val.length ≤ snapshotWireCap ∧ PlainChunks bytes.val := by
  rw [← scanChunks_ok_iff]
  exact validateLen_bind_ok_iff

end Mouser
