import Mouser.Files.Receiver

/-!
# What a sink holds

A sink is used through `FileSink` only. What is assumed of one is `LawfulFileSink`: a write that
succeeds appends its data to what the sink holds, a write that fails changes nothing, and the digest
it finishes with is that of what it holds. `MemSink` is the in-memory sink. SHA-256 is the parameter
`Sha256`.
-/

namespace Mouser

class Sha256 where
  sha256 : List UInt8 → Hash

export Sha256 (sha256)

/-- The function that has the digests of a table. -/
@[reducible] def Sha256.ofTable (table : List (List UInt8 × Hash)) (otherwise : Hash) : Sha256 where
  sha256 bytes := (table.lookup bytes).getD otherwise

/-- The digests of the empty file and of `abc`. -/
def Hash.ofEmpty : Hash where
  bytes :=
    [0xe3, 0xb0, 0xc4, 0x42, 0x98, 0xfc, 0x1c, 0x14, 0x9a, 0xfb, 0xf4, 0xc8, 0x99, 0x6f, 0xb9, 0x24,
     0x27, 0xae, 0x41, 0xe4, 0x64, 0x9b, 0x93, 0x4c, 0xa4, 0x95, 0x99, 0x1b, 0x78, 0x52, 0xb8, 0x55]
  length_eq := rfl

def Hash.ofAbc : Hash where
  bytes :=
    [0xba, 0x78, 0x16, 0xbf, 0x8f, 0x01, 0xcf, 0xea, 0x41, 0x41, 0x40, 0xde, 0x5d, 0xae, 0x22, 0x23,
     0xb0, 0x03, 0x61, 0xa3, 0x96, 0x17, 0x7a, 0x9c, 0xb4, 0x10, 0xff, 0x61, 0xf2, 0x00, 0x15, 0xad]
  length_eq := rfl

@[reducible] def Sha256.abc : Sha256 :=
  .ofTable [([], .ofEmpty), ([97, 98, 99], .ofAbc)] .ofEmpty

theorem length_nil_lt : ([] : List UInt8).length < 2 ^ 64 := by decide

theorem length_abc_lt : ([97, 98, 99] : List UInt8).length < 2 ^ 64 := by decide

theorem length_xy_lt : ([120, 121] : List UInt8).length < 2 ^ 64 := by decide

/-- The bytes a sink holds. -/
class SinkContent (S : Type) where
  content : S → List UInt8

export SinkContent (content)

class LawfulFileSink (S : Type) [Sha256] [FileSink S] [SinkContent S] : Prop where
  existingLen_eq : ∀ s : S, (FileSink.existingLen s).toNat = (content s).length
  content_written : ∀ (s s' : S) (data : List UInt8),
    FileSink.writeAt s (FileSink.existingLen s) data = (s', .ok ()) → content s' = content s ++ data
  content_failed : ∀ (s s' : S) (offset : UInt64) (data : List UInt8) (e : SinkError),
    FileSink.writeAt s offset data = (s', .error e) → content s' = content s
  content_finish : ∀ s : S, content (FileSink.finish s).1 = content s
  finish_digest : ∀ (s s' : S) (digest : Hash),
    FileSink.finish s = (s', .ok digest) → digest = sha256 (content s)

/-- A sink that does not fail: every write at its end that fits its length succeeds, and so does
`finish`. -/
class FaultlessSink (S : Type) [FileSink S] [SinkContent S] : Prop where
  write_ok : ∀ (s : S) (data : List UInt8), (content s).length + data.length < 2 ^ 64 →
    (FileSink.writeAt s (FileSink.existingLen s) data).2 = .ok ()
  finish_ok : ∀ s : S, ∃ digest, (FileSink.finish s).2 = .ok digest

/-- The in-memory sink; its length fits a `u64`. -/
structure MemSink where
  bytes : List UInt8
  length_lt : bytes.length < 2 ^ 64
deriving DecidableEq

namespace MemSink

def new : MemSink := ⟨[], length_nil_lt⟩

def existingLen (s : MemSink) : UInt64 := .ofNat s.bytes.length

def writeAt (s : MemSink) (offset : UInt64) (data : List UInt8) :
    MemSink × Except SinkError Unit :=
  if offset ≠ s.existingLen then
    (s, .error ⟨s!"non-contiguous write at {offset}, have {s.bytes.length}"⟩)
  else if h : (s.bytes ++ data).length < 2 ^ 64 then (⟨s.bytes ++ data, h⟩, .ok ())
  -- the bytes would not fit in memory
  else (s, .error ⟨"capacity overflow"⟩)

instance [Sha256] : FileSink MemSink where
  existingLen := existingLen
  writeAt := writeAt
  finish s := (s, .ok (sha256 s.bytes))

instance : SinkContent MemSink := ⟨bytes⟩

theorem toNat_existingLen (s : MemSink) : s.existingLen.toNat = s.bytes.length :=
  UInt64.toNat_ofNat_of_lt' s.length_lt

instance [Sha256] : LawfulFileSink MemSink where
  existingLen_eq := toNat_existingLen
  content_written s s' data h := by
    simp only [FileSink.writeAt, FileSink.existingLen, writeAt, ne_eq, not_true_eq_false,
      if_false] at h
    split at h
    · cases h
      rfl
    · cases h
  content_failed s s' offset data e h := by
    simp only [FileSink.writeAt, writeAt] at h
    split at h
    · cases h
      rfl
    · split at h <;> cases h
      rfl
  content_finish _ := rfl
  finish_digest s s' digest h := by
    cases h
    rfl

instance [Sha256] : FaultlessSink MemSink where
  write_ok s data h := by
    have hfits : (s.bytes ++ data).length < 2 ^ 64 := by
      rw [List.length_append]
      exact h
    simp only [FileSink.writeAt, FileSink.existingLen, writeAt, ne_eq, not_true_eq_false, if_false,
      dif_pos hfits]
  finish_ok s := ⟨_, rfl⟩

end MemSink

end Mouser
