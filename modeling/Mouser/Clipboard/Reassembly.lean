import Mouser.Files.Sink
import Mouser.Lib.FixedWidth

/-!
# Reassembly of a pulled representation

The chunks of a pull arrive in order. `Reassembly::push` commits a chunk that starts where the last
one ended and does not run past the offered size; the last chunk has to complete the size and the
hash. A chunk that is refused is an error, and the pull is given up.
-/

namespace Mouser

/-- The most bytes in one `ClipboardData`. -/
def maxDataChunk : ℕ := 1024 * 1024

inductive ClipboardError where
  | chunkTooLarge (n : ℕ)
  | offsetOutOfRange (expected got : UInt64)
  | hashMismatch
  | unknownHash
  | protocol (message : String)
deriving DecidableEq

/-- What has arrived of the content with the given hash. -/
structure Reassembly where
  format : ClipFormat
  hash : Hash
  size : UInt64
  buf : List UInt8
  done : Bool
  length_le : buf.length ≤ size.toNat

namespace Reassembly

def new (format : ClipFormat) (hash : Hash) (size : UInt64) : Reassembly where
  format := format
  hash := hash
  size := size
  buf := []
  done := false
  length_le := Nat.zero_le _

/-- The checks of `push` on a chunk before it is committed. -/
def check (r : Reassembly) (offset : UInt64) (data : List UInt8) : Except ClipboardError Unit :=
  if r.done then .error (.protocol "chunk after last")
  else if maxDataChunk < data.length then .error (.chunkTooLarge data.length)
  else
    let committed : UInt64 := .ofNat r.buf.length
    if offset ≠ committed then .error (.offsetOutOfRange committed offset)
    else
      match offset.checkedAdd (.ofNat data.length) with
      | none => .error (.offsetOutOfRange committed offset)
      | some chunkEnd =>
        if chunkEnd > r.size then .error (.offsetOutOfRange r.size chunkEnd) else .ok ()

theorem toNat_buf_length (r : Reassembly) : (UInt64.ofNat r.buf.length).toNat = r.buf.length :=
  UInt64.toNat_ofNat_of_lt' (r.length_le.trans_lt r.size.toNat_lt)

/-- **What is admitted:** a chunk that goes on where the last one ended and fits the size. -/
theorem check_eq_ok_iff {r : Reassembly} {offset : UInt64} {data : List UInt8} :
    r.check offset data = .ok () ↔ r.done = false ∧ data.length ≤ maxDataChunk ∧
      offset.toNat = r.buf.length ∧ (r.buf ++ data).length ≤ r.size.toNat := by
  unfold check
  by_cases hdone : r.done = true
  · rw [if_pos hdone, hdone]
    exact ⟨nofun, nofun⟩
  rw [if_neg hdone]
  by_cases hlarge : maxDataChunk < data.length
  · rw [if_pos hlarge]
    exact ⟨nofun, fun h => absurd h.2.1 (Nat.not_le.2 hlarge)⟩
  rw [if_neg hlarge]
  have hbuf := r.toNat_buf_length
  by_cases hoff : offset = .ofNat r.buf.length
  · have hlen : (UInt64.ofNat data.length).toNat = data.length :=
      UInt64.toNat_ofNat_of_lt' ((Nat.not_lt.1 hlarge).trans_lt (by decide))
    rw [if_neg (not_not.2 hoff)]
    rw [List.length_append]
    cases hend : offset.checkedAdd (.ofNat data.length) with
    | none =>
      have hover := UInt64.checkedAdd_eq_none.1 hend
      have hsize := r.size.toNat_lt
      rw [hlen] at hover
      refine ⟨nofun, ?_⟩
      rintro ⟨-, -, hnat, hfit⟩
      omega
    | some chunkEnd =>
      have hsum := UInt64.checkedAdd_eq_some.1 hend
      rw [hlen] at hsum
      have hnat : offset.toNat = r.buf.length := by
        rw [hoff]
        exact hbuf
      dsimp only
      by_cases hpast : chunkEnd > r.size
      · rw [if_pos hpast]
        refine ⟨nofun, ?_⟩
        rintro ⟨-, -, -, hfit⟩
        have hlt := UInt64.lt_iff_toNat_lt.1 hpast
        omega
      · rw [if_neg hpast]
        have hle := UInt64.le_iff_toNat_le.1 (UInt64.not_lt.1 hpast)
        exact ⟨fun _ => ⟨by simpa using hdone, by omega, hnat, by omega⟩, fun _ => rfl⟩
  · rw [if_pos hoff]
    refine ⟨nofun, ?_⟩
    rintro ⟨-, -, hnat, -⟩
    exact absurd (UInt64.toNat_inj.1 (hnat.trans hbuf.symm)) hoff

/-- `buf.extend_from_slice(data)` -/
def append (r : Reassembly) (data : List UInt8) (h : (r.buf ++ data).length ≤ r.size.toNat) :
    Reassembly :=
  { r with buf := r.buf ++ data, length_le := h }

@[simp] theorem append_buf (r : Reassembly) (data : List UInt8)
    (h : (r.buf ++ data).length ≤ r.size.toNat) : (r.append data h).buf = r.buf ++ data := rfl

@[simp] theorem append_size (r : Reassembly) (data : List UInt8)
    (h : (r.buf ++ data).length ≤ r.size.toNat) : (r.append data h).size = r.size := rfl

@[simp] theorem append_hash (r : Reassembly) (data : List UInt8)
    (h : (r.buf ++ data).length ≤ r.size.toNat) : (r.append data h).hash = r.hash := rfl

/-- The content is handed on. -/
def take (r : Reassembly) : Reassembly :=
  { r with buf := [], length_le := Nat.zero_le _ }

variable [Sha256]

/-- The checks of `push` behind the last chunk. -/
def finish (r : Reassembly) : Reassembly × Except ClipboardError (Option (List UInt8)) :=
  let r := { r with done := true }
  if .ofNat r.buf.length ≠ r.size then
    (r, .error (.offsetOutOfRange r.size (.ofNat r.buf.length)))
  else if sha256 r.buf ≠ r.hash then (r, .error .hashMismatch)
  else (r.take, .ok (some r.buf))

/-- Commit one chunk; the whole content, when this was the last one. -/
def push (r : Reassembly) (offset : UInt64) (data : List UInt8) (last : Bool) :
    Reassembly × Except ClipboardError (Option (List UInt8)) :=
  match h : r.check offset data with
  | .error e => (r, .error e)
  | .ok () =>
    let r := r.append data (check_eq_ok_iff.1 h).2.2.2
    if !last then (r, .ok none) else r.finish

/-! ## What a chunk does -/

/-- What comes of the content behind the last chunk. -/
theorem finish_cases (r : Reassembly) :
    (r.buf.length = r.size.toNat ∧ sha256 r.buf = r.hash ∧ r.finish.2 = .ok (some r.buf)) ∨
    ((r.buf.length ≠ r.size.toNat ∨ sha256 r.buf ≠ r.hash) ∧ ∃ e, r.finish.2 = .error e) := by
  have hnat := r.toNat_buf_length
  unfold finish
  by_cases hsize : r.buf.length = r.size.toNat
  · have heq : UInt64.ofNat r.buf.length = r.size := UInt64.toNat_inj.1 (hnat.trans hsize)
    rw [if_neg (not_not.2 heq)]
    by_cases hhash : sha256 r.buf = r.hash
    · rw [if_neg (not_not.2 hhash)]
      exact .inl ⟨hsize, hhash, rfl⟩
    · rw [if_pos hhash]
      exact .inr ⟨.inr hhash, _, rfl⟩
  · have hne : UInt64.ofNat r.buf.length ≠ r.size := by
      intro heq
      rw [heq] at hnat
      exact hsize hnat.symm
    rw [if_pos hne]
    exact .inr ⟨.inl hsize, _, rfl⟩

theorem finish_fst (r : Reassembly) :
    r.finish.1.format = r.format ∧ r.finish.1.hash = r.hash ∧ r.finish.1.size = r.size := by
  unfold finish
  dsimp only
  split
  · exact ⟨rfl, rfl, rfl⟩
  · split <;> exact ⟨rfl, rfl, rfl⟩

variable {r : Reassembly} {offset : UInt64} {data : List UInt8}

theorem push_of_error {e : ClipboardError} (h : r.check offset data = .error e) (last : Bool) :
    r.push offset data last = (r, .error e) := by
  unfold push
  split
  · next e' h' =>
    rw [h'] at h
    cases h
    rfl
  · next h' =>
    rw [h'] at h
    cases h

theorem push_of_not_last (h : r.check offset data = .ok ()) :
    r.push offset data false = (r.append data (check_eq_ok_iff.1 h).2.2.2, .ok none) := by
  unfold push
  split
  · next e h' =>
    rw [h'] at h
    cases h
  · rfl

theorem push_of_last (h : r.check offset data = .ok ()) :
    r.push offset data true = (r.append data (check_eq_ok_iff.1 h).2.2.2).finish := by
  unfold push
  split
  · next e h' =>
    rw [h'] at h
    cases h
  · rfl

/-- **A completed pull** has the size and the hash that it started with. -/
theorem push_completes {last : Bool} {bytes : List UInt8}
    (h : (r.push offset data last).2 = .ok (some bytes)) :
    bytes = r.buf ++ data ∧ bytes.length = r.size.toNat ∧ sha256 bytes = r.hash := by
  cases hcheck : r.check offset data with
  | error e =>
    rw [push_of_error hcheck] at h
    cases h
  | ok u =>
    cases last with
    | false =>
      rw [push_of_not_last hcheck] at h
      cases h
    | true =>
      rw [push_of_last hcheck] at h
      rcases (r.append data (check_eq_ok_iff.1 hcheck).2.2.2).finish_cases with
        ⟨hsize, hhash, heq⟩ | ⟨-, e, heq⟩
      · rw [heq] at h
        cases h
        exact ⟨rfl, hsize, hhash⟩
      · rw [heq] at h
        cases h

/-- What a reassembly is for does not change. -/
theorem push_fst (r : Reassembly) (offset : UInt64) (data : List UInt8) (last : Bool) :
    (r.push offset data last).1.format = r.format ∧ (r.push offset data last).1.hash = r.hash ∧
      (r.push offset data last).1.size = r.size := by
  cases hcheck : r.check offset data with
  | error e =>
    rw [push_of_error hcheck]
    exact ⟨rfl, rfl, rfl⟩
  | ok u =>
    cases last with
    | false =>
      rw [push_of_not_last hcheck]
      exact ⟨rfl, rfl, rfl⟩
    | true =>
      rw [push_of_last hcheck]
      exact finish_fst _

end Reassembly

end Mouser
