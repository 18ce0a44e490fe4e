import Mouser.Lib.Framing

/-!
# Frames of the IPC stream

Every message on the local socket is one frame: its length as a little-endian `u32`, then its CBOR
payload. `write_message` writes a frame, and `read_message` is a future that reads one. Between two
polls the bytes it has consumed are held by the future alone.
-/

namespace Mouser

open Framing

/-- Maximum IPC frame payload. -/
def maxFrame : ℕ := 256 * 1024

inductive IpcError where
  | tooLarge (len : ℕ)
  | decode
  | closed
  | truncatedFrame
deriving DecidableEq

/-- The bytes that `write_message` writes for an encoded message. -/
def writeMessage (payload : List UInt8) : Except IpcError (List UInt8) :=
  if 2 ^ 32 ≤ payload.length then .error (.tooLarge (2 ^ 32 - 1))
  else if maxFrame < payload.length then .error (.tooLarge payload.length)
  else .ok (frame 4 payload)

theorem writeMessage_ok {payload bytes : List UInt8} :
    writeMessage payload = .ok bytes ↔ payload.length ≤ maxFrame ∧ bytes = frame 4 payload := by
  unfold writeMessage
  split
  · next h => simp [maxFrame] at h ⊢; omega
  · split
    · next h => simp; omega
    · next h =>
      simp only [Except.ok.injEq]
      exact ⟨fun hb => ⟨by omega, hb.symm⟩, fun hb => hb.2.symm⟩

/-- A `read_message` future that has been polled. -/
abbrev ReadMessage := Progress 4 maxFrame

/-- A `read_message` future that has not. -/
def ReadMessage.start : ReadMessage := Progress.start (by decide)

@[simp] theorem ReadMessage.bytes_start : ReadMessage.start.bytes = [] := rfl

/-- What one read makes of the future. -/
inductive ReadPoll (α : Type*) where
  | pending (r : ReadMessage)
  | ready (result : Except IpcError α)

/-- `read_message` gets the bytes of one read; no bytes are the end of the stream. -/
def ReadMessage.poll {α : Type*} (decode : List UInt8 → Option α) (r : ReadMessage)
    (bs : List UInt8) : ReadPoll α :=
  if bs = [] then .ready (.error (if r.bytes = [] then .closed else .truncatedFrame))
  else
    match r.feed bs with
    | .more r => .pending r
    | .tooLarge len => .ready (.error (.tooLarge len))
    | .payload payload =>
      match decode payload with
      | some message => .ready (.ok message)
      | none => .ready (.error .decode)

/-- **One read of a stream of messages.** It brings the future further into a frame, or yields the
next message and leaves the stream of the rest. -/
theorem ReadMessage.poll_frames {α : Type*} {encode : α → List UInt8}
    {decode : List UInt8 → Option α} {r : ReadMessage} {bs more : List UInt8} {messages : List α}
    (hdecode : ∀ m ∈ messages, decode (encode m) = some m)
    (hsize : ∀ m ∈ messages, (encode m).length ≤ maxFrame) (hbs : bs ≠ [])
    (hwants : bs.length ≤ r.wants) (h : r.bytes ++ bs ++ more = frames 4 (messages.map encode)) :
    (∃ q, r.poll decode bs = .pending q ∧ q.bytes ++ more = frames 4 (messages.map encode)) ∨
      ∃ m rest, messages = m :: rest ∧ r.poll decode bs = .ready (.ok m) ∧
        more = frames 4 (rest.map encode) := by
  have hall : ∀ x ∈ messages.map encode, x.length ≤ maxFrame := by simpa using hsize
  rcases Progress.feed_frames (by decide) hall hbs hwants h with
    ⟨q, hfeed, hq⟩ | ⟨payload, rest, hmap, hfeed, hmore⟩
  · exact .inl ⟨q, by rw [poll, if_neg hbs, hfeed], hq⟩
  · obtain ⟨m, ms, rfl, rfl, rfl⟩ := List.map_eq_cons_iff.1 hmap
    refine .inr ⟨m, ms, rfl, ?_, hmore⟩
    rw [poll, if_neg hbs, hfeed]
    simp only [hdecode m (.head _)]

end Mouser
