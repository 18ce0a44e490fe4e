import Mouser.Lib.Framing

/-!
# Control-stream framing

A frame is `len: u32 (LE) | type: u16 (LE) | flags: u16 (LE) | payload`, where `len` counts the
type, the flags and the payload.
-/

namespace Mouser

open Framing

/-- Maximum control-stream message size, covering type, flags and payload. -/
def maxControlFrame : ℕ := 256 * 1024

/-- Maximum bulk-stream message size. -/
def maxBulkFrame : ℕ := 2 * 1024 * 1024

/-- The bytes of `len`, `type` and `flags`. -/
def headerLen : ℕ := 8

/-- A decoded frame. -/
structure Frame where
  msgType : UInt16
  flags : UInt16
  payload : List UInt8
deriving DecidableEq

inductive FrameError where
  /-- The buffer does not yet contain a complete frame. -/
  | truncated
  | tooLarge
deriving DecidableEq

/-- `bytes.get(from..to)`. -/
def slice (bytes : List UInt8) (lo hi : ℕ) : Option (List UInt8) :=
  if lo ≤ hi ∧ hi ≤ bytes.length then some ((bytes.drop lo).take (hi - lo)) else none

def u16ToLeBytes (n : UInt16) : List UInt8 := leBytes 2 n.toNat

def u16OfLeBytes (bytes : List UInt8) : UInt16 := .ofNat (ofLeBytes bytes)

/-- Encode a frame around `payload`, rejecting it if `len` would exceed `max`. -/
def encodeFrameCapped (msgType flags : UInt16) (payload : List UInt8) (max : ℕ) :
    Except FrameError (List UInt8) :=
  let len := headerLen - 4 + payload.length
  if len > max then .error .tooLarge
  else .ok (leBytes 4 len ++ u16ToLeBytes msgType ++ u16ToLeBytes flags ++ payload)

def encodeFrame (msgType flags : UInt16) (payload : List UInt8) :
    Except FrameError (List UInt8) :=
  encodeFrameCapped msgType flags payload maxControlFrame

def encodeBulkFrame (msgType flags : UInt16) (payload : List UInt8) :
    Except FrameError (List UInt8) :=
  encodeFrameCapped msgType flags payload maxBulkFrame

/-- Decode one frame from the front of `buf`, with the number of bytes it occupied. -/
def decodeFrame (buf : List UInt8) : Except FrameError (Frame × ℕ) :=
  match slice buf 0 4 with
  | none => .error .truncated
  | some lenBytes =>
    let len := ofLeBytes lenBytes
    if len < headerLen - 4 ∨ len > maxControlFrame then .error .tooLarge
    else
      let total := 4 + len
      match slice buf 0 total with
      | none => .error .truncated
      | some frame =>
        match slice frame 4 6, slice frame 6 8, slice frame headerLen total with
        | some typeBytes, some flagBytes, some payload =>
          .ok ({ msgType := u16OfLeBytes typeBytes, flags := u16OfLeBytes flagBytes, payload },
            total)
        | _, _, _ => .error .truncated

/-! ## The header -/

theorem slice_eq_some {bytes s : List UInt8} {lo hi : ℕ} :
    slice bytes lo hi = some s ↔
      lo ≤ hi ∧ hi ≤ bytes.length ∧ s = (bytes.drop lo).take (hi - lo) := by
  unfold slice
  split
  · next h => simp [h.1, h.2, eq_comm]
  · next h =>
    refine ⟨nofun, ?_⟩
    rintro ⟨hle, hlen, -⟩
    exact absurd ⟨hle, hlen⟩ h

@[simp] theorem length_u16ToLeBytes (n : UInt16) : (u16ToLeBytes n).length = 2 :=
  length_leBytes ..

@[simp] theorem u16OfLeBytes_toLeBytes (n : UInt16) : u16OfLeBytes (u16ToLeBytes n) = n := by
  rw [u16OfLeBytes, u16ToLeBytes, ofLeBytes_leBytes n.toNat_lt]
  exact UInt16.ofNat_toNat

/-- The length that the frame in front declares. -/
def declaredLen (bytes : List UInt8) : ℕ := ofLeBytes (bytes.take 4)

/-- The type that the frame in front declares. -/
def declaredType (bytes : List UInt8) : UInt16 := u16OfLeBytes ((bytes.drop 4).take 2)

/-- The declared length is one that a frame on the control stream can have. -/
def LenOk (max len : ℕ) : Prop := 4 ≤ len ∧ len ≤ max

instance (max len : ℕ) : Decidable (LenOk max len) := inferInstanceAs (Decidable (_ ∧ _))

theorem encodeFrameCapped_ok {msgType flags : UInt16} {payload bytes : List UInt8} {max : ℕ} :
    encodeFrameCapped msgType flags payload max = .ok bytes ↔
      4 + payload.length ≤ max ∧
        bytes = leBytes 4 (4 + payload.length) ++ u16ToLeBytes msgType ++ u16ToLeBytes flags ++
          payload := by
  unfold encodeFrameCapped headerLen
  dsimp only
  split
  · next h =>
    refine ⟨nofun, ?_⟩
    rintro ⟨hle, -⟩
    omega
  · next h =>
    rw [Except.ok.injEq]
    exact ⟨fun hb => ⟨by omega, hb.symm⟩, fun hb => hb.2.symm⟩

/-- What an encoded frame declares. -/
theorem declared_of_encode {msgType flags : UInt16} {payload bytes : List UInt8} {max : ℕ}
    (hmax : max < 2 ^ 32) (h : encodeFrameCapped msgType flags payload max = .ok bytes)
    (rest : List UInt8) :
    LenOk max (declaredLen (bytes ++ rest)) ∧
      declaredLen (bytes ++ rest) = 4 + payload.length ∧
      declaredType (bytes ++ rest) = msgType ∧ bytes.length = 8 + payload.length ∧
      bytes.drop 8 = payload := by
  obtain ⟨hle, rfl⟩ := encodeFrameCapped_ok.1 h
  have hlen : declaredLen (leBytes 4 (4 + payload.length) ++ u16ToLeBytes msgType ++
      u16ToLeBytes flags ++ payload ++ rest) = 4 + payload.length := by
    rw [declaredLen, List.append_assoc, List.append_assoc, List.append_assoc,
      List.take_left' (length_leBytes ..), ofLeBytes_leBytes (by omega)]
  refine ⟨?_, hlen, ?_, ?_, ?_⟩
  · rw [hlen]
    exact ⟨by omega, hle⟩
  · rw [declaredType, List.append_assoc, List.append_assoc, List.append_assoc,
      List.drop_left' (length_leBytes ..), List.take_left' (length_u16ToLeBytes ..),
      u16OfLeBytes_toLeBytes]
  · simp
    omega
  · rw [List.drop_left']
    simp

/-- **What `decodeFrame` does**, in the terms of what the frame in front declares. -/
theorem decodeFrame_eq (buf : List UInt8) :
    decodeFrame buf =
      if buf.length < 4 then .error .truncated
      else if ¬ LenOk maxControlFrame (declaredLen buf) then .error .tooLarge
      else if buf.length < 4 + declaredLen buf then .error .truncated
      else
        .ok ({ msgType := declaredType buf
               flags := u16OfLeBytes ((buf.drop 6).take 2)
               payload := (buf.drop 8).take (declaredLen buf - 4) }, 4 + declaredLen buf) := by
  unfold decodeFrame slice LenOk headerLen
  by_cases hshort : buf.length < 4
  · simp [hshort, Nat.not_le.2 hshort]
  have hdeclared : ofLeBytes ((buf.drop 0).take (4 - 0)) = declaredLen buf := rfl
  rw [if_neg hshort, if_pos ⟨Nat.zero_le _, Nat.le_of_not_lt hshort⟩]
  dsimp only
  rw [hdeclared]
  by_cases hlen : 4 ≤ declaredLen buf ∧ declaredLen buf ≤ maxControlFrame
  · rw [if_neg (by omega), if_neg (not_not.2 hlen)]
    by_cases htotal : buf.length < 4 + declaredLen buf
    · rw [if_neg (by omega), if_pos htotal]
    · have hframe : ((buf.drop 0).take (4 + declaredLen buf - 0)).length = 4 + declaredLen buf := by
        simp
        omega
      rw [if_pos ⟨Nat.zero_le _, by omega⟩, if_neg htotal]
      dsimp only
      rw [hframe, if_pos (by omega), if_pos (by omega), if_pos (by omega)]
      have htype : min (6 - 4) (4 + declaredLen buf - 0 - 4) = 2 := by omega
      have hflags : min (8 - 6) (4 + declaredLen buf - 0 - 6) = 2 := by omega
      have hpayload : min (4 + declaredLen buf - 8) (4 + declaredLen buf - 0 - 8) =
          declaredLen buf - 4 := by omega
      simp only [List.drop_zero, List.drop_take, List.take_take, htype, hflags, hpayload,
        declaredType]
  · rw [if_pos (by omega), if_pos hlen]

/-- **The round trip.** What `encodeFrame` writes is decoded, whatever comes after it. -/
theorem decodeFrame_encodeFrame {msgType flags : UInt16} {payload bytes : List UInt8}
    (h : encodeFrame msgType flags payload = .ok bytes) (rest : List UInt8) :
    decodeFrame (bytes ++ rest) = .ok ({ msgType, flags, payload }, bytes.length) := by
  obtain ⟨hok, hlen, htype, hlength, hdrop⟩ := declared_of_encode (by decide) h rest
  have hflags : u16OfLeBytes (((bytes ++ rest).drop 6).take 2) = flags := by
    obtain ⟨-, rfl⟩ := encodeFrameCapped_ok.1 h
    rw [List.append_assoc, List.append_assoc, List.drop_left' (by simp),
      List.take_left' (length_u16ToLeBytes ..), u16OfLeBytes_toLeBytes]
  rw [decodeFrame_eq, if_neg, if_neg (not_not.2 hok), if_neg, htype, hflags, hlen]
  · rw [List.drop_append_of_le_length (by omega), hdrop, List.take_left' (by omega), hlength]
    congr 2
    omega
  · rw [List.length_append]
    omega
  · rw [List.length_append]
    omega

/-- A frame that has not come in to its end is one to wait for. -/
theorem decodeFrame_take_encodeFrame {msgType flags : UInt16} {payload bytes : List UInt8}
    (h : encodeFrame msgType flags payload = .ok bytes) {k : ℕ} (hk : k < bytes.length) :
    decodeFrame (bytes.take k) = .error .truncated := by
  obtain ⟨hok, hlen, -, hlength, -⟩ := declared_of_encode (by decide) h []
  rw [List.append_nil] at hok hlen
  have htake : (bytes.take k).length = k := List.length_take_of_le (Nat.le_of_lt hk)
  rw [decodeFrame_eq, htake]
  by_cases hheader : k < 4
  · rw [if_pos hheader]
  · have hdeclared : declaredLen (bytes.take k) = declaredLen bytes := by
      rw [declaredLen, declaredLen, List.take_take, Nat.min_eq_left (Nat.le_of_not_lt hheader)]
    rw [hdeclared, if_neg hheader, if_neg (not_not.2 hok), if_pos (by omega)]

theorem u16ToLeBytes_ofLeBytes {bytes : List UInt8} (h : bytes.length = 2) :
    u16ToLeBytes (u16OfLeBytes bytes) = bytes := by
  have hlt : ofLeBytes bytes < 2 ^ 16 := by
    have := ofLeBytes_lt bytes
    rwa [h] at this
  have hnat : (u16OfLeBytes bytes).toNat = ofLeBytes bytes := UInt16.toNat_ofNat_of_lt' hlt
  rw [u16ToLeBytes, hnat, ← h, leBytes_ofLeBytes]

/-- The bytes of a decoded frame are the ones it is encoded in. -/
theorem encodeFrame_of_decodeFrame {buf : List UInt8} {frame : Frame} {n : ℕ}
    (h : decodeFrame buf = .ok (frame, n)) :
    n ≤ buf.length ∧
      encodeFrame frame.msgType frame.flags frame.payload = .ok (buf.take n) := by
  rw [decodeFrame_eq] at h
  split at h
  · cases h
  next hheader =>
  split at h
  · cases h
  next hok =>
  split at h
  · cases h
  next htotal =>
  cases h
  obtain ⟨hmin, hmax⟩ := not_not.1 hok
  have hpayload : ((buf.drop 8).take (declaredLen buf - 4)).length = declaredLen buf - 4 := by
    rw [List.length_take, List.length_drop]
    omega
  have hlen : leBytes 4 (declaredLen buf) = buf.take 4 := by
    have hfour : (buf.take 4).length = 4 := List.length_take_of_le (by omega)
    have hbytes := leBytes_ofLeBytes (buf.take 4)
    rwa [hfour] at hbytes
  have htype : u16ToLeBytes (declaredType buf) = (buf.drop 4).take 2 := by
    refine u16ToLeBytes_ofLeBytes ?_
    rw [List.length_take, List.length_drop]
    omega
  have hflags : u16ToLeBytes (u16OfLeBytes ((buf.drop 6).take 2)) = (buf.drop 6).take 2 := by
    refine u16ToLeBytes_ofLeBytes ?_
    rw [List.length_take, List.length_drop]
    omega
  refine ⟨Nat.le_of_not_lt htotal, encodeFrameCapped_ok.2 ⟨?_, ?_⟩⟩
  · rw [hpayload]
    omega
  -- the four fields are the parts of the prefix, cut at 4, at 6 and at 8
  have hsum : 4 + (declaredLen buf - 4) = declaredLen buf := by omega
  rw [hpayload, hsum, hlen, htype, hflags]
  have hcut : 4 + declaredLen buf = 4 + (2 + (2 + (declaredLen buf - 4))) := by omega
  rw [hcut, List.take_add, List.take_add, List.take_add, List.drop_drop, List.drop_drop]
  simp only [List.append_assoc]

/-- **The codec of the frames.** A frame within the cap is encoded, and decoded whatever comes after
it; before its last byte it is one to wait for; and what is decoded is the encoding of the frame. -/
theorem frame_codec :
    (∀ (msgType flags : UInt16) (payload : List UInt8) (max : ℕ), 4 + payload.length ≤ max →
      4 + payload.length ≤ maxControlFrame → ∃ bytes,
        encodeFrameCapped msgType flags payload max = .ok bytes ∧
          (∀ rest, decodeFrame (bytes ++ rest) = .ok ({ msgType, flags, payload }, bytes.length)) ∧
          ∀ k < bytes.length, decodeFrame (bytes.take k) = .error .truncated) ∧
      ∀ (buf : List UInt8) (frame : Frame) (n : ℕ), decodeFrame buf = .ok (frame, n) →
        n ≤ buf.length ∧ ∀ max ≥ maxControlFrame,
          encodeFrameCapped frame.msgType frame.flags frame.payload max = .ok (buf.take n) := by
  refine ⟨?_, ?_⟩
  · intro msgType flags payload max hmax hcap
    have hencode : encodeFrame msgType flags payload = .ok _ := encodeFrameCapped_ok.2 ⟨hcap, rfl⟩
    refine ⟨_, encodeFrameCapped_ok.2 ⟨hmax, rfl⟩, ?_, ?_⟩
    · exact fun rest => decodeFrame_encodeFrame hencode rest
    · exact fun k hk => decodeFrame_take_encodeFrame hencode hk
  · intro buf frame n hdecode
    obtain ⟨hn, hencode⟩ := encodeFrame_of_decodeFrame hdecode
    obtain ⟨hcap, hbytes⟩ := encodeFrameCapped_ok.1 hencode
    exact ⟨hn, fun max hmax => encodeFrameCapped_ok.2 ⟨Nat.le_trans hcap hmax, hbytes⟩⟩

/-- A frame without a payload, in front of the first byte of the next one. -/
theorem frame_codec_empty :
    (∃ bytes, encodeFrameCapped 5 0 [] maxControlFrame = .ok bytes ∧
      decodeFrame (bytes ++ [4]) = .ok ({ msgType := 5, flags := 0, payload := [] }, bytes.length) ∧
      decodeFrame (bytes.take 7) = .error .truncated) ∧
    encodeFrameCapped 5 0 [] maxBulkFrame = .ok [4, 0, 0, 0, 5, 0, 0, 0] := by
  obtain ⟨bytes, hencode, hdecode, hshort⟩ :=
    frame_codec.1 5 0 [] maxControlFrame (by decide) (by decide)
  have hbytes : bytes = [4, 0, 0, 0, 5, 0, 0, 0] := (encodeFrameCapped_ok.1 hencode).2
  refine ⟨⟨bytes, hencode, hdecode [4], hshort 7 (by rw [hbytes]; decide)⟩, ?_⟩
  have hagain := (frame_codec.2 _ _ _ (hdecode [4])).2 maxBulkFrame (by decide)
  rwa [hbytes] at hagain

end Mouser
