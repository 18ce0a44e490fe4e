import Mouser.Lib.Reads
import Mouser.Protocol.Framing

/-!
# The control stream

The peer opens the control stream with a prime frame, which `consumePrime` swallows, or with a real
frame, which it hands back to seed the receive buffer. After that each `recvFrame` reads until a
whole frame is buffered, and takes it out. `control_stream_framing` says that the frames come out as
they were written, however the bytes were cut into reads.
-/

namespace Mouser

open Framing

/-- The type of the frame that primes the stream. -/
def typeStreamPrime : UInt16 := 0xFFFF

inductive NetError where
  /-- `Io`, for a stream that ended where `fillTo` wanted more. -/
  | closed
  /-- `Io`, for a stream that ended inside an exact read. -/
  | finishedEarly
  | frame (message : String)
deriving DecidableEq

/-- Parse a frame header into the type and the length of the payload. -/
def parseFrameHeader (header : List UInt8) : Except NetError (UInt16 × ℕ) :=
  match slice header 0 4, slice header 4 6 with
  | some lenBytes, some typeBytes =>
    let len := ofLeBytes lenBytes
    let msgType := u16OfLeBytes typeBytes
    if ¬ LenOk maxControlFrame len then .error (.frame "control frame length out of range")
    else .ok (msgType, len - 4)
  | _, _ => .error (.frame "short control frame header")

/-- Read the first frame of a stream, and return the bytes that seed the receive buffer. -/
def consumePrime (recv : Reads UInt8) : Except NetError (List UInt8 × Reads UInt8) :=
  match recv.readExact 8 with
  | none => .error .finishedEarly
  | some (header, recv) =>
    match parseFrameHeader header with
    | .error e => .error e
    | .ok (msgType, payloadLen) =>
      match if payloadLen > 0 then recv.readExact payloadLen else some ([], recv) with
      | none => .error .finishedEarly
      | some (payload, recv) =>
        if msgType = typeStreamPrime then .ok ([], recv) else .ok (header ++ payload, recv)

/-- The stream, and the bytes read that are not yet consumed as a complete frame. -/
structure RecvState where
  stream : Reads UInt8
  buf : List UInt8

namespace RecvState

/-- Read from the stream until the buffer holds at least `needed` bytes. -/
def fillTo (state : RecvState) (needed : ℕ) : RecvState × Except NetError Unit :=
  if state.buf.length < needed then
    match hread : state.stream.read 4096 with
    | none => (state, .error .closed)
    | some (read, stream) =>
      have : stream.all.length < state.stream.all.length :=
        Reads.length_lt_of_read (by decide) hread
      if read.isEmpty then ({ state with stream }, .error .closed)
      else fillTo { stream, buf := state.buf ++ read } needed
  else (state, .ok ())
termination_by state.stream.all.length

/-- Take one frame out of the stream. -/
def recvFrame (state : RecvState) : RecvState × Except NetError (UInt16 × List UInt8) :=
  match state.fillTo 8 with
  | (state, .error e) => (state, .error e)
  | (state, .ok ()) =>
    match slice state.buf 0 8 with
    | none => (state, .error (.frame "short control frame header"))
    | some header =>
      match parseFrameHeader header with
      | .error e => (state, .error e)
      | .ok (msgType, payloadLen) =>
        let frameLen := 8 + payloadLen
        match state.fillTo frameLen with
        | (state, .error e) => (state, .error e)
        | (state, .ok ()) =>
          match slice state.buf 8 frameLen with
          | none => (state, .error (.frame "short control frame payload"))
          | some payload => ({ state with buf := state.buf.drop frameLen }, .ok (msgType, payload))

/-- `recv`, again and again. -/
def recvMany (state : RecvState) : ℕ → List (Except NetError (UInt16 × List UInt8))
  | 0 => []
  | k + 1 => state.recvFrame.2 :: state.recvFrame.1.recvMany k

end RecvState

/-- What a connection gets from its control stream: it consumes the prime frame, and then receives
`k` times. -/
def received (recv : Reads UInt8) (k : ℕ) : List (Except NetError (UInt16 × List UInt8)) :=
  match consumePrime recv with
  | .error e => [.error e]
  | .ok (seed, recv) => RecvState.recvMany { stream := recv, buf := seed } k

/-- Read one frame of a bulk stream. -/
def readFrame (recv : Reads UInt8) (max : ℕ) :
    Except NetError ((UInt16 × List UInt8) × Reads UInt8) :=
  match recv.readExact 8 with
  | none => .error .finishedEarly
  | some (header, recv) =>
    match slice header 0 4, slice header 4 6 with
    | some lenBytes, some typeBytes =>
      let len := ofLeBytes lenBytes
      let msgType := u16OfLeBytes typeBytes
      if ¬ LenOk max len then .error (.frame "frame length out of range")
      else
        match recv.readExact (len - 4) with
        | none => .error .finishedEarly
        | some (payload, recv) => .ok ((msgType, payload), recv)
    | _, _ => .error (.frame "short frame header")

/-- The frames that `encodeFrame` writes, one after another. -/
def writeAll : List Frame → Except FrameError (List UInt8)
  | [] => .ok []
  | f :: fs => do
    let frame ← encodeFrame f.msgType f.flags f.payload
    let frames ← writeAll fs
    return frame ++ frames

theorem writeAll_cons {f : Frame} {fs : List Frame} {bytes : List UInt8}
    (h : writeAll (f :: fs) = .ok bytes) :
    ∃ frame rest, encodeFrame f.msgType f.flags f.payload = .ok frame ∧ writeAll fs = .ok rest ∧
      bytes = frame ++ rest := by
  rw [writeAll] at h
  cases hframe : encodeFrame f.msgType f.flags f.payload with
  | error e =>
    rw [hframe] at h
    cases h
  | ok frame =>
    rw [hframe] at h
    cases hrest : writeAll fs with
    | error e =>
      rw [hrest] at h
      cases h
    | ok rest =>
      rw [hrest] at h
      cases h
      exact ⟨frame, rest, rfl, rfl, rfl⟩

/-! ## The header -/

theorem slices_of_header {header : List UInt8} (h : 8 ≤ header.length) :
    slice header 0 4 = some (header.take 4) ∧ slice header 4 6 = some ((header.drop 4).take 2) :=
  ⟨slice_eq_some.2 ⟨by omega, by omega, rfl⟩, slice_eq_some.2 ⟨by omega, by omega, rfl⟩⟩

/-- **What `parseFrameHeader` does**, in the terms of what the header declares. -/
theorem parseFrameHeader_eq {header : List UInt8} (h : 8 ≤ header.length) :
    parseFrameHeader header =
      if ¬ LenOk maxControlFrame (declaredLen header) then
        .error (.frame "control frame length out of range")
      else .ok (declaredType header, declaredLen header - 4) := by
  obtain ⟨hlen, htype⟩ := slices_of_header h
  rw [parseFrameHeader, hlen, htype]
  rfl

/-- The header is in the first eight bytes. -/
theorem declared_take (bytes : List UInt8) :
    declaredLen (bytes.take 8) = declaredLen bytes ∧
      declaredType (bytes.take 8) = declaredType bytes := by
  constructor
  · rw [declaredLen, declaredLen, List.take_take]
    rfl
  · rw [declaredType, declaredType, List.drop_take, List.take_take]
    rfl

/-- **What `readFrame` does**, in the same terms. -/
theorem readFrame_eq (recv : Reads UInt8) (max : ℕ) :
    (readFrame recv max).map Prod.fst =
      if recv.all.length < 8 then .error .finishedEarly
      else if ¬ LenOk max (declaredLen recv.all) then .error (.frame "frame length out of range")
      else if recv.all.length < 4 + declaredLen recv.all then .error .finishedEarly
      else .ok (declaredType recv.all, (recv.all.drop 8).take (declaredLen recv.all - 4)) := by
  rcases recv.readExact_cases 8 with ⟨hnone, hshort⟩ | ⟨header, body, hread, hlength, hall⟩
  · rw [if_pos hshort, readFrame, hnone]
    rfl
  have htake : recv.all.take 8 = header := by rw [hall, List.take_left' hlength]
  have hdrop : recv.all.drop 8 = body.all := by rw [hall, List.drop_left' hlength]
  have htotal : recv.all.length = 8 + body.all.length := by rw [hall, List.length_append, hlength]
  obtain ⟨hlen, htype⟩ := declared_take recv.all
  rw [htake] at hlen htype
  obtain ⟨hlenBytes, htypeBytes⟩ := slices_of_header hlength.ge
  have hframe : readFrame recv max =
      if ¬ LenOk max (declaredLen recv.all) then .error (.frame "frame length out of range")
      else
        match body.readExact (declaredLen recv.all - 4) with
        | none => .error .finishedEarly
        | some (payload, recv') => .ok ((declaredType recv.all, payload), recv') := by
    rw [readFrame, hread, ← hlen, ← htype]
    dsimp only
    rw [hlenBytes, htypeBytes]
    rfl
  rw [if_neg (by omega), hframe]
  by_cases hok : LenOk max (declaredLen recv.all)
  · have hmin := hok.1
    rw [if_neg (not_not.2 hok), if_neg (not_not.2 hok)]
    rcases body.readExact_cases (declaredLen recv.all - 4) with
      ⟨hnone, hshort⟩ | ⟨payload, rest, hbody, hpayload, hrest⟩
    · rw [if_pos (by omega), hnone]
      rfl
    · have hlong := congrArg List.length hrest
      rw [List.length_append] at hlong
      rw [if_neg (by omega), hbody, hdrop, hrest, List.take_left' hpayload]
      rfl
  · rw [if_pos hok, if_pos hok]
    rfl

/-! ## The readers agree -/

/-- The three readers of a frame agree on the bytes of a stream: the control stream's parser, the
bulk stream's reader and `decodeFrame` turn down the same lengths, and a frame that one of them
reads is read by the others, with its type and its payload. -/
structure HeadersAgree (recv : Reads UInt8) : Prop where
  parsed : 8 ≤ recv.all.length →
    (parseFrameHeader (recv.all.take 8) = .error (.frame "control frame length out of range") ↔
      decodeFrame recv.all = .error .tooLarge)
  read : 8 ≤ recv.all.length →
    ((readFrame recv maxControlFrame).map Prod.fst = .error (.frame "frame length out of range") ↔
      decodeFrame recv.all = .error .tooLarge)
  frames : ∀ msgType payload,
    (readFrame recv maxControlFrame).map Prod.fst = .ok (msgType, payload) ↔
      ∃ flags total, decodeFrame recv.all = .ok ({ msgType, flags, payload }, total)
  header : ∀ frame total, decodeFrame recv.all = .ok (frame, total) →
    parseFrameHeader (recv.all.take 8) = .ok (frame.msgType, frame.payload.length) ∧
      total = 8 + frame.payload.length

theorem headersAgree (recv : Reads UInt8) : HeadersAgree recv := by
  have hdecode := decodeFrame_eq recv.all
  have hread := readFrame_eq recv maxControlFrame
  by_cases hlength : recv.all.length < 8
  · -- no reader finds a whole frame
    have hnone : ∀ frame total, decodeFrame recv.all ≠ .ok (frame, total) := by
      intro frame total hok
      rw [hdecode] at hok
      split_ifs at hok with h4 hbad hcut
      have hmin := hbad.1
      omega
    rw [if_pos hlength] at hread
    refine ⟨fun h8 => by omega, fun h8 => by omega, ?_, fun frame total hok => ?_⟩
    · intro msgType payload
      rw [hread]
      refine ⟨nofun, ?_⟩
      rintro ⟨flags, total, hok⟩
      exact absurd hok (hnone _ _)
    · exact absurd hok (hnone frame total)
  have hheader : parseFrameHeader (recv.all.take 8) =
      if ¬ LenOk maxControlFrame (declaredLen recv.all) then
        .error (.frame "control frame length out of range")
      else .ok (declaredType recv.all, declaredLen recv.all - 4) := by
    rw [parseFrameHeader_eq (by rw [List.length_take]; omega), (declared_take _).1,
      (declared_take _).2]
  rw [if_neg (by omega)] at hdecode
  rw [if_neg hlength] at hread
  by_cases hok : LenOk maxControlFrame (declaredLen recv.all)
  · have hmin := hok.1
    rw [if_neg (not_not.2 hok)] at hdecode hread hheader
    by_cases hcut : recv.all.length < 4 + declaredLen recv.all
    · rw [if_pos hcut] at hdecode hread
      refine ⟨fun _ => ?_, fun _ => ?_, fun msgType payload => ?_, fun frame total h => ?_⟩
      · rw [hheader, hdecode]
        exact ⟨nofun, nofun⟩
      · rw [hread, hdecode]
        exact ⟨nofun, nofun⟩
      · rw [hread, hdecode]
        exact ⟨nofun, nofun⟩
      · cases hdecode.symm.trans h
    · rw [if_neg hcut] at hdecode hread
      refine ⟨fun _ => ?_, fun _ => ?_, fun msgType payload => ?_, fun frame total h => ?_⟩
      · rw [hheader, hdecode]
        exact ⟨nofun, nofun⟩
      · rw [hread, hdecode]
        exact ⟨nofun, nofun⟩
      · rw [hread, hdecode]
        refine ⟨?_, ?_⟩
        · rintro ⟨⟩
          exact ⟨_, _, rfl⟩
        · rintro ⟨flags, total, ⟨⟩⟩
          rfl
      · rw [hdecode] at h
        cases h
        have hpayload : ((recv.all.drop 8).take (declaredLen recv.all - 4)).length =
            declaredLen recv.all - 4 := by
          rw [List.length_take, List.length_drop]
          omega
        rw [hheader]
        dsimp only
        rw [hpayload]
        exact ⟨rfl, by omega⟩
  · rw [if_pos hok] at hdecode hread hheader
    refine ⟨fun _ => ?_, fun _ => ?_, fun msgType payload => ?_, fun frame total h => ?_⟩
    · rw [hheader, hdecode]
      exact ⟨fun _ => rfl, fun _ => rfl⟩
    · rw [hread, hdecode]
      exact ⟨fun _ => rfl, fun _ => rfl⟩
    · rw [hread, hdecode]
      exact ⟨nofun, nofun⟩
    · cases hdecode.symm.trans h

/-! ## The receive buffer -/

namespace RecvState

/-- All the bytes that the receiver has yet to consume. -/
def ahead (state : RecvState) : List UInt8 := state.buf ++ state.stream.all

/-- **What `fillTo` does**: it loses no byte, and it gets as many as are wanted, or the stream
ends before. -/
theorem fillTo_cases (state : RecvState) (needed : ℕ) :
    (state.fillTo needed).1.ahead = state.ahead ∧
      (((state.fillTo needed).2 = .ok () ∧ needed ≤ (state.fillTo needed).1.buf.length) ∨
        (state.fillTo needed).2 = .error .closed ∧ state.ahead.length < needed) := by
  induction state using fillTo.induct with
  | needed => exact needed
  | case1 state hshort hread =>
    rcases state.stream.read_cases (show 0 < 4096 by decide) with ⟨-, hall⟩ | ⟨bs, r, hsome, -⟩
    · have hfill : state.fillTo needed = (state, .error .closed) := by
        rw [fillTo, if_pos hshort]
        split
        · rfl
        · next h => cases hread.symm.trans h
      rw [hfill]
      refine ⟨rfl, .inr ⟨rfl, ?_⟩⟩
      rw [ahead, hall, List.append_nil]
      exact hshort
    · cases hread.symm.trans hsome
  | case2 state hshort read stream hread hlt hempty =>
    rcases state.stream.read_cases (show 0 < 4096 by decide) with
      ⟨hnone, -⟩ | ⟨bs, r, hsome, hne, -⟩
    · cases hread.symm.trans hnone
    · cases hread.symm.trans hsome
      exact absurd (List.isEmpty_iff.1 hempty) hne
  | case3 state hshort read stream hread hlt hmore ih =>
    rcases state.stream.read_cases (show 0 < 4096 by decide) with
      ⟨hnone, -⟩ | ⟨bs, r, hsome, -, -, hall⟩
    · cases hread.symm.trans hnone
    cases hread.symm.trans hsome
    have hfill : state.fillTo needed = fillTo { stream, buf := state.buf ++ read } needed := by
      rw [fillTo, if_pos hshort]
      split
      · next h => cases hread.symm.trans h
      · next h =>
        cases hread.symm.trans h
        exact if_neg hmore
    have hahead : ahead { stream, buf := state.buf ++ read } = state.ahead := by
      rw [ahead, ahead, hall, List.append_assoc]
    rw [hfill]
    rw [hahead] at ih
    exact ih
  | case4 state henough =>
    have hfill : state.fillTo needed = (state, .ok ()) := by rw [fillTo, if_neg henough]
    rw [hfill]
    exact ⟨rfl, .inl ⟨rfl, Nat.le_of_not_lt henough⟩⟩

/-- What is buffered is ahead. -/
theorem fillTo_append {state : RecvState} {bs rest : List UInt8} (needed : ℕ)
    (h : state.ahead = bs ++ rest) (hneeded : needed ≤ bs.length) :
    ∃ s, state.fillTo needed = (s, .ok ()) ∧ s.ahead = bs ++ rest ∧
      s.buf.take needed = bs.take needed ∧ needed ≤ s.buf.length := by
  obtain ⟨hahead, ⟨hok, hbuf⟩ | ⟨-, hshort⟩⟩ := state.fillTo_cases needed
  · refine ⟨(state.fillTo needed).1, Prod.ext rfl hok, hahead.trans h, ?_, hbuf⟩
    have htake := congrArg (List.take needed) (hahead.trans h)
    rw [ahead, List.take_append_of_le_length hbuf, List.take_append_of_le_length hneeded] at htake
    exact htake
  · rw [h, List.length_append] at hshort
    omega

/-- **The step.** The next frame is received, and the rest of the stream is ahead. -/
theorem recvFrame_frame {state : RecvState} {f : Frame} {frame rest : List UInt8}
    (hframe : encodeFrame f.msgType f.flags f.payload = .ok frame)
    (h : state.ahead = frame ++ rest) :
    ∃ s, state.recvFrame = (s, .ok (f.msgType, f.payload)) ∧ s.ahead = rest := by
  obtain ⟨hok, hlen, htype, hlength, hdrop⟩ := declared_of_encode (by decide) hframe []
  rw [List.append_nil] at hok hlen htype
  obtain ⟨s, hfill, hs, htake, hbuf⟩ := fillTo_append 8 h (by omega)
  obtain ⟨s', hfill', hs', htake', hbuf'⟩ :=
    fillTo_append (8 + f.payload.length) hs (by omega)
  have hheader : slice s.buf 0 8 = some (frame.take 8) := by
    refine slice_eq_some.2 ⟨by omega, hbuf, ?_⟩
    rw [List.drop_zero, Nat.sub_zero, htake]
  have hparse : parseFrameHeader (frame.take 8) = .ok (f.msgType, f.payload.length) := by
    rw [parseFrameHeader_eq (by rw [List.length_take]; omega), (declared_take _).1,
      (declared_take _).2, if_neg (not_not.2 hok), htype, hlen, Nat.add_sub_cancel_left]
  have hwhole : frame.take (8 + f.payload.length) = frame := List.take_of_length_le hlength.le
  rw [hwhole] at htake'
  have hpayload : slice s'.buf 8 (8 + f.payload.length) = some f.payload := by
    refine slice_eq_some.2 ⟨by omega, hbuf', ?_⟩
    rw [← List.drop_take, htake', hdrop]
  refine ⟨{ s' with buf := s'.buf.drop (8 + f.payload.length) }, ?_, ?_⟩
  · unfold recvFrame
    rw [hfill]
    dsimp only
    rw [hheader]
    dsimp only
    rw [hparse]
    dsimp only
    rw [hfill']
    dsimp only
    rw [hpayload]
  · rw [ahead, ← List.take_append_drop (8 + f.payload.length) s'.buf, htake',
      List.append_assoc] at hs'
    exact List.append_cancel_left hs'

/-- At the end of the stream there is nothing to receive. -/
theorem recvFrame_end {state : RecvState} (h : state.ahead = []) :
    state.recvFrame.2 = .error .closed ∧ state.recvFrame.1.ahead = [] := by
  obtain ⟨hahead, ⟨hok, hbuf⟩ | ⟨hclosed, -⟩⟩ := state.fillTo_cases 8
  · have hlength := congrArg List.length (hahead.trans h)
    rw [ahead, List.length_append, List.length_nil] at hlength
    omega
  · have hrecv : state.recvFrame = ((state.fillTo 8).1, .error .closed) := by
      have hfill : state.fillTo 8 = ((state.fillTo 8).1, .error .closed) := Prod.ext rfl hclosed
      rw [recvFrame, hfill]
    rw [hrecv]
    exact ⟨rfl, hahead.trans h⟩

/-- **The run.** However often the receiver receives, it gets the frames in order, and after the
last one nothing. -/
theorem recvMany_writeAll {state : RecvState} {frames : List Frame} {bytes : List UInt8}
    (hwritten : writeAll frames = .ok bytes) (h : state.ahead = bytes) (k : ℕ) :
    (state.recvMany k).filterMap Except.toOption =
      (frames.map fun f => (f.msgType, f.payload)).take k := by
  induction k generalizing state frames bytes with
  | zero => rfl
  | succ k ih =>
    rw [recvMany]
    cases frames with
    | nil =>
      cases hwritten
      obtain ⟨hclosed, hend⟩ := recvFrame_end h
      rw [hclosed, List.filterMap_cons_none rfl]
      exact (@ih _ [] _ rfl hend).trans (by simp)
    | cons f fs =>
      obtain ⟨frame, rest, hframe, hrest, rfl⟩ := writeAll_cons hwritten
      obtain ⟨s, hrecv, hs⟩ := recvFrame_frame hframe h
      rw [hrecv]
      exact congrArg ((f.msgType, f.payload) :: ·) (ih hrest hs)

end RecvState

/-! ## The prime frame -/

/-- **The first frame.** A prime frame is swallowed, any other is handed back. -/
theorem consumePrime_frame {recv : Reads UInt8} {f : Frame} {frame rest : List UInt8}
    (hframe : encodeFrame f.msgType f.flags f.payload = .ok frame) (h : recv.all = frame ++ rest) :
    ∃ recv', consumePrime recv =
        .ok (if f.msgType = typeStreamPrime then [] else frame, recv') ∧ recv'.all = rest := by
  obtain ⟨hok, hlen, htype, hlength, hdrop⟩ := declared_of_encode (by decide) hframe []
  rw [List.append_nil] at hok hlen htype
  have hsplit : frame.take 8 ++ f.payload = frame := by
    rw [← hdrop, List.take_append_drop]
  have htake : (frame.take 8).length = 8 := by
    rw [List.length_take]
    omega
  have hparse : parseFrameHeader (frame.take 8) = .ok (f.msgType, f.payload.length) := by
    rw [parseFrameHeader_eq htake.ge, (declared_take _).1, (declared_take _).2,
      if_neg (not_not.2 hok), htype, hlen, Nat.add_sub_cancel_left]
  rw [← hsplit, List.append_assoc] at h
  obtain ⟨body, hheader, hbody⟩ := Reads.readExact_append h
  obtain ⟨recv', hpayload, hrest⟩ := Reads.readExact_append hbody
  have hread : (if f.payload.length > 0 then body.readExact f.payload.length else some ([], body)) =
      some (f.payload, recv') := by
    rw [← hpayload]
    split
    · rfl
    · next hempty =>
      rw [Nat.eq_zero_of_not_pos hempty, Reads.readExact, dif_pos rfl]
  rw [htake] at hheader
  refine ⟨recv', ?_, hrest⟩
  rw [consumePrime, hheader]
  dsimp only
  rw [hparse]
  dsimp only
  rw [hread]
  dsimp only
  rw [hsplit]
  split <;> rfl

/-- **Control-stream framing.** Behind a prime frame, or without one and with a first frame of
another type, the frames are received as they were written, whatever pieces the stream arrives in;
and the readers of a frame agree on every stream. -/
theorem control_stream_framing (prime : Option Frame) (frames : List Frame) (recv : Reads UInt8)
    (hprime : ∀ p ∈ prime, p.msgType = typeStreamPrime)
    (hfirst : prime = none → ∀ f ∈ frames.head?, f.msgType ≠ typeStreamPrime)
    (hwritten : writeAll (prime.toList ++ frames) = .ok recv.all) :
    (∀ k, (received recv k).filterMap Except.toOption =
        (frames.map fun f => (f.msgType, f.payload)).take k) ∧
      ∀ recv, HeadersAgree recv := by
  refine ⟨?_, headersAgree⟩
  intro k
  cases prime with
  | some p =>
    obtain ⟨frame, rest, hframe, hrest, hall⟩ := writeAll_cons hwritten
    obtain ⟨recv', hconsume, hrecv⟩ := consumePrime_frame hframe hall
    rw [if_pos (hprime p rfl)] at hconsume
    rw [received, hconsume]
    exact @RecvState.recvMany_writeAll { stream := recv', buf := [] } _ _ hrest hrecv k
  | none =>
    cases frames with
    | nil =>
      have hall : recv.all = [] := (Except.ok.inj hwritten).symm
      have hnone : recv.readExact 8 = none := by
        rcases recv.readExact_cases 8 with ⟨hnone, -⟩ | ⟨bs, r, -, hlength, hbs⟩
        · exact hnone
        · have hzero := congrArg List.length (hall.symm.trans hbs)
          rw [List.length_append, List.length_nil] at hzero
          omega
      rw [received, consumePrime, hnone]
      exact (List.take_nil).symm
    | cons f fs =>
      obtain ⟨frame, rest, hframe, hrest, hall⟩ := writeAll_cons hwritten
      obtain ⟨recv', hconsume, hrecv⟩ := consumePrime_frame hframe hall
      rw [if_neg (hfirst rfl f rfl)] at hconsume
      rw [received, hconsume]
      refine @RecvState.recvMany_writeAll _ _ recv.all hwritten ?_ k
      rw [RecvState.ahead, hrecv, hall]

/-- A prime frame, a message and a message of the prime frame's type, in four pieces. -/
def cutStream : Reads UInt8 where
  pieces := [[4, 0, 0], [0, 0xFF, 0xFF, 0, 0, 6, 0], [0, 0, 0x11],
    [0, 0, 0, 1, 2, 4, 0, 0, 0, 0xFF, 0xFF, 0, 0]]
  nonempty := by decide

theorem control_stream_framing_cut :
    (∀ k, (received cutStream k).filterMap Except.toOption =
        ([⟨0x11, 0, [1, 2]⟩, ⟨typeStreamPrime, 0, []⟩].map fun f : Frame =>
          (f.msgType, f.payload)).take k) ∧
      ∀ recv, HeadersAgree recv :=
  control_stream_framing (some ⟨typeStreamPrime, 0, []⟩) _ cutStream (by decide) (by decide)
    (by decide)

end Mouser
