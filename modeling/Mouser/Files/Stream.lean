import Mouser.Files.Prepare
import Mouser.Files.Transfer
import Mouser.Net.TransferStream

/-!
# The two ends of a transfer stream

`run_sender_stream` and `run_receiver_stream` drive a sender and a receiver over a bulk stream, each
in a loop of its own. `SenderStream` and `ReceiverStream` are where the two stand between the
messages, as they are on the wire, and `act` is what an end does next.
-/

namespace Mouser

open Cbor

/-! ## Messages -/

def FileError.display : FileError → String
  | .unknownTransfer id => s!"unknown transfer_id {id}"
  | .unknownFileIndex i => s!"unknown file_index {i}"
  | .chunkTooLarge n => s!"chunk {n} bytes exceeds 1 MiB cap"
  | .offsetOutOfRange fileIndex offset => s!"offset {offset} out of range for file {fileIndex}"
  | .protocol m => "file protocol: " ++ m
  | .path e => "path: " ++ e.display
  | .sink e => "sink: " ++ e.message

/-- One message of `send_outbound_batch`. -/
def Outbound.message : Outbound → Except String StreamMessage
  | .accept m => bulkMessage .fileAccept m
  | .reject m => bulkMessage .fileReject m
  | .ack m => bulkMessage .fileAck m
  | .done m => bulkMessage .fileDone m

/-! ## The sender -/

/-- Where `run_sender_stream` stands. -/
inductive SenderStream (Src : Type) where
  | sendingOffer (s : Sender Src) (m : StreamMessage)
  | awaitingAccept (s : Sender Src)
  | sendingChunk (s : Sender Src) (m : StreamMessage)
  | awaitingAnswer (s : Sender Src)
  /-- All is acked or aborted, and the last word is to come. -/
  | awaitingDone (s : Sender Src)
  | returned (s : Sender Src) (result : Except String Unit)

namespace SenderStream

variable {Src : Type} [FileSource Src]

/-- The top of the loop. -/
def loop (s : Sender Src) : SenderStream Src :=
  match s.pollChunk with
  | (s, .error e) => .returned s (.error e.display)
  | (s, .ok (some chunk)) =>
    match bulkMessage .fileChunk chunk with
    | .error e => .returned s (.error e)
    | .ok m => .sendingChunk s m
  | (s, .ok none) => if s.isComplete || s.aborted then .awaitingDone s else .awaitingAnswer s

def start (s : Sender Src) : SenderStream Src :=
  match bulkMessage .fileOffer s.offer with
  | .error e => .returned s (.error e)
  | .ok m => .sendingOffer s m

def onResponse (s : Sender Src) (m : StreamMessage) : SenderStream Src :=
  if m.msgType = MessageType.fileAccept.number then
    match readAs .fileAccept m.payload with
    | .error e => .returned s (.error e)
    | .ok accept =>
      match s.onAccept accept with
      | (s, .error e) => .returned s (.error e.display)
      | (s, .ok ()) => loop s
  else if m.msgType = MessageType.fileReject.number then
    match readAs .fileReject m.payload with
    | .error e => .returned s (.error e)
    | .ok reject => .returned s (.error ("receiver rejected transfer: " ++ reject.reason))
  else .returned s (.error ("expected FileAccept, got " ++ hexOfType m.msgType))

omit [FileSource Src] in
/-- The last word is there. -/
def onDone (s : Sender Src) (payload : List UInt8) : SenderStream Src :=
  match readAs .fileDone payload with
  | .error e => .returned s (.error e)
  | .ok done =>
    match s.onDone done with
    | (s, .error e) => .returned s (.error e.display)
    | (s, .ok ()) =>
      if s.aborted || !done.ok then
        .returned s (.error "receiver reported file transfer failure")
      else .returned s (.ok ())

def onAnswer (s : Sender Src) (m : StreamMessage) : SenderStream Src :=
  if m.msgType = MessageType.fileAck.number then
    match readAs .fileAck m.payload with
    | .error e => .returned s (.error e)
    | .ok ack =>
      match s.onAck ack with
      | (s, .error e) => .returned s (.error e.display)
      | (s, .ok ()) => loop s
  else if m.msgType = MessageType.fileDone.number then onDone s m.payload
  else .returned s (.error ("sender got unexpected type " ++ hexOfType m.msgType))

def act : SenderStream Src → Act (SenderStream Src) StreamMessage StreamMessage String
  | .sendingOffer s m => .send m fun
    | .error e => .returned s (.error e)
    | .ok () => .awaitingAccept s
  | .awaitingAccept s => .recv fun
    | .error e => .returned s (.error e)
    | .ok m => onResponse s m
  | .sendingChunk s m => .send m fun
    | .error e => .returned s (.error e)
    | .ok () => loop s
  | .awaitingAnswer s => .recv fun
    | .error e => .returned s (.error e)
    | .ok m => onAnswer s m
  | .awaitingDone s => .recv fun
    | .error e => .returned s (.error e)
    | .ok m =>
      if m.msgType ≠ MessageType.fileDone.number then
        .returned s (.error ("expected FileDone, got " ++ hexOfType m.msgType))
      else onDone s m.payload
  | .returned _ _ => .done

end SenderStream

/-! ## The receiver -/

/-- Where a stream that is served stands. -/
inductive ReceiverStream (S W : Type) where
  /-- The first message tells what the stream is for. -/
  | awaitingFirst (w : W)
  | sending (r : Receiver S) (w : W) (m : StreamMessage) (rest : List Outbound)
  | awaitingChunk (r : Receiver S) (w : W)
  /-- The chunk is refused, and the sender is told. -/
  | refusing (r : Receiver S) (w : W) (m : StreamMessage) (e : String)
  | returned (r : Option (Receiver S)) (w : W) (result : Except String Unit)
  /-- The stream carries clipboard content. -/
  | clipboard (w : W) (payload : List UInt8)
  | panicked

namespace ReceiverStream

variable {S W : Type} [FileSink S] (makeSink : W → ℕ → OsStr → W × Except SinkError S)
  (config : ReceiverConfig)

omit [FileSink S] in
/-- `send_outbound_batch`, and then the top of the loop. -/
def sendBatch (r : Receiver S) (w : W) : List Outbound → ReceiverStream S W
  | [] => if r.isTerminal then .returned (some r) w (.ok ()) else .awaitingChunk r w
  | m :: rest =>
    match m.message with
    | .error e => .returned (some r) w (.error e)
    | .ok x => .sending r w x rest

/-- `run_receiver_stream`, with the offer that has come first. -/
def onOffer (w : W) (payload : List UInt8) : ReceiverStream S W :=
  match readAs .fileOffer payload with
  | .error e => .returned none w (.error e)
  | .ok offer =>
    match acceptOffer makeSink offer config w with
    | .error _ => .panicked
    | .ok (w, .error e) => .returned none w (.error e.display)
    | .ok (w, .ok (r, out)) => sendBatch r w out

/-- The first message of a stream that `serve_bulk_connection` serves. -/
def onFirst (w : W) (m : StreamMessage) : ReceiverStream S W :=
  if m.msgType = MessageType.fileOffer.number then onOffer makeSink config w m.payload
  else if m.msgType = MessageType.clipboardData.number then .clipboard w m.payload
  else .returned none w (.error ("unknown bulk stream type " ++ hexOfType m.msgType))

def onChunk (r : Receiver S) (w : W) (m : StreamMessage) : ReceiverStream S W :=
  if m.msgType ≠ MessageType.fileChunk.number then
    .returned (some r) w (.error ("expected FileChunk, got " ++ hexOfType m.msgType))
  else
    match readAs .fileChunk m.payload with
    | .error e => .returned (some r) w (.error e)
    | .ok chunk =>
      match r.onChunk chunk with
      | (r, .ok out) => sendBatch r w out
      | (r, .error e) =>
        match bulkMessage .fileDone ⟨r.transferId, false⟩ with
        | .error e => .returned (some r) w (.error e)
        | .ok m => .refusing r w m e.display

def act : ReceiverStream S W → Act (ReceiverStream S W) StreamMessage StreamMessage String
  | .awaitingFirst w => .recv fun
    | .error e => .returned none w (.error e)
    | .ok m => onFirst makeSink config w m
  | .sending r w m rest => .send m fun
    | .error e => .returned (some r) w (.error e)
    | .ok () => sendBatch r w rest
  | .awaitingChunk r w => .recv fun
    | .error e => .returned (some r) w (.error e)
    | .ok m => onChunk r w m
  | .refusing r w m e => .send m fun
    | .error e' => .returned (some r) w (.error e')
    | .ok () => .returned (some r) w (.error e)
  | .returned _ _ _ => .done
  | .clipboard _ _ => .done
  | .panicked => .done

end ReceiverStream

end Mouser
