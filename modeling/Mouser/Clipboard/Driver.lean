import Mouser.Clipboard.Pulls
import Mouser.Core.Platform

/-!
# The clipboard driver

`ClipboardDriver.machine` is the loop that the daemon runs for one peer: it polls the local
clipboard, and hands the messages of the control stream and of the bulk plane to the engine. It
applies the current settings before each. What can only go over the bulk plane is neither offered
nor pulled when there is none.
-/

namespace Mouser

/-- What the platform's clipboard returns at some point; `none` is a failure, or no content. -/
structure Clipboard where
  changeToken : Option UInt64
  read : CoreClipFormat → Option (List UInt8)

def formats : List (ClipFormat × CoreClipFormat) :=
  [(.utf8Text, .utf8Text), (.html, .html), (.rtf, .rtf), (.uriList, .uriList), (.png, .png)]

def toPlatform (format : ClipFormat) : Option CoreClipFormat := formats.lookup format

/-! ## What a peer without a bulk plane can transfer -/

def controlEntry (entry : ClipboardEntry) : Bool :=
  transportFor entry.format entry.size.toNat = .control

def supportedEntry (entry : ClipboardEntry) (bulkEnabled : Bool) : Bool :=
  bulkEnabled || controlEntry entry

def supportedOffer (offer : ClipboardOffer) (bulkEnabled : Bool) : Option ClipboardOffer :=
  let entries := offer.entries.filter (supportedEntry · bulkEnabled)
  if entries = [] then none else some { entries, origin := offer.origin }

def isControlData (data : ClipboardData) : Bool :=
  data.offset = 0 && data.last && data.data.length ≤ controlTextCap &&
    transportFor data.format data.data.length = .control

/-! ## The session -/

/-- What the session sends to the peer, and writes to the clipboard. -/
inductive SessionOutput where
  | offer (offer : ClipboardOffer)
  | pull (pull : ClipboardPull)
  | data (data : ClipboardData)
  | bulk (chunks : List ClipboardData)
  /-- The clip is written under the format, if the platform has one for it. -/
  | applied (clip : AppliedClip) (format : Option CoreClipFormat)
deriving DecidableEq

/-- A message of the control stream; `none` is a payload that cannot be decoded. -/
inductive ControlMessage where
  | offer (payload : Option ClipboardOffer)
  | pull (payload : Option ClipboardPull)
  | data (payload : Option ClipboardData)
  | other
deriving DecidableEq

structure ClipboardSession where
  engine : ClipboardEngine
  source : MemContentSource
  peerId : DeviceId
  peerOs : Os
  bulkEnabled : Bool

def routeClipboardData (data : List ClipboardData) (bulkEnabled : Bool) : List SessionOutput :=
  let bulk := if bulkEnabled then data.filter (!isControlData ·) else []
  (data.filter isControlData).map .data ++ if bulk = [] then [] else [.bulk bulk]

namespace ClipboardSession

def new (myId peerId : DeviceId) (localOs peerOs : Os) (bulkEnabled : Bool) : ClipboardSession where
  engine := .new myId localOs .initial
  source := .new
  peerId := peerId
  peerOs := peerOs
  bulkEnabled := bulkEnabled

def setSettings (s : ClipboardSession) (settings : ClipboardSettings) : ClipboardSession :=
  { s with engine := s.engine.setSettings settings }

def onPull (s : ClipboardSession) (pull : ClipboardPull) : List SessionOutput :=
  match s.engine.onPull pull s.source with
  | .ok data => routeClipboardData data s.bulkEnabled
  | .error _ => []

def onOffer (s : ClipboardSession) (offer : ClipboardOffer) :
    ClipboardSession × List SessionOutput :=
  match supportedOffer offer s.bulkEnabled with
  | none => (s, [])
  | some offer =>
    ({ s with engine := (s.engine.onOffer offer s.peerOs).1 },
      match (s.engine.onOffer offer s.peerOs).2 with
      | .ok (some pull) => [.pull pull]
      | .ok none | .error _ => [])

variable [Sha256]

/-- What the clipboard holds that can be offered, and the source that answers for it. -/
def snapshotLocal (clipboard : Clipboard) (settings : ClipboardSettings) :
    List LocalRepr × MemContentSource :=
  if !settings.canOffer then ([], .new)
  else
    formats.foldl (fun (reps, source) (wire, platform) =>
      if !settings.formatEnabled wire then (reps, source)
      else
        match clipboard.read platform with
        | none => (reps, source)
        | some bytes =>
          (reps ++ [⟨wire, bytes⟩],
            source.insert wire (contentHash wire bytes) (canonical wire bytes))) ([], .new)

def localOffer (s : ClipboardSession) (clipboard : Clipboard) :
    ClipboardSession × Option ClipboardOffer :=
  let (reps, source) := snapshotLocal clipboard s.engine.settings
  ({ s with engine := (s.engine.onLocalChange reps).1, source },
    (s.engine.onLocalChange reps).2.bind (supportedOffer · s.bulkEnabled))

def applyData (s : ClipboardSession) (data : ClipboardData) :
    ClipboardSession × List SessionOutput :=
  ({ s with engine := (s.engine.onDataFrom s.peerId data).1 },
    match (s.engine.onDataFrom s.peerId data).2 with
    | .ok (some clip) => [.applied clip (toPlatform clip.format)]
    | .ok none | .error _ => [])

def onControl (s : ClipboardSession) : ControlMessage → ClipboardSession × List SessionOutput
  | .offer (some offer) => s.onOffer offer
  | .pull (some pull) => (s, s.onPull pull)
  | .data (some data) => if !isControlData data then (s, []) else s.applyData data
  | .offer none | .pull none | .data none | .other => (s, [])

end ClipboardSession

/-! ## The loop -/

structure ClipboardDriver where
  session : ClipboardSession
  lastToken : Option UInt64
  tick : UInt64

/-- What the loop wakes up for, with the settings at that time. -/
inductive DriverEvent where
  | tick (settings : ClipboardSettings) (clipboard : Clipboard)
  | control (settings : ClipboardSettings) (msg : ControlMessage)
  | bulk (settings : ClipboardSettings) (peerId : DeviceId) (data : ClipboardData)

namespace ClipboardDriver

/-- The loop as it starts. -/
def new (session : ClipboardSession) (clipboard : Clipboard) : ClipboardDriver where
  session := session
  lastToken := clipboard.changeToken
  tick := 0

section

variable [Sha256]

def onTick (d : ClipboardDriver) (settings : ClipboardSettings) (clipboard : Clipboard) :
    ClipboardDriver × List SessionOutput :=
  let tick := d.tick.saturatingAdd 1
  let s := d.session.setSettings settings
  let s := { s with engine := (s.engine.tick tick).1 }
  match clipboard.changeToken with
  | none => ({ d with session := s, tick }, [])
  | some token =>
    if d.lastToken = some token then ({ d with session := s, tick }, [])
    else
      let (s, offer) := s.localOffer clipboard
      ({ session := s, lastToken := some token, tick }, offer.toList.map .offer)

def step (d : ClipboardDriver) : DriverEvent → ClipboardDriver × List SessionOutput
  | .tick settings clipboard => d.onTick settings clipboard
  | .control settings msg =>
    let (session, outputs) := (d.session.setSettings settings).onControl msg
    ({ d with session }, outputs)
  | .bulk settings peerId data =>
    if peerId ≠ d.session.peerId then (d, [])
    else
      let (session, outputs) := (d.session.setSettings settings).applyData data
      ({ d with session }, outputs)

def machine : Machine ClipboardDriver DriverEvent (List SessionOutput) where
  step := step

end

end ClipboardDriver

end Mouser
