import Mouser.Protocol.Messages

/-!
# Clipboard settings

Every device has its own settings, and they are enforced where it offers and where it receives.
Between two Apple devices the clipboard of the platform is preferred, when the setting is on.
-/

namespace Mouser

inductive SyncDirection where
  | bidirectional
  | sendOnly
  | receiveOnly
deriving DecidableEq

def SyncDirection.allowsSend : SyncDirection → Bool
  | .bidirectional | .sendOnly => true
  | .receiveOnly => false

def SyncDirection.allowsReceive : SyncDirection → Bool
  | .bidirectional | .receiveOnly => true
  | .sendOnly => false

structure ClipboardSettings where
  /-- The master switch. -/
  sharedClipboard : Bool
  syncText : Bool
  syncImages : Bool
  syncFiles : Bool
  /-- The most bytes that are pulled without being asked for; 0 is no limit. -/
  maxAutoSyncBytes : UInt64
  preferNativeApple : Bool
  direction : SyncDirection
deriving DecidableEq

namespace ClipboardSettings

/-- `ClipboardSettings::default` -/
def initial : ClipboardSettings where
  sharedClipboard := true
  syncText := true
  syncImages := true
  syncFiles := true
  maxAutoSyncBytes := 0
  preferNativeApple := true
  direction := .bidirectional

def formatEnabled (s : ClipboardSettings) : ClipFormat → Bool
  | .utf8Text | .html | .rtf => s.syncText
  | .png => s.syncImages
  | .uriList => s.syncFiles
  | .unknown => false

def canOffer (s : ClipboardSettings) : Bool := s.sharedClipboard && s.direction.allowsSend

def canReceive (s : ClipboardSettings) : Bool := s.sharedClipboard && s.direction.allowsReceive

/-- The limit itself is allowed. -/
def withinAutoSyncLimit (s : ClipboardSettings) (size : UInt64) : Bool :=
  s.maxAutoSyncBytes = 0 || size ≤ s.maxAutoSyncBytes

end ClipboardSettings

def isApple : Os → Bool
  | .macos | .ios => true
  | .windows | .linux | .android | .unknown => false

/-- The platform carries the clipboard between this pair of devices. -/
def preferNativeSuppresses (s : ClipboardSettings) (localOs peerOs : Os) : Bool :=
  s.preferNativeApple && isApple localOs && isApple peerOs

end Mouser
