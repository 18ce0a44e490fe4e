/-!
# The platform contracts the engine is driven by

The events a capture adapter reports, the decision it gets back for each, and the modes it can be
put in; and the formats that the platform's clipboard has.
-/

namespace Mouser

/-- A locally observed input event. -/
inductive LocalInputEvent where
  /-- The absolute position and the device's own relative delta. -/
  | cursorMoved (displayId : UInt32) (x y dx dy : Int32)
  | button (button : UInt8) (down : Bool)
  | key (usage : UInt16) (down : Bool) (mods : UInt16)
  | scroll (dx dy : Int32)
deriving DecidableEq

/-- What the adapter does with the event just seen. -/
inductive CaptureDecision where
  | passThrough
  | suppress
deriving DecidableEq

/-- How aggressively local input is captured. -/
inductive CaptureMode where
  | off
  | passiveEdge
  | activeForward
deriving DecidableEq

/-- The scroll units an injector understands. -/
inductive CoreScrollUnit where
  | detent120
  | logicalPixel
deriving DecidableEq

inductive CoreClipFormat where
  | utf8Text
  | html
  | png
  | uriList
  | rtf
deriving DecidableEq

end Mouser
