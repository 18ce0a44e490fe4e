import Mouser.Engine.Effect
import Mouser.Engine.Announce
import Mouser.Engine.AntiReplay
import Mouser.Engine.Authorization
import Mouser.Engine.Capture
import Mouser.Engine.HeldInput
import Mouser.Engine.Motions
import Mouser.Engine.Link
import Mouser.Engine.Pair
import Mouser.Engine.Agreement
import Mouser.Engine.Runtime
import Mouser.Daemon.Store
import Mouser.Daemon.Pairing
import Mouser.Daemon.Serve
import Mouser.Daemon.Trust
import Mouser.Daemon.Bulk
import Mouser.Daemon.Requests
import Mouser.Daemon.Snapshots
import Mouser.Ipc.Codec
import Mouser.Ipc.Server
import Mouser.Net.Control
import Mouser.Files.Path
import Mouser.Files.Hostile
import Mouser.Files.Reject
import Mouser.Files.Transfer
import Mouser.Files.SideBySide
import Mouser.Files.Existing
import Mouser.Files.Confine
import Mouser.Files.Gap
import Mouser.Mobile.Client
import Mouser.Mobile.Session
import Mouser.Engine.Order
import Mouser.Engine.Presses
import Mouser.Core.Cluster
import Mouser.Core.Election
import Mouser.Clipboard.Echo
import Mouser.Clipboard.RoundTrip
import Mouser.Clipboard.Repeat
import Mouser.Clipboard.Latest
import Mouser.State.Convergence
import Mouser.State.Poison
import Mouser.Engine.FourEdges
import Mouser.Engine.Screen
import Mouser.Engine.Overflow
import Mouser.Engine.Escape
import Mouser.Engine.Hysteresis
import Mouser.Engine.Silence
import Mouser.Engine.Decision
import Mouser.Engine.Rate
import Mouser.Core.Terms
import Mouser.Core.Renewal
import Mouser.Clipboard.Stall
import Mouser.Clipboard.Routing
import Mouser.Protocol.Datagram
import Mouser.State.Wire
import Mouser.State.KeyOrder
import Mouser.Windows.CfHtml
import Mouser.Windows.Hdrop
import Mouser.Windows.CaptureQueue
import Mouser.Net.Motion
import Mouser.Linux.Capture
import Mouser.Mac.Capture
import Mouser.Capture.Injection
import Mouser.Mobile.Drags
import Mouser.Capture.Once
import Mouser.Clipboard.Bounds
import Mouser.Engine.Fraction
import Mouser.Ipc.Stream
import Mouser.Files.Handle
import Mouser.Engine.Discovery
import Mouser.Capture.Wheel
import Mouser.Net.Identity
import Mouser.Net.Authentication
import Mouser.Net.BulkBinding
import Mouser.Net.Sas
import Mouser.Net.Handshake
import Mouser.Protocol.Session
import Mouser.Protocol.Wire
import Mouser.Net.TransferStream
import Mouser.Files.Prepare
import Mouser.Files.Stream
import Mouser.Files.Delivery
import Mouser.Daemon.IdentityFile
import Mouser.Clipboard.BulkStream
import Mouser.Daemon.Reconnect
import Mouser.Daemon.Entitled
import Mouser.Windows.ClipboardText
