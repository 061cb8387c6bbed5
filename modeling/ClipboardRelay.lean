import ClipboardRelay.Wire.Frame
import ClipboardRelay.Wire.Message
import ClipboardRelay.Format
import ClipboardRelay.Slot
import ClipboardRelay.Incremental.Reader
import ClipboardRelay.Incremental.Writer
import ClipboardRelay.Relay.Opening
import ClipboardRelay.Relay.Intake
import ClipboardRelay.Memory.Display
import ClipboardRelay.Text.Lossy
import ClipboardRelay.X11.Setup
import ClipboardRelay.Memory.Server
import ClipboardRelay.CommandLine
import ClipboardRelay.Main
import ClipboardRelay.Proofs.Accounting
import ClipboardRelay.Proofs.View
import ClipboardRelay.Proofs.Requests
import ClipboardRelay.Proofs.Discoveries
import ClipboardRelay.Proofs.LateReplies
import ClipboardRelay.Proofs.Transfers
import ClipboardRelay.Proofs.Attribution
import ClipboardRelay.Proofs.Framing
import ClipboardRelay.Proofs.Draining
import ClipboardRelay.Proofs.Grabbing
import ClipboardRelay.Proofs.PropertyView
import ClipboardRelay.Proofs.Overlapping
import ClipboardRelay.Proofs.RoundTrip
import ClipboardRelay.Proofs.WellFormed
import ClipboardRelay.Proofs.Resuming
import ClipboardRelay.Proofs.Following
import ClipboardRelay.Proofs.Departing
import ClipboardRelay.Proofs.Delivery
import ClipboardRelay.Proofs.Naming
import ClipboardRelay.Proofs.Downloads
import ClipboardRelay.Proofs.Assembly
import ClipboardRelay.Proofs.Inquiring
import ClipboardRelay.Proofs.Remembering
import ClipboardRelay.Proofs.Isolation
import ClipboardRelay.Proofs.Releasing
import ClipboardRelay.Proofs.Advertising
import ClipboardRelay.Proofs.Questioning
import ClipboardRelay.Proofs.Telling
import ClipboardRelay.Proofs.Replying
import ClipboardRelay.Proofs.Vacating
import ClipboardRelay.Proofs.Retiring
import ClipboardRelay.Proofs.Grammar
import ClipboardRelay.Proofs.Fitting
import ClipboardRelay.Proofs.Exhausting
import ClipboardRelay.Proofs.Resizing
import ClipboardRelay.Proofs.Reusing
import ClipboardRelay.Proofs.Forgetting
