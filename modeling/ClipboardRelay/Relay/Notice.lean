import ClipboardRelay.ContentType
import ClipboardRelay.Screen
import ClipboardRelay.Selection
import ClipboardRelay.Display.Resource
/-!
What the relay has to say to whoever watches it. A notice keeps its facts as data, and becomes text
only when the names of the atoms are known.
-/

namespace ClipboardRelay

inductive Level where
  | warn
  | debug
  | trace
  deriving DecidableEq, Repr

namespace Level

def label : Level → String
  | warn => "WARN"
  | debug => "DEBUG"
  | trace => "TRACE"

def rank : Level → Nat
  | warn => 0
  | debug => 1
  | trace => 2

def within (level most : Level) : Bool :=
  level.rank ≤ most.rank

end Level

inductive Remark where
  | grabUnsupported
  | grabEmpty
  | releaseUnsupported
  | releaseNotOwned
  | releaseUnseen
  | newOwner (owner : Window)
  | targetsUnexpected
  | targetsStale
  | targetsWhileOwned
  | targetsReceived (count : Nat)
  | targetsUnsupported
  | targetsRefused
  | targetsMismatch
  | targetsWithoutProperty
  | targetsOfWrongType (type : Atom)
  | targetsEmpty
  | targetsSent (count : Nat)
  | listed (target : Atom)
  | wrongFormat (expected : Nat) (format : UInt8)
  | wrongType (expected type : Atom)
  | askUnsupported
  | askNotOwned
  | askUnavailable (type : ContentType)
  | converting (target : Atom)
  | fetchesDropped (count : Nat)
  | lateReply
  | replyForOther (selection : Atom)
  | replyForTarget (expected target : Atom)
  | conversionRefused
  | replyMismatch
  | replyWithoutProperty
  | readingAlready
  | readingStarted (hint : UInt32)
  | chunkWithoutProperty
  | chunkRead (length total : Nat)
  | readingDone (length : Nat)
  | noData
  | unknownTarget (target : Atom)
  | requestNotOwned (target : Atom)
  | multipleUnsupported
  | requestsDropped (count : Nat)
  | dataWhileSending
  | dataUnasked
  | dataForOther (expected : Selection)
  | dataOfOtherType (expected type : ContentType)
  | sendingStarted (length : Nat)
  | unknownType (value : UInt32)
  deriving DecidableEq, Repr

namespace Remark

def level : Remark → Level
  | releaseUnseen | newOwner _ | targetsStale | targetsWhileOwned | targetsReceived _
  | targetsUnsupported | targetsRefused | targetsSent _ | listed _ | fetchesDropped _ | lateReply
  | conversionRefused | readingStarted _ | readingDone _ | requestsDropped _
  | sendingStarted _ => .debug
  | converting _ | chunkRead .. => .trace
  | _ => .warn

def text (nameOf : Atom → String) : Remark → String
  | grabUnsupported => "grab of an unsupported selection, ignoring"
  | grabEmpty => "grab without any content types, ignoring"
  | releaseUnsupported => "release of an unsupported selection, ignoring"
  | releaseNotOwned => "release while not owning the selection"
  | releaseUnseen => "no owner change seen after release"
  | newOwner owner => s!"new selection owner {owner.number}"
  | targetsUnexpected => "unexpected TARGETS reply"
  | targetsStale => "discarding TARGETS reply of a previous owner"
  | targetsWhileOwned => "discarding TARGETS reply, the agent owns the selection"
  | targetsReceived count => s!"received {count} targets"
  | targetsUnsupported => "no supported targets"
  | targetsRefused => "TARGETS request refused by the owner"
  | targetsMismatch => "TARGETS reply parameters mismatch"
  | targetsWithoutProperty => "TARGETS reply without a property"
  | targetsOfWrongType type => s!"expected property type ATOM, got {nameOf type}"
  | targetsEmpty => "TARGETS property contains no data"
  | targetsSent count => s!"sent {count} targets"
  | listed target => s!"    {nameOf target}"
  | wrongFormat expected format => s!"expected {expected} bit format, got {format} bits"
  | wrongType expected type => s!"expected property type {nameOf expected}, got {nameOf type}"
  | askUnsupported => "data request for an unsupported selection"
  | askNotOwned => "data request while the selection is not owned by the desktop"
  | askUnavailable type => s!"data request for unavailable type {type.label}"
  | converting target => s!"converting to {nameOf target}"
  | fetchesDropped count => s!"ownership changed with {count} data requests pending, clearing"
  | lateReply => "discarding the reply to a dropped data request"
  | replyForOther selection => s!"requested data for this selection, got {nameOf selection}"
  | replyForTarget expected target =>
    s!"requested target {nameOf expected}, got {nameOf target}"
  | conversionRefused => "conversion refused by the owner"
  | replyMismatch => "selection notify parameters mismatch"
  | replyWithoutProperty => "selection notify without a property"
  | readingAlready => "incremental transfer started while still reading another one"
  | readingStarted hint => s!"starting incremental transfer, at least {hint} bytes"
  | chunkWithoutProperty => "incremental chunk without a property"
  | chunkRead length total => s!"appended {length} bytes, {total} total"
  | readingDone length => s!"incremental transfer of {length} bytes done"
  | noData => "property contains no data (zero length)"
  | unknownTarget target => s!"unexpected selection type {nameOf target}"
  | requestNotOwned target =>
    s!"selection request for target {nameOf target} while not owning the selection"
  | multipleUnsupported => "MULTIPLE target not supported"
  | requestsDropped count =>
    s!"ownership changed with {count} selection requests pending, clearing"
  | dataWhileSending => "data received while still sending data of a previous request, ignoring"
  | dataUnasked => "data received without an outstanding selection request, ignoring"
  | dataForOther expected => s!"expected data for selection {expected.name}"
  | dataOfOtherType expected type => s!"expected {expected.label} data, got {type.label}"
  | sendingStarted length => s!"starting incremental send of {length} bytes"
  | unknownType value => s!"dropping unknown content type {value} from grab"

end Remark

inductive Notice where
  | about (selection : Selection) (remark : Remark)
  | opened (propertyLimit : Nat) (size : ScreenSize)
  | noRandr
  | noMonitors
  | extraMonitors
  | noScreenSizes
  | noFit (width height : UInt32)
  | targetsOfUnknownSelection
  | notifyUnasked
  | requestForUnknownSelection (selection : Atom)
  | chunkSent (start length total : Nat)
  | sendingDone (total : Nat)
  | protocolError (text : String)
  | unhandledEvent (kind : UInt8)
  deriving DecidableEq, Repr

namespace Notice

def level : Notice → Level
  | about _ remark => remark.level
  | opened .. | noRandr | sendingDone _ => .debug
  | chunkSent .. | unhandledEvent _ => .trace
  | _ => .warn

def text (nameOf : Atom → String) : Notice → String
  | about selection remark => s!"{selection.name}: {remark.text nameOf}"
  | opened propertyLimit size =>
    s!"Max property size: {propertyLimit}, screen size: {size.width}x{size.height}"
  | noRandr => "No RandR, ignoring monitor configuration"
  | noMonitors => "Monitor configuration without monitors, ignoring"
  | extraMonitors => "Only 1 monitor supported, ignoring additional monitors"
  | noScreenSizes => "RandR offers no screen sizes"
  | noFit width height => s!"No suitable resolution found for a {width}x{height} monitor"
  | targetsOfUnknownSelection => "TARGETS reply for an unknown selection"
  | notifyUnasked => "Selection notify received without a pending data request"
  | requestForUnknownSelection selection =>
    s!"Selection request for unknown selection {nameOf selection}"
  | chunkSent start length total => s!"Sending {start}-{start + length - 1}/{total} bytes"
  | sendingDone total => s!"Ending incremental send of {total} bytes"
  | protocolError text => s!"X11 error: {text}"
  | unhandledEvent kind => s!"Unhandled event, type {kind}"

def line (nameOf : Atom → String) (notice : Notice) : String :=
  s!"{notice.level.label} {notice.text nameOf}"

end Notice

end ClipboardRelay
