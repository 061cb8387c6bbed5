import ClipboardRelay.Display.Event
/-!
The events of the X protocol, and what they mean to the relay.
-/

namespace ClipboardRelay.X11

inductive Event where
  | xfixesSelection (subtype : UInt8) (window owner : Window) (selection : Atom) (time : Timestamp)
  | selectionNotify (notify : SelectionNotify)
  | selectionRequest (owner : Window) (request : SelectionRequest)
  | propertyNotify (window : Window) (atom : Atom) (time : Timestamp) (state : UInt8)
  | selectionClear (time : Timestamp) (owner : Window) (selection : Atom)
  | configureNotify (event window : Window) (size : ScreenSize)
  | mappingNotify
  | error (code : UInt8)
  | other (code : UInt8)
  deriving DecidableEq, Repr

namespace Event

def configureNotifyCode : UInt8 := 22

def selectionNotifyCode : UInt8 := 31

def replyCode : UInt8 := 1

/-- The event with a code whose other fields are all zero. The top bit of a code only says that a
client sent the event. -/
def ofCode? (code : UInt8) : Option Event :=
  if code = replyCode then none else
  match code &&& 0x7F with
  | 0 => some (.error 0)
  | 22 => some (.configureNotify Window.null Window.null { width := 0, height := 0 })
  | 28 => some (.propertyNotify Window.null Atom.null 0 0)
  | 29 => some (.selectionClear 0 Window.null Atom.null)
  | 30 => some (.selectionRequest Window.null
      { time := 0, requestor := Window.null, selection := Atom.null, target := Atom.null
        property := Atom.null })
  | 31 => some (.selectionNotify
      { time := 0, requestor := Window.null, selection := Atom.null, target := Atom.null
        property := Atom.null })
  | 34 => some .mappingNotify
  | 90 => some (.xfixesSelection 0 Window.null Window.null Atom.null 0)
  | masked => some (.other masked)

/-- What an event means to a relay that watches the root window `root`. A selection whose owner's
window or client went away has no owner. -/
def meaning (root : Window) : Event → ClipboardRelay.Event
  | xfixesSelection subtype _ owner selection _ =>
    .ownerChanged selection (if subtype = 0 then owner else Window.null)
  | selectionNotify notify => .selectionNotify notify
  | selectionRequest _ request => .selectionRequest request
  | propertyNotify window atom _ state =>
    if state = 0 then .propertyStored window atom else .propertyDeleted window atom
  | selectionClear _ _ selection => .selectionCleared selection
  | configureNotify _ window size =>
    if window = root then .rootResized size else .other configureNotifyCode
  | mappingNotify => .mappingChanged
  | error code => .protocolError s!"code {code}"
  | other code => .other code

end Event

end ClipboardRelay.X11
