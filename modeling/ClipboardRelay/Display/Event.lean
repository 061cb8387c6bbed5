import ClipboardRelay.Screen
import ClipboardRelay.Display.Resource
/-!
What a display reports.
-/

namespace ClipboardRelay

structure SelectionRequest where
  time : Timestamp
  requestor : Window
  selection : Atom
  target : Atom
  /-- Where the reply goes. Old applications leave it out. -/
  property : Atom
  deriving DecidableEq, Repr

namespace SelectionRequest

def replyProperty (request : SelectionRequest) : Atom :=
  if request.property = Atom.null then request.target else request.property

end SelectionRequest

structure SelectionNotify where
  time : Timestamp
  requestor : Window
  selection : Atom
  target : Atom
  /-- Where the data is, or nothing if the owner refused. -/
  property : Atom
  deriving DecidableEq, Repr

inductive Event where
  /-- A selection changed hands. No window owns a selection that was cleared, also when its owner
  went away. -/
  | ownerChanged (selection : Atom) (owner : Window)
  | selectionNotify (notify : SelectionNotify)
  | selectionRequest (request : SelectionRequest)
  | propertyStored (window : Window) (property : Atom)
  | propertyDeleted (window : Window) (property : Atom)
  | selectionCleared (selection : Atom)
  | rootResized (size : ScreenSize)
  | mappingChanged
  | protocolError (text : String)
  | other (kind : UInt8)
  deriving DecidableEq, Repr

end ClipboardRelay
