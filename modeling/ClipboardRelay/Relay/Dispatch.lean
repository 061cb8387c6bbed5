import ClipboardRelay.Relay.Ownership
/-!
Handling what the display reports, until nothing is left to handle.
-/

namespace ClipboardRelay.Relay

variable {δ : Type} [Display δ]

def reportResolution : Action δ Unit := do
  let size := (← current).size
  send (.resolution size.width.toUInt32 size.height.toUInt32)

/-- Handles a new size of the root window. A size that was reported before is not reported again. -/
def handleResize (size : ScreenSize) : Action δ Unit := do
  if size = (← current).size then pure ()
  else
    update fun relay => { relay with size }
    reportResolution

def handle : Event → Action δ Unit
  | .ownerChanged selection owner => handleOwner selection owner
  | .selectionNotify notify => do
    if notify.target = (← current).vocabulary.targets then handleTargets notify
    else handleConversion notify
  | .selectionRequest request => queueRequest request
  | .propertyStored window property => handleStored window property
  | .propertyDeleted window property => handleDeleted window property
  | .rootResized size => handleResize size
  | .protocolError text => note (.protocolError text)
  | .other kind => note (.unhandledEvent kind)
  -- Ownership is followed through the owner changes alone.
  | .selectionCleared _ | .mappingChanged => pure ()

def drain : Nat → Action δ Unit
  | 0 => pure ()
  | fuel + 1 => do
    call .flush
    match ← call .pollEvent with
    | none => pure ()
    | some event =>
      handle event
      drain fuel

/-- Handles every event that was received. No handler changes an owner, resizes the screen or waits
for the display, so the backlog at the start bounds the events that there will be. -/
def dispatch : Action δ Unit := do
  drain (Display.backlog (← display) + 1)

end ClipboardRelay.Relay
