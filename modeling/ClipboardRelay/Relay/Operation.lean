import ClipboardRelay.Relay.Dispatch
import ClipboardRelay.Wire.Request
/-!
What the agent can ask of the relay. Every operation handles the events that were received before
it is done.
-/

namespace ClipboardRelay.Relay

variable {δ : Type} [Display δ]

def grab (selection : Selection) (types : List ContentType) : Action δ Unit := do
  let relay ← current
  match relay.vocabulary.atom? selection with
  | none => remark selection .grabUnsupported
  | some atom =>
    let offered := ContentType.distinct types
    if offered.isEmpty then remark selection .grabEmpty
    else
      call (.setSelectionOwner atom relay.window)
      changeHolder selection (.agent offered)
      dispatch

/-- Gives up a selection that was taken for the remote client. The owner change that this causes is
handled before anything else: later it might undo what someone else did in the meantime. -/
def release (selection : Selection) : Action δ Unit := do
  let relay ← current
  match relay.vocabulary.atom? selection with
  | none => remark selection .releaseUnsupported
  | some atom =>
    if relay.slots.owner selection ≠ .agent then remark selection .releaseNotOwned
    else
      call (.setSelectionOwner atom Window.null)
      call .sync
      dispatch
      if (← current).slots.owner selection = .agent then
        remark selection .releaseUnseen
        changeHolder selection .nobody
      dispatch

def ask (selection : Selection) (type : ContentType) : Action δ Unit := do
  let relay ← current
  if (relay.vocabulary.atom? selection).isNone then
    remark selection .askUnsupported
    sendNoData selection
  else if relay.slots.owner selection ≠ .desktop then
    remark selection .askNotOwned
    sendNoData selection
  else
    match (relay.slots.holder selection).targetFor? type with
    | none =>
      remark selection (.askUnavailable type)
      sendNoData selection
    | some target => queueFetch { selection, target }
  dispatch

def supply (selection : Selection) (type : ContentType) (data : Bytes) : Action δ Unit := do
  deliver selection type data
  dispatch

def fitScreen (monitor : Monitor) : Action δ Unit := do
  let sizes ← call .screenSizes
  if sizes.isEmpty then note .noScreenSizes
  else
    match ScreenSize.bestFit sizes monitor.width monitor.height with
    | none => note (.noFit monitor.width monitor.height)
    | some index =>
      call (.setScreenSize index)
      update fun relay => { relay with size := sizes.getD index relay.size }
      reportResolution
      dispatch

def applyMonitors (layout : MonitorLayout) : Action δ Unit := do
  if Display.hasRandr (← display) then
    match layout.monitors with
    | [] => note .noMonitors
    | monitor :: others =>
      if !others.isEmpty then note .extraMonitors
      fitScreen monitor
  else
    note .noRandr

def vacate (selection : Selection) : Action δ Unit := do
  let relay ← current
  match relay.slots.owner selection, relay.vocabulary.atom? selection with
  | .agent, some atom => call (.setSelectionOwner atom Window.null)
  | _, _ => pure ()
  changeHolder selection .nobody

def shutdown : Action δ Unit := do
  vacate .clipboard
  vacate .primary
  dispatch

def fulfil : Wire.Request → Action δ Unit
  | .monitors layout => applyMonitors layout
  | .grab selection types => grab selection types
  | .ask selection type => ask selection type
  | .data selection type data => supply selection type data
  | .release selection => release selection

end ClipboardRelay.Relay
