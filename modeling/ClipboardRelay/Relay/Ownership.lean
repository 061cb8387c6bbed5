import ClipboardRelay.Relay.Fetch
import ClipboardRelay.Relay.Serve
/-!
Following who owns each selection. A new desktop owner is asked for its targets, and becomes the
holder of the selection only when its answer names something that the agent knows.
-/

namespace ClipboardRelay.Relay

variable {δ : Type} [Display δ]

/-- Gives a selection a new holder. What was asked of the old one is answered negatively first, and
the agent is told when a desktop owner is gone. -/
def changeHolder (selection : Selection) (holder : Holder) : Action δ Unit := do
  dropRequests selection
  dropFetches selection
  let previous := (← current).slots.owner selection
  update fun relay => { relay with slots := relay.slots.setHolder selection holder }
  if holder.owner = .nobody ∧ previous = .desktop then
    send (.release selection)

def handleOwner (selection : Atom) (owner : Window) : Action δ Unit := do
  let relay ← current
  match relay.vocabulary.selection? selection with
  | none => pure ()
  | some slot =>
    remark slot (.newOwner owner)
    if owner = relay.window then pure ()
    else
      changeHolder slot .nobody
      if owner = Window.null then pure ()
      else
        call (.convertSelection selection relay.vocabulary.targets relay.vocabulary.targets)
        update fun relay => { relay with slots := relay.slots.await slot }

/-- Deletes the property of an answer that is not read. All owners answer in one property, so it is
kept while another answer is to come. -/
def discardTargets (notify : SelectionNotify) : Action δ Unit := do
  let relay ← current
  if notify.property = Atom.null ∨ notify.requestor ≠ relay.window ∨ relay.slots.awaiting then
    pure ()
  else
    call (.deleteProperty relay.window notify.property)

def readTargets (selection : Selection) (notify : SelectionNotify) :
    Action δ (Option (List Atom)) := do
  let relay ← current
  let targets := relay.vocabulary.targets
  if notify.property = Atom.null then
    remark selection .targetsRefused
    return none
  else if notify.requestor ≠ relay.window ∨ notify.property ≠ targets then
    remark selection .targetsMismatch
    return none
  else
    match ← call (.getProperty relay.window targets true) with
    | none =>
      remark selection .targetsWithoutProperty
      return none
    | some property =>
      if property.type ≠ Atom.atomType then
        remark selection (.targetsOfWrongType property.type)
        return none
      else
        match property.words? with
        | none =>
          remark selection (.wrongFormat 32 property.format)
          return none
        | some [] =>
          remark selection .targetsEmpty
          return none
        | some words => return some (words.map Atom.mk)

def acceptTargets (selection : Selection) (offered : List Atom) : Action δ Unit := do
  remarkTargets selection .targetsReceived offered
  match (← current).registry.negotiate offered with
  | [] => remark selection .targetsUnsupported
  | negotiated =>
    send (.grab selection (negotiated.map (·.1)))
    changeHolder selection
      (.desktop (negotiated.map fun (type, target) => { type, target }))

/-- Handles an owner's answer to the question for its targets. Only the answer to the last question
counts, and only while the agent does not own the selection. -/
def handleTargets (notify : SelectionNotify) : Action δ Unit := do
  let relay ← current
  match relay.vocabulary.selection? notify.selection with
  | none =>
    note .targetsOfUnknownSelection
    discardTargets notify
  | some selection =>
    let (arrival, slots) := relay.slots.arrive selection
    update fun relay => { relay with slots }
    match arrival with
    | .unexpected =>
      remark selection .targetsUnexpected
      discardTargets notify
    | .stale =>
      remark selection .targetsStale
      discardTargets notify
    | .current =>
      if slots.owner selection = .agent then
        remark selection .targetsWhileOwned
        discardTargets notify
      else
        match ← readTargets selection notify with
        | none => pure ()
        | some offered => acceptTargets selection offered

end ClipboardRelay.Relay
