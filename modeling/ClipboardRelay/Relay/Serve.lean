import ClipboardRelay.Relay.Action
/-!
Serving desktop applications while the agent owns a selection. Their requests wait in a queue, and
the agent is asked for the first one only. Requests that need no data of the agent are answered as
soon as they come to the head.
-/

namespace ClipboardRelay.Relay

variable {δ : Type} [Display δ]

inductive Progress where
  | answered
  | waiting

def refuse (event : SelectionRequest) : Action δ Unit :=
  call (.notifyRequestor event Atom.null)

def refuseAll : List SelectionRequest → Action δ Unit
  | [] => pure ()
  | event :: events => do
    refuse event
    refuseAll events

def sendTargets (selection : Selection) (event : SelectionRequest) : Action δ Unit := do
  let relay ← current
  let targets := relay.vocabulary.targets ::
    relay.registry.targetsFor (relay.slots.types selection)
  let property := event.replyProperty
  call (.changeProperty event.requestor property Atom.atomType
    (.words (targets.map (·.number))))
  remarkTargets selection .targetsSent targets
  call (.notifyRequestor event property)

def serve (request : DesktopRequest) : Action δ Progress := do
  let relay ← current
  let selection := request.selection
  let event := request.event
  if relay.slots.owner selection ≠ .agent then
    remark selection (.requestNotOwned event.target)
    refuse event
    return .answered
  else if event.target = relay.vocabulary.multiple then
    remark selection .multipleUnsupported
    refuse event
    return .answered
  else if event.target = relay.vocabulary.targets then
    sendTargets selection event
    return .answered
  else
    match relay.registry.typeFor event.target with
    | none =>
      remark selection (.unknownTarget event.target)
      refuse event
      return .answered
    | some type =>
      send (.ask selection type)
      return .waiting

def serveFrom : List DesktopRequest → Action δ Unit
  | [] => pure ()
  | request :: rest => do
    match ← serve request with
    | .waiting => pure ()
    | .answered =>
      update fun relay => { relay with requests := rest }
      serveFrom rest

def serveRequests : Action δ Unit := do
  serveFrom (← current).requests

def finishRequest : Action δ Unit := do
  update fun relay => { relay with requests := relay.requests.tail }
  serveRequests

def queueRequest (event : SelectionRequest) : Action δ Unit := do
  let relay ← current
  match relay.vocabulary.selection? event.selection with
  | none =>
    note (.requestForUnknownSelection event.selection)
    refuse event
  | some selection =>
    update fun relay => { relay with requests := relay.requests ++ [{ selection, event }] }
    if relay.requests.isEmpty then serveRequests

def dropRequests (selection : Selection) : Action δ Unit := do
  let relay ← current
  let dropped := relay.requests.filter (·.selection = selection)
  if dropped.isEmpty then pure ()
  else
    update fun relay => { relay with
      requests := relay.requests.filter (·.selection ≠ selection) }
    remark selection (.requestsDropped dropped.length)
    refuseAll (dropped.map (·.event))
    if relay.requests.head?.map (·.selection) = some selection then
      update fun relay => { relay with writer := none }
      serveRequests
    else pure ()

def startSending (selection : Selection) (event : SelectionRequest) (data : Bytes) :
    Action δ Unit := do
  let incr := (← current).vocabulary.incr
  let property := event.replyProperty
  remark selection (.sendingStarted data.length)
  call (.watchProperties event.requestor)
  call (.changeProperty event.requestor property incr
    (.words [UInt32.ofNat (min data.length (UInt32.size - 1))]))
  call (.notifyRequestor event property)
  update fun relay => { relay with
    writer := some { data, requestor := event.requestor, property, target := event.target } }

def sendWhole (event : SelectionRequest) (data : Bytes) : Action δ Unit := do
  let property := event.replyProperty
  call (.changeProperty event.requestor property event.target (.bytes data))
  call (.notifyRequestor event property)
  finishRequest

/-- Hands the agent's data to the request at the head of the queue. Data that does not fit the
request is answered with a refusal, and data that nobody waits for is put aside. -/
def deliver (selection : Selection) (type : ContentType) (data : Bytes) : Action δ Unit := do
  let relay ← current
  let hasData : Bool := type ≠ .none ∨ data ≠ []
  match relay.writer, relay.requests with
  | some _, _ => if hasData then remark selection .dataWhileSending
  | none, [] => if hasData then remark selection .dataUnasked
  | none, request :: _ =>
    let event := request.event
    let expected := (relay.registry.typeFor event.target).getD .none
    if selection = request.selection ∧ type = expected then
      if data.length > relay.propertyLimit then startSending selection event data
      else sendWhole event data
    else
      if selection ≠ request.selection then
        remark selection (.dataForOther request.selection)
      if type ≠ expected then
        remark selection (.dataOfOtherType expected type)
      refuse event
      finishRequest

def handleDeleted (window : Window) (property : Atom) : Action δ Unit := do
  let relay ← current
  match relay.writer with
  | none => pure ()
  | some writer =>
    if writer.concerns window property then
      let chunk := writer.chunk relay.propertyLimit
      update fun relay => { relay with writer := some (writer.advance relay.propertyLimit) }
      note (if chunk.isEmpty then .sendingDone writer.data.length
        else .chunkSent writer.position chunk.length writer.data.length)
      call (.changeProperty writer.requestor writer.property writer.target (.bytes chunk))
      if chunk.isEmpty then
        update fun relay => { relay with writer := none }
        finishRequest
      else pure ()
    else pure ()

end ClipboardRelay.Relay
