import ClipboardRelay.Relay.Action
/-!
Fetching the data of desktop owners for the agent. The questions wait in a queue, and the owner is
asked for the first one only. Each question leaves the queue with exactly one message to the agent:
the data, or word that there is none.
-/

namespace ClipboardRelay.Relay

variable {δ : Type} [Display δ]

def sendNoData (selection : Selection) : Action δ Unit :=
  send (.noData selection)

/-- Asks the owner for the fetch at the head of the queue. A reply to an earlier question for the
same selection can be told apart no longer, so none is waited for. -/
def startFetch : Action δ Unit := do
  let relay ← current
  match relay.fetches with
  | [] => pure ()
  | fetch :: _ =>
    match relay.vocabulary.atom? fetch.selection with
    | none => pure ()
    | some atom =>
      update fun relay => { relay with
        abandoned := relay.abandoned.filter (·.selection ≠ fetch.selection) }
      remark fetch.selection (.converting fetch.target)
      call (.convertSelection atom fetch.target atom)

def queueFetch (fetch : Fetch) : Action δ Unit := do
  update fun relay => { relay with fetches := relay.fetches ++ [fetch] }
  if (← current).fetches.length = 1 then startFetch

def dropFetches (selection : Selection) : Action δ Unit := do
  let relay ← current
  let dropped := relay.fetches.filter (·.selection = selection)
  if dropped.isEmpty then pure ()
  else
    update fun relay => { relay with
      fetches := relay.fetches.filter (·.selection ≠ selection) }
    remark selection (.fetchesDropped dropped.length)
    sendAll (dropped.map fun fetch => .noData fetch.selection)
    match relay.fetches with
    | [] => pure ()
    | active :: _ =>
      if active.selection = selection then
        update fun relay => { relay with
          reader := relay.reader.abort
          abandoned := relay.abandoned ++ [active] }
        startFetch
      else pure ()

/-- Sends the outcome of the fetch at the head of the queue to the agent and starts the next one.
Chunks that still arrive for a failed fetch must not end up in the next one. -/
def finishFetch (data : Option Bytes) : Action δ Unit := do
  if data.isNone then
    update fun relay => { relay with reader := relay.reader.abort }
  let relay ← current
  match relay.fetches with
  | [] => pure ()
  | fetch :: rest =>
    update fun relay => { relay with fetches := rest }
    match relay.registry.typeFor fetch.target with
    | none =>
      remark fetch.selection (.unknownTarget fetch.target)
      sendNoData fetch.selection
    | some type =>
      match data with
      | some bytes =>
        if type = .none then sendNoData fetch.selection
        else send (.data fetch.selection type bytes)
      | none => sendNoData fetch.selection
    startFetch

def checkProperty (selection : Selection) (target : Atom) (property : Property) :
    Action δ Bool := do
  if property.type ≠ target then
    remark selection (.wrongType target property.type)
    return false
  else if property.format ≠ 8 then
    remark selection (.wrongFormat 8 property.format)
    return false
  else
    return true

inductive Reply where
  | pending
  | data (bytes : Bytes)
  | failed

def readReply (fetch : Fetch) (notify : SelectionNotify) : Action δ Reply := do
  let relay ← current
  let selection := fetch.selection
  if notify.property = Atom.null then
    remark selection .conversionRefused
    return .failed
  else if notify.requestor ≠ relay.window ∨
      relay.vocabulary.atom? selection ≠ some notify.property then
    remark selection .replyMismatch
    return .failed
  else
    match ← call (.getProperty relay.window notify.property false) with
    | none =>
      remark selection .replyWithoutProperty
      return .failed
    | some property =>
      if property.type = relay.vocabulary.incr then
        if relay.reader.active then
          remark selection .readingAlready
          call (.deleteProperty relay.window notify.property)
          return .failed
        else
          let hint := (property.words?.bind List.head?).getD 0
          remark selection (.readingStarted hint)
          update fun relay => { relay with
            reader := relay.reader.begin Incremental.doubling hint.toNat }
          call (.watchProperties relay.window)
          call (.deleteProperty relay.window notify.property)
          return .pending
      else
        call (.deleteProperty relay.window notify.property)
        if ← checkProperty selection fetch.target property then
          if property.value.isEmpty then
            remark selection .noData
            return .failed
          else
            return .data property.value
        else
          return .failed

def checkReply (fetch : Fetch) (notify : SelectionNotify) : Action δ Bool := do
  let vocabulary := (← current).vocabulary
  let selectionFits : Bool := vocabulary.selection? notify.selection = some fetch.selection
  if !selectionFits then
    remark fetch.selection (.replyForOther notify.selection)
  let targetFits : Bool := notify.target = fetch.target ∨ notify.target = vocabulary.incr
  if !targetFits then
    remark fetch.selection (.replyForTarget fetch.target notify.target)
  return selectionFits && targetFits

def receiveReply (notify : SelectionNotify) : Action δ Unit := do
  match (← current).fetches with
  | [] => note .notifyUnasked
  | fetch :: _ =>
    if ← checkReply fetch notify then
      match ← readReply fetch notify with
      | .pending => pure ()
      | .data bytes => finishFetch (some bytes)
      | .failed => finishFetch none
    else
      finishFetch none

def answers (vocabulary : Vocabulary) (notify : SelectionNotify) (fetch : Fetch) : Bool :=
  vocabulary.selection? notify.selection = some fetch.selection && notify.target = fetch.target

/-- Handles an owner's reply. A reply to a question that was dropped is put aside, unless the queue
asks the same owner again. -/
def handleConversion (notify : SelectionNotify) : Action δ Unit := do
  let relay ← current
  match relay.abandoned.find? (answers relay.vocabulary notify) with
  | none => receiveReply notify
  | some fetch =>
    update fun relay => { relay with
      abandoned := relay.abandoned.eraseP (answers relay.vocabulary notify) }
    if relay.fetches.head?.map (·.selection) = some fetch.selection then
      receiveReply notify
    else
      remark fetch.selection .lateReply
      if notify.property ≠ Atom.null ∧ notify.requestor = relay.window then
        call (.deleteProperty notify.requestor notify.property)
      else pure ()

def readChunk (fetch : Fetch) (property : Atom) : Action δ Unit := do
  let window := (← current).window
  match ← call (.getProperty window property true) with
  | none =>
    remark fetch.selection .chunkWithoutProperty
    finishFetch none
  | some chunk =>
    if ← checkProperty fetch.selection fetch.target chunk then
      if chunk.value.isEmpty then
        let (data, reader) := (← current).reader.finish
        update fun relay => { relay with reader }
        if data.isEmpty then
          remark fetch.selection .noData
          finishFetch none
        else
          remark fetch.selection (.readingDone data.length)
          finishFetch (some data)
      else
        update fun relay => { relay with
          reader := relay.reader.push Incremental.doubling chunk.value }
        let total := (← current).reader.data.length
        remark fetch.selection (.chunkRead chunk.value.length total)
    else
      finishFetch none

def handleStored (window : Window) (property : Atom) : Action δ Unit := do
  let relay ← current
  if relay.reader.active then
    match relay.fetches with
    | [] => pure ()
    | fetch :: _ =>
      if window = relay.window ∧ relay.vocabulary.atom? fetch.selection = some property then
        readChunk fetch property
      else pure ()
  else pure ()

end ClipboardRelay.Relay
