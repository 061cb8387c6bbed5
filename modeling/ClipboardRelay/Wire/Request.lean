import ClipboardRelay.Screen
import ClipboardRelay.Wire.Header
/-!
What the agent tells the relay, and how it is read from a header and a payload.
-/

namespace ClipboardRelay.Wire

inductive Request where
  | monitors (layout : MonitorLayout)
  | grab (selection : Selection) (types : List ContentType)
  /-- The remote client wants the selection's data as this kind of content. -/
  | ask (selection : Selection) (type : ContentType)
  | data (selection : Selection) (type : ContentType) (data : Bytes)
  | release (selection : Selection)
  deriving DecidableEq, Repr

def monitorLength : Nat := 20

def monitorWords (monitor : Monitor) : List UInt32 :=
  [monitor.height, monitor.width, monitor.depth, monitor.x.toUInt32, monitor.y.toUInt32]

def monitorsOfWords : List UInt32 → List Monitor
  | height :: width :: depth :: x :: y :: rest =>
    { height, width, depth, x := x.toInt32, y := y.toInt32 } :: monitorsOfWords rest
  | _ => []

@[simp] theorem monitorsOfWords_flatMap (monitors : List Monitor) :
    monitorsOfWords (monitors.flatMap monitorWords) = monitors := by
  induction monitors with
  | nil => rfl
  | cons monitor rest ih => simp [monitorWords, monitorsOfWords, ih]

def encodeLayout (layout : MonitorLayout) : Bytes :=
  Bytes.ofWords (UInt32.ofNat layout.monitors.length :: layout.flags ::
    layout.monitors.flatMap monitorWords)

/-- Reads as many monitors as the payload announces. More bytes than those are left alone. -/
def decodeLayout (payload : Bytes) : Except DecodeError MonitorLayout := do
  requireLength 8 payload
  match payload.words with
  | count :: flags :: rest =>
    requireLength (count.toNat * monitorLength) (payload.drop 8)
    return { flags, monitors := monitorsOfWords (rest.take (5 * count.toNat)) }
  | _ => .error (.truncated 8 payload.length)

def decodeTypes (payload : Bytes) : Except DecodeError (List ContentType) := do
  requireLength ((payload.length + 3) / 4 * 4) payload
  return payload.words.filterMap ContentType.ofWire?

namespace Request

def encode : Request → Bytes
  | monitors layout => frame .monitors 0 0 (encodeLayout layout)
  | grab selection types =>
    frame .grab selection.toWire 0 (Bytes.ofWords (types.map ContentType.toWire))
  | ask selection type => frame .ask selection.toWire type.toWire []
  | data selection type bytes => frame .data selection.toWire type.toWire bytes
  | release selection => frame .release selection.toWire 0 []

def encodeAll (requests : List Request) : Bytes :=
  requests.flatMap encode

/-- Reads the request with this header. Only the announced part of the payload is looked at. -/
def decode (header : Header) (payload : Bytes) : Except DecodeError Request := do
  requireLength header.size.toNat payload
  let body := payload.take header.size.toNat
  match Kind.ofWire? header.kind with
  | some .monitors => return .monitors (← decodeLayout body)
  | some .grab =>
    let selection ← decodeSelection header.arg1
    return .grab selection (← decodeTypes body)
  | some .ask =>
    let selection ← decodeSelection header.arg1
    return .ask selection (← decodeContentType header.arg2)
  | some .data =>
    let selection ← decodeSelection header.arg1
    return .data selection (← decodeContentType header.arg2) body
  | some .release => return .release (← decodeSelection header.arg1)
  | some .resolution | none => .error (.unknownKind header.kind)

end Request

end ClipboardRelay.Wire
