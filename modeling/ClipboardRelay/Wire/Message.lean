import ClipboardRelay.Wire.Header
/-!
What the relay tells the agent.
-/

namespace ClipboardRelay.Wire

inductive Message where
  | resolution (width height : UInt32)
  /-- A desktop application owns the selection and offers these kinds of content. -/
  | grab (selection : Selection) (types : List ContentType)
  /-- A desktop application wants the remote client's data as this kind of content. -/
  | ask (selection : Selection) (type : ContentType)
  | data (selection : Selection) (type : ContentType) (data : Bytes)
  | release (selection : Selection)
  deriving DecidableEq, Repr

namespace Message

def noData (selection : Selection) : Message :=
  .data selection .none []

def encode : Message → Bytes
  | resolution width height => frame .resolution 0 0 (Bytes.ofWords [width, height])
  | grab selection types =>
    frame .grab selection.toWire 0 (Bytes.ofWords (types.map ContentType.toWire))
  | ask selection type => frame .ask selection.toWire type.toWire []
  | data selection type bytes => frame .data selection.toWire type.toWire bytes
  | release selection => frame .release selection.toWire 0 []

def encodeAll (messages : List Message) : Bytes :=
  messages.flatMap encode

end Message

end ClipboardRelay.Wire
