import ClipboardRelay.Relay.Operation
import ClipboardRelay.Wire.Frame
/-!
Taking in the bytes that the agent sends. Each complete frame is removed before its request is
fulfilled. A frame that says nothing is skipped.
-/

namespace ClipboardRelay

structure Intake (δ : Type) where
  outcome : Except Fault Unit
  /-- What each frame said, the last one first. -/
  decoded : List (Except Wire.DecodeError Wire.Request)
  rest : Bytes
  session : Session δ

namespace Relay

variable {δ : Type} [Display δ]

def obey (frame : Wire.Frame) : Action δ Unit := do
  noteAll (frame.unknownTypes.map fun (selection, value) =>
    .about selection (.unknownType value))
  match frame.request with
  | .error _ => pure ()
  | .ok request => fulfil request

end Relay

namespace Session

variable {δ : Type} [Display δ]

def feedAfter (decoded : List (Except Wire.DecodeError Wire.Request)) (buffer : Bytes)
    (session : Session δ) : Intake δ :=
  match h : Wire.Frame.next? buffer with
  | none => { outcome := .ok (), decoded, rest := buffer, session }
  | some (frame, rest) =>
    have := Wire.Frame.length_lt_of_next? h
    match (Relay.obey frame).run session with
    | (.error fault, session) =>
      { outcome := .error fault, decoded := frame.request :: decoded, rest, session }
    | (.ok (), session) => feedAfter (frame.request :: decoded) rest session
termination_by buffer.length

def feed (buffer : Bytes) (session : Session δ) : Intake δ :=
  feedAfter [] buffer session

end Session

end ClipboardRelay
