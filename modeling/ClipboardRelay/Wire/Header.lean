import ClipboardRelay.Selection
import ClipboardRelay.ContentType
import ClipboardRelay.Bytes
/-!
The fixed part of every message between the relay and the agent: four little-endian words that
name the kind of message, two arguments and the size of the payload that follows.
-/

namespace ClipboardRelay.Wire

inductive Kind where
  | resolution
  | monitors
  | grab
  | ask
  | data
  | release
  deriving DecidableEq, Repr

namespace Kind

def all : List Kind := [resolution, monitors, grab, ask, data, release]

def toWire : Kind → UInt32
  | resolution => 0
  | monitors => 1
  | grab => 2
  | ask => 3
  | data => 4
  | release => 5

def ofWire? (value : UInt32) : Option Kind :=
  all.find? (·.toWire == value)

@[simp] theorem ofWire?_toWire (kind : Kind) : ofWire? kind.toWire = some kind := by
  cases kind <;> rfl

theorem toWire_of_ofWire? {value : UInt32} {kind : Kind}
    (h : ofWire? value = some kind) : kind.toWire = value := by
  simpa using List.find?_some h

end Kind

inductive DecodeError where
  | truncated (expected actual : Nat)
  | unknownKind (kind : UInt32)
  | unknownSelection (value : UInt32)
  | unknownContentType (value : UInt32)
  deriving DecidableEq, Repr

namespace DecodeError

def message : DecodeError → String
  | truncated expected actual => s!"Message truncated: need {expected} bytes, got {actual}"
  | unknownKind kind => s!"Unknown message kind {kind}"
  | unknownSelection value => s!"Unknown selection {value}"
  | unknownContentType value => s!"Unknown content type {value}"

end DecodeError

def requireLength (expected : Nat) (bytes : Bytes) : Except DecodeError Unit :=
  if bytes.holds expected then .ok () else .error (.truncated expected bytes.length)

def decodeSelection (value : UInt32) : Except DecodeError Selection :=
  match Selection.ofWire? value with
  | some selection => .ok selection
  | none => .error (.unknownSelection value)

def decodeContentType (value : UInt32) : Except DecodeError ContentType :=
  match ContentType.ofWire? value with
  | some type => .ok type
  | none => .error (.unknownContentType value)

/-- The header of a message. The kind is kept as it came, since it may be unknown. -/
structure Header where
  kind : UInt32
  arg1 : UInt32
  arg2 : UInt32
  size : UInt32
  deriving DecidableEq, Repr

namespace Header

def length : Nat := 16

def encode (header : Header) : Bytes :=
  Bytes.ofWords [header.kind, header.arg1, header.arg2, header.size]

def decode (bytes : Bytes) : Except DecodeError Header :=
  match Bytes.words (bytes.take length) with
  | [kind, arg1, arg2, size] => .ok { kind, arg1, arg2, size }
  | _ => .error (.truncated length bytes.length)

@[simp] theorem length_encode (header : Header) : header.encode.length = length := rfl

@[simp] theorem decode_encode_append (header : Header) (rest : Bytes) :
    decode (header.encode ++ rest) = .ok header := by
  have htake : (header.encode ++ rest).take length = header.encode :=
    List.take_left' (length_encode header)
  rw [decode, htake, encode, Bytes.words_ofWords]

end Header

/-- A message with its header in front. The size in the header is the length of the payload, as
far as a word can hold it. -/
def frame (kind : Kind) (arg1 arg2 : UInt32) (payload : Bytes) : Bytes :=
  Header.encode
    { kind := kind.toWire, arg1, arg2, size := UInt32.ofNat payload.length } ++ payload

@[simp] theorem length_frame (kind : Kind) (arg1 arg2 : UInt32) (payload : Bytes) :
    (frame kind arg1 arg2 payload).length = Header.length + payload.length := by
  simp [frame]

end ClipboardRelay.Wire
