import ClipboardRelay.Bytes
import ClipboardRelay.Display.Resource
/-!
The properties of a window, as they are stored and read back.
-/

namespace ClipboardRelay

/-- A property as it is read back. The format is the width of its items in bits. -/
structure Property where
  type : Atom
  format : UInt8
  value : Bytes
  deriving DecidableEq, Repr

namespace Property

def words? (property : Property) : Option (List UInt32) :=
  if property.format = 32 then some property.value.words else none

def wholeItems (property : Property) : Property :=
  let width := property.format.toNat / 8
  { property with value := property.value.take (property.value.length / width * width) }

end Property

inductive Content where
  | bytes (data : Bytes)
  | words (data : List UInt32)
  deriving DecidableEq, Repr

namespace Content

def format : Content → UInt8
  | bytes _ => 8
  | words _ => 32

def toBytes : Content → Bytes
  | bytes data => data
  | words data => Bytes.ofWords data

def toProperty (content : Content) (type : Atom) : Property :=
  { type, format := content.format, value := content.toBytes }

@[simp] theorem words?_toProperty_words (data : List UInt32) (type : Atom) :
    ((words data).toProperty type).words? = some data := by
  simp [toProperty, Property.words?, format, toBytes]

end Content

end ClipboardRelay
