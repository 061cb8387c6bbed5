/-!
The selections that the relay and the agent talk about.
-/

namespace ClipboardRelay

/-- A selection of the desktop. The secondary selection has a number on the wire, but the relay
keeps only the other two in step. -/
inductive Selection where
  | clipboard
  | primary
  | secondary
  deriving DecidableEq, Repr

namespace Selection

def all : List Selection := [clipboard, primary, secondary]

def index : Selection → Nat
  | clipboard => 0
  | primary => 1
  | secondary => 2

def toWire (selection : Selection) : UInt32 :=
  UInt32.ofNat selection.index

def ofWire? (value : UInt32) : Option Selection :=
  all.find? (·.toWire == value)

@[simp] theorem ofWire?_toWire (selection : Selection) :
    ofWire? selection.toWire = some selection := by
  cases selection <;> rfl

theorem toWire_of_ofWire? {value : UInt32} {selection : Selection}
    (h : ofWire? value = some selection) : selection.toWire = value := by
  simpa using List.find?_some h

def name : Selection → String
  | clipboard => "clipboard"
  | primary => "primary"
  | secondary => "secondary"

end Selection

end ClipboardRelay
