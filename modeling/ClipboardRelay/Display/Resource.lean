/-!
The numbers by which a display names things: atoms for names, windows for the parts of the screen
that own properties.
-/

namespace ClipboardRelay

structure Atom where
  number : UInt32
  deriving DecidableEq, Repr

namespace Atom

def null : Atom := ⟨0⟩

/-- The type of a property that holds a list of atoms. Its number never changes. -/
def atomType : Atom := ⟨4⟩

end Atom

structure Window where
  number : UInt32
  deriving DecidableEq, Repr

namespace Window

def null : Window := ⟨0⟩

end Window

/-- The time of an event, in the display's own milliseconds. Zero is the current time. -/
abbrev Timestamp := UInt32

end ClipboardRelay
