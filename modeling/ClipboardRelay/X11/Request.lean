import ClipboardRelay.Display.Event
import ClipboardRelay.Display.Property
/-!
The requests of the X protocol that a client of selections needs, with the replies to them.
-/

namespace ClipboardRelay.X11

structure Version where
  major : UInt32
  minor : UInt32
  deriving DecidableEq, Repr

/-- A window to be made. Zeros stand for what the parent has. -/
structure NewWindow where
  window : Window
  parent : Window
  x : Int16 := 0
  y : Int16 := 0
  width : UInt16 := 1
  height : UInt16 := 1
  borderWidth : UInt16 := 0
  windowClass : UInt16 := 0
  visual : UInt32 := 0
  depth : UInt8 := 0
  valueMask : UInt32 := 0
  deriving DecidableEq, Repr

structure ScreenInfo where
  sizes : List ScreenSize
  rotation : UInt16
  configTimestamp : Timestamp
  deriving DecidableEq, Repr

inductive Request where
  | createWindow (window : NewWindow)
  | queryExtension (name : String)
  | queryXfixesVersion (wanted : Version)
  | queryRandrVersion (wanted : Version)
  | internAtom (onlyIfExists : Bool) (name : String)
  | selectSelectionInput (window : Window) (selection : Atom) (mask : UInt32)
  | selectInput (window : Window) (mask : UInt32)
  | getAtomName (atom : Atom)
  | setSelectionOwner (owner : Window) (selection : Atom) (time : Timestamp)
  | convertSelection (requestor : Window) (selection target property : Atom) (time : Timestamp)
  | getProperty (delete : Bool) (window : Window) (property type : Atom) (offset length : UInt32)
  | deleteProperty (window : Window) (property : Atom)
  | changeProperty (mode : UInt8) (window : Window) (property type : Atom) (content : Content)
  | sendNotify (propagate : Bool) (destination : Window) (mask : UInt32) (notify : SelectionNotify)
  | getGeometry (window : Window)
  | getScreenInfo (window : Window)
  | setScreenConfig (window : Window) (time configTimestamp : Timestamp) (size rotation rate : UInt16)
  | sync
  deriving DecidableEq, Repr

namespace Request

inductive Kind where
  | createWindow
  | queryExtension
  | queryXfixesVersion
  | queryRandrVersion
  | internAtom
  | selectSelectionInput
  | selectInput
  | getAtomName
  | setSelectionOwner
  | convertSelection
  | getProperty
  | deleteProperty
  | changeProperty
  | sendNotify
  | getGeometry
  | getScreenInfo
  | setScreenConfig
  | sync
  deriving DecidableEq, Repr

namespace Kind

def names : List (Kind × String) :=
  [ (createWindow, "create_window"), (queryExtension, "query_extension"),
    (queryXfixesVersion, "xfixes_query_version"), (queryRandrVersion, "randr_query_version"),
    (internAtom, "intern_atom"), (selectSelectionInput, "xfixes_select_selection_input"),
    (selectInput, "change_attributes"), (getAtomName, "get_atom_name"),
    (setSelectionOwner, "set_selection_owner"), (convertSelection, "convert_selection"),
    (getProperty, "get_property"), (deleteProperty, "delete_property"),
    (changeProperty, "change_property"), (sendNotify, "send_event"),
    (getGeometry, "get_geometry"), (getScreenInfo, "randr_get_screen_info"),
    (setScreenConfig, "randr_set_screen_config"), (sync, "sync") ]

def name (kind : Kind) : String :=
  (names.lookup kind).getD ""

def ofName? (name : String) : Option Kind :=
  (names.find? (·.2 == name)).map (·.1)

@[simp] theorem ofName?_name (kind : Kind) : ofName? kind.name = some kind := by
  cases kind <;> decide +kernel

end Kind

def kind : Request → Kind
  | createWindow _ => .createWindow
  | queryExtension _ => .queryExtension
  | queryXfixesVersion _ => .queryXfixesVersion
  | queryRandrVersion _ => .queryRandrVersion
  | internAtom .. => .internAtom
  | selectSelectionInput .. => .selectSelectionInput
  | selectInput .. => .selectInput
  | getAtomName _ => .getAtomName
  | setSelectionOwner .. => .setSelectionOwner
  | convertSelection .. => .convertSelection
  | getProperty .. => .getProperty
  | deleteProperty .. => .deleteProperty
  | changeProperty .. => .changeProperty
  | sendNotify .. => .sendNotify
  | getGeometry _ => .getGeometry
  | getScreenInfo _ => .getScreenInfo
  | setScreenConfig .. => .setScreenConfig
  | sync => .sync

abbrev Reply : Request → Type
  | queryExtension _ => Bool
  | queryXfixesVersion _ | queryRandrVersion _ => Version
  | internAtom .. => Atom
  | getAtomName _ => Bytes
  -- A property that does not exist has the null atom for its type.
  | getProperty .. => Property
  | getGeometry _ => ScreenSize
  | getScreenInfo _ => ScreenInfo
  -- Whether the configuration was taken over.
  | setScreenConfig .. => UInt8
  | _ => Unit

def eventMaskAttribute : UInt32 := 0x800

/-- The length of a property change in words, its data padded to whole ones. Other requests are
short. -/
def words : Request → Nat
  | changeProperty _ _ _ _ content => 6 + (content.toBytes.length + 3) / 4
  | _ => 0

end Request

end ClipboardRelay.X11
