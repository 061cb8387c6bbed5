import ClipboardRelay.Display.Call
import ClipboardRelay.Memory.AtomTable
import ClipboardRelay.Memory.FailureRule
import ClipboardRelay.Memory.PropertyStore
/-!
A display that lives in memory. It stores properties, hands out the events that were queued, reports
changes of ownership, keeps a journal of the calls it was asked for, and fails when it was told to.
-/

namespace ClipboardRelay

inductive Call.Kind where
  | internAtom
  | setSelectionOwner
  | convertSelection
  | getProperty
  | deleteProperty
  | changeProperty
  | watchProperties
  | notifyRequestor
  | rootSize
  | screenSizes
  | setScreenSize
  | pollEvent
  | flush
  | sync
  deriving DecidableEq, Repr

namespace Call.Kind

def names : List (Call.Kind × String) :=
  [ (.internAtom, "intern_atom"), (.setSelectionOwner, "set_owner"),
    (.convertSelection, "convert"), (.getProperty, "get"), (.deleteProperty, "delete"),
    (.changeProperty, "change"), (.watchProperties, "watch"), (.notifyRequestor, "notify"),
    (.rootSize, "root_size"), (.screenSizes, "screen_sizes"), (.setScreenSize, "set_screen"),
    (.pollEvent, "poll"), (.flush, "flush"), (.sync, "sync") ]

def name (kind : Call.Kind) : String :=
  (names.lookup kind).getD ""

def ofName? (name : String) : Option Call.Kind :=
  (names.find? (·.2 == name)).map (·.1)

@[simp] theorem ofName?_name (kind : Call.Kind) : ofName? kind.name = some kind := by
  cases kind <;> decide +kernel

end Call.Kind

def Call.kind : Call → Call.Kind
  | .internAtom _ => .internAtom
  | .setSelectionOwner .. => .setSelectionOwner
  | .convertSelection .. => .convertSelection
  | .getProperty .. => .getProperty
  | .deleteProperty .. => .deleteProperty
  | .changeProperty .. => .changeProperty
  | .watchProperties _ => .watchProperties
  | .notifyRequestor .. => .notifyRequestor
  | .rootSize => .rootSize
  | .screenSizes => .screenSizes
  | .setScreenSize _ => .setScreenSize
  | .pollEvent => .pollEvent
  | .flush => .flush
  | .sync => .sync

namespace Memory

inductive Entry where
  | made (call : Call)
  | failed (kind : Call.Kind)
  deriving DecidableEq, Repr

structure Display where
  window : Window := ⟨1⟩
  maxRequestBytes : Nat := 16 * 1024 * 1024
  atoms : AtomTable := {}
  root : ScreenSize := { width := 1024, height := 768 }
  sizes : Option (List ScreenSize) := none
  reportsOwner : Bool := true
  reportsScreen : Bool := true
  onSync : List Event := []
  rules : List (FailureRule Call.Kind Fault) := []
  properties : PropertyStore := {}
  events : List Event := []
  journal : List Entry := []

namespace Display

def enqueue (display : Display) (events : List Event) : Display :=
  { display with events := display.events ++ events }

def record (display : Display) (entry : Entry) : Display :=
  { display with journal := display.journal ++ [entry] }

def answer : (call : Call) → Display → call.Answer × Display
  | .internAtom name, display =>
    let (atom, atoms) := display.atoms.intern name
    (atom, { display with atoms })
  | .setSelectionOwner selection owner, display =>
    ((), if display.reportsOwner then display.enqueue [.ownerChanged selection owner] else display)
  | .getProperty window name delete, display =>
    let property := display.properties.get? window name
    (property, if delete then
      { display with properties := display.properties.erase window name } else display)
  | .deleteProperty window name, display =>
    ((), { display with properties := display.properties.erase window name })
  | .changeProperty window name type content, display =>
    ((), { display with
      properties := display.properties.insert window name (content.toProperty type) })
  | .rootSize, display => (display.root, display)
  | .screenSizes, display => (display.sizes.getD [], display)
  | .setScreenSize index, display =>
    match (display.sizes.getD [])[index]? with
    | none => ((), display)
    | some size =>
      let resized := { display with root := size }
      ((), if display.reportsScreen then resized.enqueue [.rootResized size] else resized)
  | .pollEvent, display =>
    match display.events with
    | [] => (none, display)
    | event :: events => (some event, { display with events })
  | .sync, display => ((), { display.enqueue display.onSync with onSync := [] })
  | .convertSelection .., display | .watchProperties _, display | .notifyRequestor .., display
  | .flush, display => ((), display)

/-- Performs a call, unless a rule says that it fails. A call that fails has no effect. -/
def perform (call : Call) (display : Display) : Except Fault call.Answer × Display :=
  match FailureRule.consult call.kind display.rules with
  | (some fault, rules) => (.error fault, { display with rules }.record (.failed call.kind))
  | (none, rules) =>
    let (result, after) := answer call ({ display with rules }.record (.made call))
    (.ok result, after)

theorem exists_of_perform {asked : Call} {given : asked.Answer} {display after : Display}
    (h : perform asked display = (.ok given, after)) : ∃ rules,
      answer asked ({ display with rules }.record (.made asked)) = (given, after) := by
  unfold perform at h
  split at h
  case h_1 fault rules broke => cases h
  case h_2 rules allowed =>
    cases h
    exact ⟨rules, rfl⟩

instance : ClipboardRelay.Display Display where
  perform := perform
  proxyWindow := window
  maxRequestBytes := maxRequestBytes
  hasRandr display := display.sizes.isSome
  backlog display := display.events.length

def takeJournal (display : Display) : List Entry × Display :=
  (display.journal, { display with journal := [] })

end Display

end Memory

end ClipboardRelay
