import ClipboardRelay.Format
import ClipboardRelay.Slot
import ClipboardRelay.Incremental.Reader
import ClipboardRelay.Incremental.Writer
import ClipboardRelay.Relay.Notice
import ClipboardRelay.Wire.Message
/-!
The state of the relay, and the session that it has with a display and the agent.
-/

namespace ClipboardRelay

/-- The atoms that the relay has a use of its own for. -/
structure Vocabulary where
  clipboard : Atom
  primary : Atom
  targets : Atom
  incr : Atom
  multiple : Atom
  deriving DecidableEq, Repr

namespace Vocabulary

variable {δ : Type} [Display δ]

def names : List String := ["CLIPBOARD", "PRIMARY", "TARGETS", "INCR", "MULTIPLE"]

def intern : Exchange δ Vocabulary :=
  return {
    clipboard := ← Exchange.call (.internAtom "CLIPBOARD")
    primary := ← Exchange.call (.internAtom "PRIMARY")
    targets := ← Exchange.call (.internAtom "TARGETS")
    incr := ← Exchange.call (.internAtom "INCR")
    multiple := ← Exchange.call (.internAtom "MULTIPLE") }

def selection? (vocabulary : Vocabulary) (atom : Atom) : Option Selection :=
  if atom = vocabulary.clipboard then some .clipboard
  else if atom = vocabulary.primary then some .primary
  else none

def atom? (vocabulary : Vocabulary) : Selection → Option Atom
  | .clipboard => some vocabulary.clipboard
  | .primary => some vocabulary.primary
  | .secondary => none

end Vocabulary

/-- The agent's question for the data of a desktop owner. -/
structure Fetch where
  selection : Selection
  target : Atom
  deriving DecidableEq, Repr

/-- A desktop application's question for the data of the agent. -/
structure DesktopRequest where
  selection : Selection
  event : SelectionRequest
  deriving DecidableEq, Repr

structure Relay where
  window : Window
  vocabulary : Vocabulary
  registry : Registry
  propertyLimit : Nat
  size : ScreenSize
  slots : Slots := {}
  /-- The agent's questions. The owner was asked for the first one. -/
  fetches : List Fetch := []
  /-- Questions that were dropped while the owner's reply was still to come. -/
  abandoned : List Fetch := []
  reader : Incremental.Reader := {}
  /-- The applications' questions. The agent was asked for the first one. -/
  requests : List DesktopRequest := []
  writer : Option Incremental.Writer := none
  deriving DecidableEq, Repr

structure Session (δ : Type) where
  display : δ
  relay : Relay
  outbox : List Wire.Message := []
  notices : List Notice := []

namespace Session

variable {δ : Type}

def takeMessages (session : Session δ) : List Wire.Message × Session δ :=
  (session.outbox, { session with outbox := [] })

def takeNotices (session : Session δ) : List Notice × Session δ :=
  (session.notices, { session with notices := [] })

end Session

end ClipboardRelay
