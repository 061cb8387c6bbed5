import ClipboardRelay.Display.Call
import ClipboardRelay.X11.Event
import ClipboardRelay.X11.Request
/-!
A connection to an X server: any type of states that can submit requests and poll events.
-/

namespace ClipboardRelay.X11

structure Setup where
  roots : List Window
  screen : Nat
  firstResource : UInt32
  deriving Repr

class Connection (κ : Type) where
  setup : κ → Setup
  submit : (request : Request) → κ → Except Fault request.Reply × κ
  poll : κ → Except Fault (Option Event) × κ
  /-- A bound on the events that were received, or tell that a request without a reply went wrong. -/
  received : κ → Nat
  requestLimit : κ → Nat × κ

namespace Connection

variable {κ : Type} [Connection κ]

def request (request : Request) : Exchange κ request.Reply :=
  ExceptT.mk fun connection => submit request connection

def nextEvent : Exchange κ (Option Event) :=
  ExceptT.mk fun connection => poll connection

def longestRequest : Exchange κ Nat :=
  modifyGet requestLimit

/-- Sends a request that may be long. One whose length does not fit into 16 bits has to fit into the
limit of the connection. -/
def longRequest (long : Request) : Exchange κ long.Reply := do
  if long.words < UInt16.size then request long
  else if 4 * long.words ≤ (← longestRequest) then request long
  else throw .connection

end Connection

end ClipboardRelay.X11
