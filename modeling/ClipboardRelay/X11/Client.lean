import ClipboardRelay.Text.Lossy
import ClipboardRelay.X11.Connection
/-!
A display over a connection to an X server. The client works through a small window of its own, and
remembers the names of the atoms that it came across.
-/

namespace ClipboardRelay.X11

structure Client (κ : Type) where
  connection : κ
  root : Window
  window : Window
  hasRandr : Bool := false
  names : List (Atom × String) := []

namespace Client

def currentTime : Timestamp := 0

def propertyChangeMask : UInt32 := 0x400000

def structureNotifyMask : UInt32 := 0x20000

/-- Asks for new owners of a selection, and for owners whose window or client goes away. -/
def selectionOwnerMask : UInt32 := 7

def replaceMode : UInt8 := 0

def wholeProperty : UInt32 := 0xFFFFFFFF / 4

variable {κ : Type} [Connection κ]

def converse {α : Type} (exchange : Exchange κ α) : Exchange (Client κ) α :=
  ExceptT.mk fun client =>
    let (result, connection) := exchange.run client.connection
    (result, { client with connection })

def request (request : Request) : Exchange (Client κ) request.Reply :=
  converse (Connection.request request)

def internAtom (name : String) : Exchange (Client κ) Atom := do
  let atom ← request (.internAtom false name)
  modify fun client => { client with names := (atom, name) :: client.names }
  return atom

/-- The name of an atom for a reader. The server is asked for each atom at most once. An atom whose
name it does not tell is shown as a number. -/
def atomName (atom : Atom) (client : Client κ) : String × Client κ :=
  if atom = Atom.null then ("None", client)
  else
    match client.names.lookup atom with
    | some name => (name, client)
    | none =>
      let (result, client) := (request (.getAtomName atom)).run client
      let name := match result with
        | .ok bytes => Text.decodeLossy bytes
        | .error _ => s!"<atom {atom.number}>"
      (name, { client with names := (atom, name) :: client.names })

def screenInfo : Exchange (Client κ) ScreenInfo := do
  let client ← get
  if client.hasRandr then request (.getScreenInfo client.root)
  else throw .connection

def sendNotify (event : SelectionRequest) (property : Atom) : Exchange (Client κ) Unit :=
  request (.sendNotify false event.requestor 0
    { time := event.time, requestor := event.requestor, selection := event.selection
      target := event.target, property })

def exchange : (call : Call) → Exchange (Client κ) call.Answer
  | .internAtom name => internAtom name
  | .setSelectionOwner selection owner =>
    request (.setSelectionOwner owner selection currentTime)
  | .convertSelection selection target property => do
    request (.convertSelection (← get).window selection target property currentTime)
  | .getProperty window property delete => do
    let reply ← request (.getProperty delete window property Atom.null 0 wholeProperty)
    return if reply.type = Atom.null then none else some reply
  | .deleteProperty window property => request (.deleteProperty window property)
  | .changeProperty window property type content =>
    converse (Connection.longRequest (.changeProperty replaceMode window property type content))
  | .watchProperties window => request (.selectInput window propertyChangeMask)
  | .notifyRequestor event property => sendNotify event property
  | .rootSize => do request (.getGeometry (← get).root)
  | .screenSizes => return (← screenInfo).sizes
  | .setScreenSize index => do
    let info ← screenInfo
    -- No screen has more sizes than 16 bits can number.
    let size := UInt16.ofNat (min index (UInt16.size - 1))
    let _ ← request (.setScreenConfig (← get).root currentTime info.configTimestamp size
      info.rotation 0)
    return ()
  | .pollEvent => do
    let event ← converse Connection.nextEvent
    return event.map (Event.meaning (← get).root)
  -- A request is on its way as soon as it is made.
  | .flush => return ()
  | .sync => request .sync

instance : Display (Client κ) where
  perform call client := (exchange call).run client
  proxyWindow := window
  maxRequestBytes client := (Connection.requestLimit client.connection).1
  hasRandr := hasRandr
  backlog client := Connection.received client.connection

end Client

end ClipboardRelay.X11
