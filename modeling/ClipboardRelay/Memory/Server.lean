import ClipboardRelay.Memory.AtomTable
import ClipboardRelay.Memory.FailureRule
import ClipboardRelay.Memory.PropertyStore
import ClipboardRelay.X11.Connection
import ClipboardRelay.X11.DisplayName
/-!
An X server that lives in memory. It knows atoms, stores properties, hands out the events that it was
given, keeps a log of the requests, and fails or hangs up when it was told to.
-/

namespace ClipboardRelay.Memory

open X11 (Request Version)

/-- How a request fails: with an error of a code, or because the server hangs up. -/
inductive Mishap where
  | error (code : UInt8)
  | hangUp
  deriving DecidableEq, Repr

structure Server where
  accepts : Bool := true
  /-- The root window of the first screen. Those of the others follow in steps of a thousand. -/
  root : UInt32 := 487
  screens : Nat := 1
  rootSize : ScreenSize := { width := 1024, height := 768 }
  xfixes : Option Version := some { major := 5, minor := 0 }
  randr : Option Version := some { major := 1, minor := 5 }
  maxRequest : Nat := 65535
  bigRequests : Option Nat := none
  atoms : AtomTable := {}
  /-- Atoms whose names are not what the table says. -/
  rawNames : List (Atom × Bytes) := []
  screenInfo : X11.ScreenInfo := { sizes := [], rotation := 1, configTimestamp := 55 }
  setStatus : UInt8 := 0
  rules : List (FailureRule Request.Kind Mishap) := []
  properties : PropertyStore := {}
  events : List X11.Event := []
  log : List Request := []
  hungUp : Bool := false

namespace Server

def firstResource : UInt32 := 0x200000

def enqueue (server : Server) (events : List X11.Event) : Server :=
  { server with events := server.events ++ events }

def roots (server : Server) : List Window :=
  (List.range server.screens).map fun screen => ⟨server.root + 1000 * UInt32.ofNat screen⟩

def extension? (server : Server) (name : String) : Option Version :=
  if name = "XFIXES" then server.xfixes
  else if name = "RANDR" then server.randr
  else none

def nameOf? (server : Server) (atom : Atom) : Option Bytes :=
  match server.rawNames.lookup atom with
  | some bytes => some bytes
  | none => (server.atoms.name? atom).map (·.toUTF8.toList)

def reply : (request : Request) → Server → Except Fault request.Reply × Server
  | .queryExtension name, server => (.ok (server.extension? name).isSome, server)
  | .queryXfixesVersion wanted, server => (.ok (server.xfixes.getD wanted), server)
  | .queryRandrVersion wanted, server => (.ok (server.randr.getD wanted), server)
  | .internAtom _ name, server =>
    let (atom, atoms) := server.atoms.intern name
    (.ok atom, { server with atoms })
  | .getAtomName atom, server =>
    match server.nameOf? atom with
    | some name => (.ok name, server)
    | none => (.error .reply, server)
  | .getProperty delete window name _ _ _, server =>
    let property := (server.properties.get? window name).getD
      { type := Atom.null, format := 0, value := [] }
    (.ok property.wholeItems, if delete then
      { server with properties := server.properties.erase window name } else server)
  | .deleteProperty window name, server =>
    (.ok (), { server with properties := server.properties.erase window name })
  | .changeProperty _ window name type content, server =>
    (.ok (), { server with
      properties := server.properties.insert window name (content.toProperty type) })
  | .getGeometry _, server => (.ok server.rootSize, server)
  | .getScreenInfo _, server => (.ok server.screenInfo, server)
  | .setScreenConfig .., server => (.ok server.setStatus, server)
  | .createWindow _, server | .selectSelectionInput .., server | .selectInput .., server
  | .setSelectionOwner .., server | .convertSelection .., server | .sendNotify .., server
  | .sync, server => (.ok (), server)

/-- What the client sees of a request that the server did not answer. Only requests with a reply
are waited for. -/
def unanswered : (request : Request) → Except Fault request.Reply
  | .queryExtension _ => .error .connection
  | .queryXfixesVersion _ | .queryRandrVersion _ | .internAtom .. | .getAtomName _
  | .getProperty .. | .getGeometry _ | .getScreenInfo _ | .setScreenConfig .. | .sync =>
    .error .reply
  | .createWindow _ | .selectSelectionInput .. | .selectInput .. | .setSelectionOwner ..
  | .convertSelection .. | .deleteProperty .. | .changeProperty .. | .sendNotify .. => .ok ()

def submit (request : Request) (server : Server) : Except Fault request.Reply × Server :=
  if server.hungUp then (unanswered request, server)
  else
    let (mishap, rules) := FailureRule.consult request.kind server.rules
    let server := { server with rules, log := server.log ++ [request] }
    match mishap with
    | none => reply request server
    | some .hangUp => (unanswered request, { server with hungUp := true })
    | some (.error code) =>
      match unanswered request with
      | .error fault => (.error fault, server)
      | .ok reply => (.ok reply, server.enqueue [.error code])

def poll (server : Server) : Except Fault (Option X11.Event) × Server :=
  match server.events with
  | event :: events => (.ok (some event), { server with events })
  | [] => if server.hungUp then (.error .connection, server) else (.ok none, server)

def takeLog (server : Server) : List Request × Server :=
  (server.log, { server with log := [] })

end Server

structure ServerConnection where
  server : Server
  setup : X11.Setup
  maxRequest : Nat
  knownLimit : Option Nat := none

namespace Server

def connect (server : Server) (ending : String) : Except Fault ServerConnection :=
  match X11.DisplayName.screen? ending with
  | none => .error .connect
  | some screen =>
    if server.accepts && screen < server.screens then
      .ok {
        server
        setup := { roots := server.roots, screen, firstResource }
        maxRequest := server.maxRequest }
    else .error .connect

end Server

namespace ServerConnection

/-- The longest request in bytes. A server that hung up before it was asked cannot tell of long
ones. -/
def requestLimit (connection : ServerConnection) : Nat × ServerConnection :=
  match connection.knownLimit with
  | some limit => (limit, connection)
  | none =>
    let big := if connection.server.hungUp then none else connection.server.bigRequests
    let limit := 4 * big.getD connection.maxRequest
    (limit, { connection with knownLimit := some limit })

instance : X11.Connection ServerConnection where
  setup := setup
  submit request connection :=
    let (reply, server) := connection.server.submit request
    (reply, { connection with server })
  poll connection :=
    let (event, server) := connection.server.poll
    (event, { connection with server })
  received connection := connection.server.events.length + connection.server.rules.length
  requestLimit := requestLimit

end ServerConnection

end ClipboardRelay.Memory
