import ClipboardRelay.X11.Client
/-!
Making a display out of a connection: the window that the client works through, the extensions, and
the events that it wants to hear of. XFIXES is needed, because it tells who owns a selection. RandR
is not: without it the size of the screen cannot be chosen.
-/

namespace ClipboardRelay.X11.Client

variable {κ : Type} [Connection κ]

def watchSelection (name : String) : Exchange (Client κ) Unit := do
  let selection ← internAtom name
  request (.selectSelectionInput (← get).root selection selectionOwnerMask)

def requireXfixes : Exchange (Client κ) Unit := do
  let missing := Fault.missingExtension "XFIXES" 1
  if ← request (.queryExtension "XFIXES") then
    let version ← request (.queryXfixesVersion { major := 1, minor := 0 })
    if version.major < 1 then throw missing
  else throw missing

def findRandr : Exchange (Client κ) Unit := do
  if ← request (.queryExtension "RANDR") then
    let _ ← request (.queryRandrVersion { major := 1, minor := 1 })
    modify fun client => { client with hasRandr := true }

def setUp : Exchange (Client κ) Unit := do
  let client ← get
  request (.createWindow { window := client.window, parent := client.root })
  requireXfixes
  findRandr
  watchSelection "CLIPBOARD"
  watchSelection "PRIMARY"
  request (.selectInput client.root structureNotifyMask)

def start (connection : κ) : Except (Fault × κ) (Client κ) :=
  let setup := Connection.setup connection
  match setup.roots[setup.screen]? with
  | none => .error (.noScreen setup.screen, connection)
  | some root =>
    match setUp.run { connection, root, window := ⟨setup.firstResource⟩ } with
    | (.error fault, client) => .error (fault, client.connection)
    | (.ok (), client) => .ok client

end ClipboardRelay.X11.Client
