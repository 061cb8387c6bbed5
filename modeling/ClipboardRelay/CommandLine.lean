import ClipboardRelay.Relay.Notice
/-!
The command line of the relay. Options come in long and in short form, short ones also in clusters.
A value may follow its option, or be attached to it. An option that waits for its value gets it from
the next argument that does not look like an option, and is settled only when the next option
starts. This decides which of several mistakes is reported.
-/

namespace ClipboardRelay.CommandLine

structure Options where
  display : Option String := none
  socket : String := "/run/x11-selection-bridge/agent.sock"
  verbose : Nat := 0
  deriving DecidableEq, Repr

/-- Why there are no options. Asking for help or for the version counts. -/
inductive Problem where
  | unknownArgument
  | invalidValue
  | argumentConflict
  | tooManyValues
  | displayHelp
  | displayVersion
  deriving DecidableEq, Repr

inductive Setting where
  | display
  | socket
  deriving DecidableEq, Repr

inductive Flag where
  | verbose
  | help
  | version
  deriving DecidableEq, Repr

inductive Switch where
  | setting (setting : Setting)
  | flag (flag : Flag)
  deriving DecidableEq, Repr

namespace Switch

def ofLong? : String → Option Switch
  | "display" => some (setting .display)
  | "socket" => some (setting .socket)
  | "verbose" => some (flag .verbose)
  | "help" => some (flag .help)
  | "version" => some (flag .version)
  | _ => none

def ofShort? : Char → Option Switch
  | 'd' => some (setting .display)
  | 's' => some (setting .socket)
  | 'v' => some (flag .verbose)
  | 'h' => some (flag .help)
  | 'V' => some (flag .version)
  | _ => none

end Switch

structure Progress where
  display : Option String := none
  socket : Option String := none
  verbose : Nat := 0
  pending : Option (Setting × Option String) := none
  closed : Bool := false
  deriving DecidableEq, Repr

def maxVerbose : Nat := 255

namespace Progress

def assign (progress : Progress) (setting : Setting) (value : String) : Except Problem Progress :=
  match setting with
  | .display =>
    if progress.display.isSome then .error .argumentConflict
    else .ok { progress with display := some value }
  | .socket =>
    if progress.socket.isSome then .error .argumentConflict
    else if value.isEmpty then .error .invalidValue
    else .ok { progress with socket := some value }

def settle (progress : Progress) : Except Problem Progress :=
  match progress.pending with
  | none => .ok progress
  | some (_, none) => .error .invalidValue
  | some (setting, some value) => { progress with pending := none }.assign setting value

def raise (progress : Progress) (flag : Flag) : Except Problem Progress := do
  let progress ← progress.settle
  match flag with
  | .verbose => return { progress with verbose := min (progress.verbose + 1) maxVerbose }
  | .help => .error .displayHelp
  | .version => .error .displayVersion

def start (progress : Progress) (setting : Setting) (attached : Option String) :
    Except Problem Progress := do
  let progress ← progress.settle
  match attached with
  | some value => progress.assign setting value
  | none => return { progress with pending := some (setting, none) }

def readLong (progress : Progress) (chars : List Char) : Except Problem Progress :=
  let name := String.ofList (chars.takeWhile (· ≠ '='))
  let attached := match chars.dropWhile (· ≠ '=') with
    | [] => none
    | _ :: value => some (String.ofList value)
  match Switch.ofLong? name with
  | none => .error .unknownArgument
  | some (.setting setting) => progress.start setting attached
  | some (.flag flag) =>
    if attached.isSome then .error .tooManyValues else progress.raise flag

/-- Reads a cluster of short options without its dash. What follows an option with a value is its
value, and an equals sign between them is left out. -/
def readShort (progress : Progress) : List Char → Except Problem Progress
  | [] => .ok progress
  | char :: rest =>
    match Switch.ofShort? char with
    | none => .error .unknownArgument
    | some (.flag flag) => do readShort (← progress.raise flag) rest
    | some (.setting setting) =>
      match rest with
      | [] => progress.start setting none
      | '=' :: value => progress.start setting (some (String.ofList value))
      | value => progress.start setting (some (String.ofList value))

def readPlain (progress : Progress) (argument : String) : Except Problem Progress :=
  match progress.pending with
  | some (setting, none) =>
    if progress.closed then .error .unknownArgument
    else .ok { progress with pending := some (setting, some argument) }
  | _ => .error .unknownArgument

def read (progress : Progress) (argument : String) : Except Problem Progress :=
  if progress.closed then progress.readPlain argument
  else
    match argument.toList with
    | ['-', '-'] => .ok { progress with closed := true }
    | '-' :: '-' :: chars => progress.readLong chars
    | ['-'] => progress.readPlain argument
    | '-' :: chars => progress.readShort chars
    | _ => progress.readPlain argument

end Progress

def parse (arguments : List String) : Except Problem Options := do
  let progress ← arguments.foldlM Progress.read {}
  let progress ← progress.settle
  let defaults : Options := {}
  return {
    display := progress.display
    socket := progress.socket.getD defaults.socket
    verbose := progress.verbose }

def Options.level (options : Options) : Level :=
  if options.verbose < 2 then .warn
  else if options.verbose = 2 then .debug
  else .trace

end ClipboardRelay.CommandLine
