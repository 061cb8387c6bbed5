import ClipboardRelay.CommandLine
import ClipboardRelay.Memory.Display
import ClipboardRelay.Relay.Intake
import ClipboardRelay.Relay.Opening
/-!
The relay as a program. The agent's requests come in on standard input, and the messages for it go
out on standard output. The desktop is one in memory, which no application uses.
-/

namespace ClipboardRelay.Program

def usage : String :=
  "Usage: clipboard-relay [--display DISPLAY] [--socket PATH] [--verbose]..."

def report (level : Level) (session : Session Memory.Display) : IO (Session Memory.Display) := do
  let (notices, session) := session.takeNotices
  for notice in notices do
    if notice.level.within level then
      IO.eprintln (notice.line session.display.atoms.label)
  let (messages, session) := session.takeMessages
  let output ← IO.getStdout
  output.write (ByteArray.mk (Wire.Message.encodeAll messages).toArray)
  output.flush
  return session

partial def converse (level : Level) (buffer : Bytes) (session : Session Memory.Display) :
    IO (Except Fault (Session Memory.Display)) := do
  let input ← IO.getStdin
  let chunk ← input.read (USize.ofNat (max 1 (Wire.Frame.missing buffer)))
  if chunk.isEmpty then return .ok session
  let intake := session.feed (buffer ++ chunk.toList)
  let session ← report level intake.session
  match intake.outcome with
  | .error fault => return .error fault
  | .ok () => converse level intake.rest session

def fail (fault : Fault) : IO UInt32 := do
  IO.eprintln s!"Error: {fault.message}"
  return 1

def serve (options : CommandLine.Options) : IO UInt32 := do
  match Session.opening ({} : Memory.Display) with
  | .failed fault .. => fail fault
  | .opened session =>
    let session ← report options.level session
    match ← converse options.level [] session with
    | .error fault => fail fault
    | .ok session =>
      let (outcome, session) := Relay.shutdown.run session
      let _ ← report options.level session
      match outcome with
      | .error fault => fail fault
      | .ok () => return 0

def run (arguments : List String) : IO UInt32 := do
  match CommandLine.parse arguments with
  | .ok options => serve options
  | .error .displayHelp =>
    IO.println usage
    return 0
  | .error .displayVersion =>
    IO.println "clipboard-relay 0.1.0"
    return 0
  | .error _ =>
    IO.eprintln usage
    return 2

end ClipboardRelay.Program

def main (arguments : List String) : IO UInt32 :=
  ClipboardRelay.Program.run arguments
