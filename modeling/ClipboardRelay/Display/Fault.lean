/-!
The ways in which the connection to a display fails.
-/

namespace ClipboardRelay

inductive Fault where
  | connect
  | connection
  | reply
  | resourceId
  | noScreen (screen : Nat)
  | missingExtension (name : String) (version : UInt32)
  deriving DecidableEq, Repr

namespace Fault

def message : Fault → String
  | connect => "Couldn't connect to the X server"
  | connection => "X server communication error"
  | reply => "X server request failed"
  | resourceId => "Couldn't allocate an X resource id"
  | noScreen screen => s!"The X server has no screen number {screen}"
  | missingExtension name version =>
    s!"A required X extension ({name} version {version}) is not supported by the server"

end Fault

end ClipboardRelay
