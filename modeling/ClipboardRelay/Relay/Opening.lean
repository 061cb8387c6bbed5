import ClipboardRelay.Relay.Dispatch
/-!
Starting a relay on a display. The agent is told the size of the desktop first.
-/

namespace ClipboardRelay

inductive Opening (δ : Type) where
  | opened (session : Session δ)
  | failed (fault : Fault) (display : δ) (notices : List Notice)

namespace Relay

variable {δ : Type} [Display δ]

def prepare : Exchange δ Relay := do
  let vocabulary ← Vocabulary.intern
  let registry ← Registry.resolve
  let propertyLimit := Incremental.propertyLimit (Display.maxRequestBytes (← get))
  let size ← Exchange.call .rootSize
  return { window := Display.proxyWindow (← get), vocabulary, registry, propertyLimit, size }

def begin : Action δ Unit := do
  reportResolution
  dispatch

end Relay

namespace Session

variable {δ : Type} [Display δ]

def prepared (relay : Relay) (display : δ) : Session δ :=
  { display, relay, notices := [.opened relay.propertyLimit relay.size] }

def opening (display : δ) : Opening δ :=
  match Relay.prepare.run display with
  | (.error fault, display) => .failed fault display []
  | (.ok relay, display) =>
    match Relay.begin.run (prepared relay display) with
    | (.error fault, session) => .failed fault session.display session.notices
    | (.ok (), session) => .opened session

end Session

end ClipboardRelay
