import ClipboardRelay.Display.Event
import ClipboardRelay.Display.Fault
import ClipboardRelay.Display.Property
/-!
What the relay asks of a display. A display is any type of states that can perform calls: each call
gives an answer or a fault, and leaves a state in both cases. No law is part of `Display`, so what
is proved for every display holds for one that fails at any point.
-/

namespace ClipboardRelay

inductive Call where
  | internAtom (name : String)
  | setSelectionOwner (selection : Atom) (owner : Window)
  | convertSelection (selection target property : Atom)
  | getProperty (window : Window) (property : Atom) (delete : Bool)
  | deleteProperty (window : Window) (property : Atom)
  | changeProperty (window : Window) (property type : Atom) (content : Content)
  | watchProperties (window : Window)
  | notifyRequestor (request : SelectionRequest) (property : Atom)
  | rootSize
  | screenSizes
  | setScreenSize (index : Nat)
  | pollEvent
  | flush
  | sync
  deriving DecidableEq, Repr

namespace Call

abbrev Answer : Call → Type
  | internAtom _ => Atom
  | getProperty .. => Option Property
  | rootSize => ScreenSize
  | screenSizes => List ScreenSize
  | pollEvent => Option Event
  | _ => Unit

end Call

class Display (δ : Type) where
  perform : (call : Call) → δ → Except Fault call.Answer × δ
  proxyWindow : δ → Window
  maxRequestBytes : δ → Nat
  hasRandr : δ → Bool
  /-- A bound on the events that can be polled, as long as no call changes an owner, resizes the
  screen or waits for the display. -/
  backlog : δ → Nat

/-- A conversation with a display. A fault ends it and keeps the state that the display is in. -/
abbrev Exchange (δ : Type) := ExceptT Fault (StateM δ)

namespace Exchange

variable {δ : Type} [Display δ]

def call (call : Call) : Exchange δ call.Answer :=
  ExceptT.mk fun display => Display.perform call display

omit [Display δ] in
theorem exists_of_run_bind {α β : Type} {first : Exchange δ α} {rest : α → Exchange δ β}
    {display after : δ} {value : β} (h : (first >>= rest).run display = (.ok value, after)) :
    ∃ middle between, first.run display = (.ok middle, between) ∧
      (rest middle).run between = (.ok value, after) := by
  have hrun : (first >>= rest).run display = match first.run display with
      | (.ok middle, between) => (rest middle).run between
      | (.error fault, between) => (.error fault, between) := by
    simp only [ExceptT.run, bind, ExceptT.bind, ExceptT.mk, StateT.bind, ExceptT.bindCont]
    rcases first display with ⟨fault | middle, between⟩ <;> rfl
  rw [hrun] at h
  rcases hfirst : first.run display with ⟨fault | middle, between⟩
  · rw [hfirst] at h
    cases h
  · rw [hfirst] at h
    exact ⟨middle, between, rfl, h⟩

end Exchange

end ClipboardRelay
