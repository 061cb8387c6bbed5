import ClipboardRelay.Relay.Basic
/-!
The actions that the operations of the relay are made of. An action is a tree of effects: what it
does next depends on what it learned before. A fault of the display ends an action, and everything
that was changed before stays changed.
-/

namespace ClipboardRelay

/-- One thing that an action does. Only a call of the display can fail. -/
inductive Effect (δ : Type) where
  | current
  | display
  | update (change : Relay → Relay)
  | call (asked : Call)
  | send (messages : List Wire.Message)
  | note (notices : List Notice)

namespace Effect

variable {δ : Type}

abbrev Answer : Effect δ → Type
  | .current => Relay
  | .display => δ
  | .call asked => asked.Answer
  | .update _ | .send _ | .note _ => Unit

def perform [Display δ] :
    (effect : Effect δ) → Session δ → Except Fault effect.Answer × Session δ
  | .current, session => (.ok session.relay, session)
  | .display, session => (.ok session.display, session)
  | .update change, session => (.ok (), { session with relay := change session.relay })
  | .call asked, session =>
    let (answer, after) := Display.perform asked session.display
    (answer, { session with display := after })
  | .send messages, session => (.ok (), { session with outbox := session.outbox ++ messages })
  | .note notices, session => (.ok (), { session with notices := session.notices ++ notices })

theorem exists_of_perform_call [Display δ] {asked : Call} {session after : Session δ}
    {answer : asked.Answer} (h : (call asked).perform session = (.ok answer, after)) :
    ∃ display, Display.perform asked session.display = (.ok answer, display) ∧
      after = { session with display } := by
  simp only [perform] at h
  rcases hcall : Display.perform asked session.display with ⟨fault | given, display⟩
  · rw [hcall] at h
    cases h
  · rw [hcall] at h
    cases h
    exact ⟨display, rfl, rfl⟩

end Effect

/-- What the relay does on a display, one effect after the other. -/
inductive Action (δ : Type) (α : Type) where
  | done (value : α)
  | step (effect : Effect δ) (next : effect.Answer → Action δ α)

namespace Action

variable {δ : Type} {α β : Type}

def bind : Action δ α → (α → Action δ β) → Action δ β
  | done value, rest => rest value
  | step effect next, rest => step effect fun answer => (next answer).bind rest

instance : Monad (Action δ) where
  pure := done
  bind := bind

def perform (effect : Effect δ) : Action δ effect.Answer :=
  step effect done

variable [Display δ]

def run : Action δ α → Session δ → Except Fault α × Session δ
  | done value, session => (.ok value, session)
  | step effect next, session =>
    match effect.perform session with
    | (.ok answer, after) => (next answer).run after
    | (.error fault, after) => (.error fault, after)

@[simp] theorem run_pure (value : α) (session : Session δ) :
    (pure value : Action δ α).run session = (.ok value, session) := rfl

theorem run_bind (first : Action δ α) (rest : α → Action δ β) (session : Session δ) :
    (first >>= rest).run session =
      match first.run session with
      | (.ok value, after) => (rest value).run after
      | (.error fault, after) => (.error fault, after) := by
  change (first.bind rest).run session = _
  induction first generalizing session with
  | done value => rfl
  | step effect next ih =>
    simp only [bind, run]
    rcases effect.perform session with ⟨answer | fault, after⟩
    · rfl
    · exact ih _ after

theorem exists_of_run_bind {first : Action δ α} {rest : α → Action δ β} {session after : Session δ}
    {value : β} (h : (first >>= rest).run session = (.ok value, after)) :
    ∃ middle between, first.run session = (.ok middle, between) ∧
      (rest middle).run between = (.ok value, after) := by
  rw [run_bind] at h
  rcases hfirst : first.run session with ⟨fault | middle, between⟩
  · rw [hfirst] at h
    cases h
  · rw [hfirst] at h
    exact ⟨middle, between, rfl, h⟩

theorem run_of_ok {action : Action δ α} {session : Session δ} {value : α}
    (h : (action.run session).1 = .ok value) :
    action.run session = (.ok value, (action.run session).2) := by
  rw [← h]

theorem run_perform (effect : Effect δ) (session : Session δ) :
    (perform effect).run session = effect.perform session := by
  simp only [perform, run]
  rcases effect.perform session with ⟨fault | answer, after⟩ <;> rfl

end Action

namespace Relay

variable {δ : Type}

def current : Action δ Relay :=
  .perform .current

def display : Action δ δ :=
  .perform .display

def update (change : Relay → Relay) : Action δ Unit :=
  .perform (.update change)

def call (call : Call) : Action δ call.Answer :=
  .perform (.call call)

def noteAll (notices : List Notice) : Action δ Unit :=
  .perform (.note notices)

def note (notice : Notice) : Action δ Unit :=
  noteAll [notice]

def remark (selection : Selection) (remark : Remark) : Action δ Unit :=
  note (.about selection remark)

def remarkTargets (selection : Selection) (summary : Nat → Remark) (targets : List Atom) :
    Action δ Unit :=
  noteAll (.about selection (summary targets.length) ::
    targets.map fun target => .about selection (.listed target))

def sendAll (messages : List Wire.Message) : Action δ Unit :=
  .perform (.send messages)

def send (message : Wire.Message) : Action δ Unit :=
  sendAll [message]

variable [Display δ] {α : Type}

theorem run_current_bind (rest : Relay → Action δ α) (session : Session δ) :
    (current >>= rest).run session = (rest session.relay).run session := rfl

theorem run_display_bind (rest : δ → Action δ α) (session : Session δ) :
    (display >>= rest).run session = (rest session.display).run session := rfl

theorem exists_of_run_call {asked : Call} {session after : Session δ} {answer : asked.Answer}
    (h : (call asked).run session = (.ok answer, after)) :
    ∃ display, Display.perform asked session.display = (.ok answer, display) ∧
      after = { session with display } := by
  rw [call, Action.run_perform] at h
  exact Effect.exists_of_perform_call h

end Relay

end ClipboardRelay
