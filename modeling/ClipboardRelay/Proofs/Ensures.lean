import ClipboardRelay.Proofs.History
/-!
What an action does whatever the display answers. `Ensures` runs an action on a relay and a history
alone: a call may be answered with anything, and may fail. Main statement: what it promises holds of
every run in a session, so no law of the display is needed.
-/

namespace ClipboardRelay

namespace Effect

variable {δ : Type}

def Ensures (effect : Effect δ) (post : effect.Answer → Relay → History → Prop)
    (broken : Relay → History → Prop) (relay : Relay) (history : History) : Prop :=
  match effect, post with
  | .current, post => post relay relay history
  | .display, post => ∀ display, post display relay history
  | .update change, post => post () (change relay) history
  | .call asked, post =>
    (∀ answer, post answer relay (history ++ [⟨relay, .called asked answer⟩])) ∧
      ∀ fault, broken relay (history ++ [⟨relay, .failed asked fault⟩])
  | .send messages, post =>
    post () relay (history ++ messages.map fun message => ⟨relay, .sent message⟩)
  | .note notices, post =>
    post () relay (history ++ notices.map fun notice => ⟨relay, .noted notice⟩)

end Effect

namespace Action

variable {δ : Type} {α β : Type}

/-- `post` holds at the end of the action, or `broken` where a call fails. -/
def Ensures (post : α → Relay → History → Prop) (broken : Relay → History → Prop) :
    Action δ α → Relay → History → Prop
  | done value, relay, history => post value relay history
  | step effect next, relay, history =>
    effect.Ensures (fun answer => (next answer).Ensures post broken) broken relay history

variable {post : α → Relay → History → Prop} {broken : Relay → History → Prop}
  {relay : Relay} {history : History}

@[simp] theorem ensures_pure (value : α) :
    (pure value : Action δ α).Ensures post broken relay history ↔ post value relay history :=
  Iff.rfl

@[simp] theorem ensures_bind {post : β → Relay → History → Prop} (first : Action δ α)
    (rest : α → Action δ β) :
    (first >>= rest).Ensures post broken relay history ↔
      first.Ensures (fun value => (rest value).Ensures post broken) broken relay history := by
  change (first.bind rest).Ensures post broken relay history ↔ _
  induction first generalizing relay history with
  | done value => rfl
  | step effect next ih =>
    have hnext : (fun answer => ((next answer).bind rest).Ensures post broken) =
        fun answer => (next answer).Ensures (fun value => (rest value).Ensures post broken)
          broken := by
      funext answer relay history
      exact propext (ih answer)
    simp only [bind, Ensures, hnext]

end Action

namespace Relay

variable {δ : Type} {broken : Relay → History → Prop} {relay : Relay} {history : History}

open ClipboardRelay.Action (Ensures)

@[simp] theorem ensures_current {post : Relay → Relay → History → Prop} :
    Ensures post broken (current : Action δ Relay) relay history ↔ post relay relay history :=
  Iff.rfl

@[simp] theorem ensures_display {post : δ → Relay → History → Prop} :
    Ensures post broken (Relay.display : Action δ δ) relay history ↔
      ∀ display, post display relay history :=
  Iff.rfl

@[simp] theorem ensures_update {post : Unit → Relay → History → Prop} (change : Relay → Relay) :
    Ensures post broken (update change : Action δ Unit) relay history ↔
      post () (change relay) history :=
  Iff.rfl

@[simp] theorem ensures_call (asked : Call) {post : asked.Answer → Relay → History → Prop} :
    Ensures post broken (Relay.call asked : Action δ asked.Answer) relay history ↔
      (∀ answer, post answer relay (history ++ [⟨relay, .called asked answer⟩])) ∧
        ∀ fault, broken relay (history ++ [⟨relay, .failed asked fault⟩]) :=
  Iff.rfl

/-- A call in front of other effects. The answer's type depends on the call, so this is applied
rather than rewritten with. -/
theorem ensures_call_bind {α : Type} {asked : Call} {post : α → Relay → History → Prop}
    {rest : asked.Answer → Action δ α}
    (hanswer : ∀ answer, (rest answer).Ensures post broken relay
      (history ++ [⟨relay, .called asked answer⟩]))
    (hfault : ∀ fault, broken relay (history ++ [⟨relay, .failed asked fault⟩])) :
    Ensures post broken (Relay.call asked >>= rest : Action δ α) relay history :=
  ⟨hanswer, hfault⟩

@[simp] theorem ensures_noteAll {post : Unit → Relay → History → Prop} (notices : List Notice) :
    Ensures post broken (noteAll notices : Action δ Unit) relay history ↔
      post () relay (history ++ notices.map fun notice => ⟨relay, .noted notice⟩) :=
  Iff.rfl

@[simp] theorem ensures_note {post : Unit → Relay → History → Prop} (notice : Notice) :
    Ensures post broken (note notice : Action δ Unit) relay history ↔
      post () relay (history ++ [⟨relay, .noted notice⟩]) :=
  Iff.rfl

@[simp] theorem ensures_remark {post : Unit → Relay → History → Prop} (selection : Selection)
    (what : Remark) :
    Ensures post broken (remark selection what : Action δ Unit) relay history ↔
      post () relay (history ++ [⟨relay, .noted (.about selection what)⟩]) :=
  Iff.rfl

@[simp] theorem ensures_sendAll {post : Unit → Relay → History → Prop}
    (messages : List Wire.Message) :
    Ensures post broken (sendAll messages : Action δ Unit) relay history ↔
      post () relay (history ++ messages.map fun message => ⟨relay, .sent message⟩) :=
  Iff.rfl

@[simp] theorem ensures_send {post : Unit → Relay → History → Prop} (message : Wire.Message) :
    Ensures post broken (send message : Action δ Unit) relay history ↔
      post () relay (history ++ [⟨relay, .sent message⟩]) :=
  Iff.rfl

end Relay

namespace Action

variable {δ : Type} {α : Type} {post : α → Relay → History → Prop}
  {broken : Relay → History → Prop} {relay : Relay} {history : History}

theorem Ensures.mono {weaker : α → Relay → History → Prop} {brokenAfter : Relay → History → Prop}
    {action : Action δ α} (h : action.Ensures post broken relay history)
    (hpost : ∀ value relay history, post value relay history → weaker value relay history)
    (hbroken : ∀ relay history, broken relay history → brokenAfter relay history) :
    action.Ensures weaker brokenAfter relay history := by
  induction action generalizing relay history with
  | done value => exact hpost value relay history h
  | step effect next ih =>
    cases effect with
    | current => exact ih _ h
    | display => exact fun display => ih _ (h display)
    | update change => exact ih _ h
    | call asked => exact ⟨fun answer => ih _ (h.1 answer), fun fault => hbroken _ _ (h.2 fault)⟩
    | send messages => exact ih _ h
    | note notices => exact ih _ h

theorem Ensures.and {other : α → Relay → History → Prop} {brokenToo : Relay → History → Prop}
    {action : Action δ α} (h : action.Ensures post broken relay history)
    (hother : action.Ensures other brokenToo relay history) :
    action.Ensures (fun value relay history => post value relay history ∧ other value relay history)
      (fun relay history => broken relay history ∧ brokenToo relay history) relay history := by
  induction action generalizing relay history with
  | done value => exact ⟨h, hother⟩
  | step effect next ih =>
    cases effect with
    | current => exact ih _ h hother
    | display => exact fun display => ih _ (h display) (hother display)
    | update change => exact ih _ h hother
    | call asked =>
      exact ⟨fun answer => ih _ (h.1 answer) (hother.1 answer),
        fun fault => ⟨h.2 fault, hother.2 fault⟩⟩
    | send messages => exact ih _ h hother
    | note notices => exact ih _ h hother

theorem Ensures.run [Display δ] {action : Action δ α} (session : Session δ)
    (h : action.Ensures post broken session.relay history) :
    match action.run session with
    | (.ok value, after) => post value after.relay (history ++ action.history session)
    | (.error _, after) => broken after.relay (history ++ action.history session) := by
  induction action generalizing session history with
  | done value =>
    simp only [Action.run, Action.history, List.append_nil]
    exact h
  | step effect next ih =>
    simp only [Action.run, Action.history]
    cases effect with
    | current => exact ih _ session h
    | display => exact ih _ session (h session.display)
    | update change => exact ih () { session with relay := change session.relay } h
    | call asked =>
      simp only [Effect.perform, Effect.moments]
      rcases hperform : Display.perform asked session.display with ⟨fault | answer, after⟩
      · exact h.2 fault
      · rw [← List.append_assoc]
        exact ih answer { session with display := after } (h.1 answer)
    | send messages =>
      rw [← List.append_assoc]
      exact ih () { session with outbox := session.outbox ++ messages } h
    | note notices =>
      rw [← List.append_assoc]
      exact ih () { session with notices := session.notices ++ notices } h

theorem Ensures.run_anyhow [Display δ] {action : Action δ α} {holds : Relay → History → Prop}
    (session : Session δ) (h : action.Ensures (fun _ => holds) holds session.relay history) :
    holds (action.run session).2.relay (history ++ action.history session) := by
  have ended := h.run session
  rcases hrun : action.run session with ⟨fault | value, after⟩ <;> rwa [hrun] at ended

end Action

end ClipboardRelay
