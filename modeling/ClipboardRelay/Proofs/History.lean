import ClipboardRelay.Relay.Operation
/-!
What a session does, as data: the operations it was asked for, its calls with their answers, its
messages and notices, in their order. Each entry keeps the relay as it was then. Main statements:
the messages of a history are those that reach the outbox, and an action faults exactly if its
history ends with a call that failed.
-/

namespace ClipboardRelay

inductive Operation where
  | grab (selection : Selection) (types : List ContentType)
  | release (selection : Selection)
  | ask (selection : Selection) (type : ContentType)
  | supply (selection : Selection) (type : ContentType) (data : Bytes)
  | applyMonitors (layout : MonitorLayout)
  | shutdown
  | dispatch
  | fulfil (request : Wire.Request)

namespace Operation

variable {δ : Type} [Display δ]

def action : Operation → Action δ Unit
  | grab selection types => Relay.grab selection types
  | release selection => Relay.release selection
  | ask selection type => Relay.ask selection type
  | supply selection type data => Relay.supply selection type data
  | applyMonitors layout => Relay.applyMonitors layout
  | shutdown => Relay.shutdown
  | dispatch => Relay.dispatch
  | fulfil request => Relay.fulfil request

def question? : Operation → Option (Selection × ContentType)
  | ask selection type | fulfil (.ask selection type) => some (selection, type)
  | _ => none

def grab? : Operation → Option (Selection × List ContentType)
  | grab selection types | fulfil (.grab selection types) => some (selection, types)
  | _ => none

end Operation

inductive Deed where
  | began (operation : Operation)
  | called (call : Call) (answer : call.Answer)
  | failed (call : Call) (fault : Fault)
  | sent (message : Wire.Message)
  | noted (notice : Notice)

def Deed.isFault : Deed → Bool
  | failed .. => true
  | _ => false

/-- Something that was done, and the relay at that time. -/
structure Moment where
  relay : Relay
  deed : Deed

abbrev History := List Moment

namespace History

def faultless (history : History) : Bool :=
  history.all fun moment => !moment.deed.isFault

def messages (history : History) : List Wire.Message :=
  history.filterMap fun moment =>
    match moment.deed with
    | .sent message => some message
    | _ => none

@[simp] theorem faultless_append (first second : History) :
    (first ++ second).faultless = (first.faultless && second.faultless) :=
  List.all_append

@[simp] theorem messages_append (first second : History) :
    (first ++ second).messages = first.messages ++ second.messages :=
  List.filterMap_append

theorem split_append {history added before rest : History} {moment : Moment}
    (h : history ++ added = before ++ moment :: rest) :
    (∃ middle, history = before ++ moment :: middle ∧ rest = middle ++ added) ∨
      ∃ middle, before = history ++ middle ∧ added = middle ++ moment :: rest := by
  rcases List.append_eq_append_iff.mp h with ⟨middle, hbefore, hadded⟩ | ⟨middle, hhistory, hrest⟩
  · exact .inr ⟨middle, hbefore, hadded⟩
  · rcases List.cons_eq_append_iff.mp hrest with ⟨rfl, hadded⟩ | ⟨others, rfl, hothers⟩
    · exact .inr ⟨[], by simpa using hhistory.symm, hadded⟩
    · exact .inl ⟨others, hhistory, hothers⟩

theorem split_at (history : History) (index : Nat) (h : index < history.length) :
    history = history.take index ++ history[index] :: history.drop (index + 1) := by
  rw [← List.drop_eq_getElem_cons h, List.take_append_drop]

/-- Whether every moment of a history fits what was done before. -/
def Always (fits : History → Moment → Prop) (history : History) : Prop :=
  ∀ before moment rest, history = before ++ moment :: rest → fits before moment

namespace Always

variable {fits : History → Moment → Prop} {history added : History}

theorem nil : History.Always fits [] :=
  fun _ _ _ hsplit => by simp at hsplit

theorem concat {moment : Moment} (h : history.Always fits) (hmoment : fits history moment) :
    History.Always fits (history ++ [moment]) := by
  intro before other rest hsplit
  rcases List.eq_nil_or_concat rest with rfl | ⟨rest, last, rfl⟩
  · obtain ⟨rfl, hsame⟩ := List.append_inj' hsplit rfl
    obtain rfl := List.singleton_inj.mp hsame
    exact hmoment
  · rw [List.concat_eq_append, ← List.cons_append, ← List.append_assoc] at hsplit
    exact h before other rest (List.append_inj' hsplit rfl).1

theorem extend (h : history.Always fits)
    (hadded : ∀ middle, ∀ moment ∈ added, fits (history ++ middle) moment) :
    History.Always fits (history ++ added) := by
  intro before moment rest hsplit
  rcases split_append hsplit with ⟨middle, rfl, -⟩ | ⟨middle, rfl, rfl⟩
  · exact h before moment middle rfl
  · exact hadded middle moment (List.mem_append_right _ List.mem_cons_self)

theorem append (h : history.Always fits)
    (hadded : ∀ moment ∈ added, ∀ before, fits before moment) :
    History.Always fits (history ++ added) :=
  h.extend fun _ moment hmoment => hadded moment hmoment _

theorem of_forall (h : ∀ moment ∈ history, ∀ before, fits before moment) : history.Always fits :=
  (append nil h : History.Always fits ([] ++ history))

theorem singleton {moment : Moment} (h : fits [] moment) : History.Always fits [moment] :=
  (concat nil h : History.Always fits ([] ++ [moment]))

theorem iff_forall_lt : history.Always fits ↔
    ∀ (index : Nat) (h : index < history.length), fits (history.take index) history[index] := by
  constructor
  · intro h index hindex
    exact h _ _ _ (History.split_at history index hindex)
  · rintro h before moment rest rfl
    simpa using h before.length (by simp)

instance [∀ before moment, Decidable (fits before moment)] : Decidable (history.Always fits) :=
  decidable_of_iff _ iff_forall_lt.symm

end Always

end History

namespace Effect

variable {δ : Type} [Display δ]

def moments : Effect δ → Session δ → History
  | .call asked, session =>
    match (Display.perform asked session.display).1 with
    | .ok answer => [⟨session.relay, .called asked answer⟩]
    | .error fault => [⟨session.relay, .failed asked fault⟩]
  | .send messages, session => messages.map fun message => ⟨session.relay, .sent message⟩
  | .note notices, session => notices.map fun notice => ⟨session.relay, .noted notice⟩
  | .current, _ | .display, _ | .update _, _ => []

end Effect

namespace Action

variable {δ : Type} [Display δ] {α : Type}

def history : Action δ α → Session δ → History
  | done _, _ => []
  | step effect next, session =>
    effect.moments session ++
      match effect.perform session with
      | (.ok answer, after) => (next answer).history after
      | (.error _, _) => []

/-- What holds when nothing is done, and along every effect that succeeds, holds of an action that
ends well. -/
theorem run_induction (holds : Session δ → History → Session δ → Prop)
    (hdone : ∀ session, holds session [] session)
    (hstep : ∀ {effect : Effect δ} {session between after : Session δ} {answer : effect.Answer}
      {added : History}, effect.perform session = (.ok answer, between) →
        holds between added after → holds session (effect.moments session ++ added) after)
    {action : Action δ α} {session after : Session δ} {value : α}
    (h : action.run session = (.ok value, after)) :
    holds session (action.history session) after := by
  induction action generalizing session with
  | done result =>
    cases h
    exact hdone _
  | step effect next ih =>
    simp only [run, history] at h ⊢
    rcases hperform : effect.perform session with ⟨fault | answer, between⟩
    · rw [hperform] at h
      cases h
    · rw [hperform] at h
      exact hstep hperform (ih answer h)

theorem history_bind {β : Type} (first : Action δ α) (rest : α → Action δ β)
    (session : Session δ) : (first >>= rest).history session =
      first.history session ++
        match first.run session with
        | (.ok value, after) => (rest value).history after
        | (.error _, _) => [] := by
  change (first.bind rest).history session = _
  induction first generalizing session with
  | done value => rfl
  | step effect next ih =>
    simp only [bind, history, run]
    rcases effect.perform session with ⟨fault | answer, after⟩
    · simp
    · dsimp only
      rw [ih answer after, List.append_assoc]

end Action

namespace Effect

variable {δ : Type} [Display δ]

theorem moments_call {asked : Call} {answer : asked.Answer} {session : Session δ} {after : δ}
    (h : Display.perform asked session.display = (.ok answer, after)) :
    (call asked).moments session = [⟨session.relay, .called asked answer⟩] := by
  simp only [moments, h]

theorem outbox_perform (effect : Effect δ) (session : Session δ) :
    (effect.perform session).2.outbox =
      session.outbox ++ History.messages (effect.moments session) := by
  cases effect with
  | current | display | update => simp [perform, moments, History.messages]
  | call asked =>
    simp only [perform, moments]
    cases (Display.perform asked session.display).1 <;> simp [History.messages]
  | send messages => simp [perform, moments, History.messages, List.filterMap_map,
      Function.comp_def]
  | note notices => simp [perform, moments, History.messages, List.filterMap_map,
      Function.comp_def]

theorem faultless_moments (effect : Effect δ) (session : Session δ) :
    History.faultless (effect.moments session) = true ↔
      ∃ answer, (effect.perform session).1 = .ok answer := by
  cases effect with
  | current | display | update => simp [perform, moments, History.faultless]
  | call asked =>
    simp only [perform, moments]
    cases (Display.perform asked session.display).1 <;> simp [History.faultless, Deed.isFault]
  | send messages => simp [perform, moments, History.faultless, Deed.isFault]
  | note notices => simp [perform, moments, History.faultless, Deed.isFault]

theorem not_began_moments (effect : Effect δ) (session : Session δ) :
    ∀ moment ∈ effect.moments session, ∀ operation, moment.deed ≠ .began operation := by
  cases effect with
  | current | display | update => simp [moments]
  | call asked =>
    simp only [moments]
    cases (Display.perform asked session.display).1 <;> simp
  | send messages => simp [moments]
  | note notices => simp [moments]

end Effect

namespace Action

variable {δ : Type} [Display δ] {α : Type}

theorem not_began_history (action : Action δ α) (session : Session δ) :
    ∀ moment ∈ action.history session, ∀ operation, moment.deed ≠ .began operation := by
  induction action generalizing session with
  | done value => simp [history]
  | step effect next ih =>
    intro moment hmoment operation
    rw [history, List.mem_append] at hmoment
    rcases hmoment with h | h
    · exact effect.not_began_moments session moment h operation
    · rcases hperform : effect.perform session with ⟨fault | answer, after⟩
      · simp [hperform] at h
      · rw [hperform] at h
        exact ih answer after moment h operation

theorem outbox_run (action : Action δ α) (session : Session δ) :
    (action.run session).2.outbox =
      session.outbox ++ History.messages (action.history session) := by
  induction action generalizing session with
  | done value => simp [run, history, History.messages]
  | step effect next ih =>
    have houtbox := effect.outbox_perform session
    simp only [run, history, History.messages_append]
    rcases h : effect.perform session with ⟨fault | answer, after⟩
    · rw [h] at houtbox
      simpa only [History.messages, List.filterMap_nil, List.append_nil] using houtbox
    · rw [h] at houtbox
      rw [ih answer after, ← List.append_assoc, ← houtbox]

theorem outbox_run_silent {action : Action δ α} {session : Session δ}
    (h : History.messages (action.history session) = []) :
    (action.run session).2.outbox = session.outbox := by
  rw [outbox_run, h, List.append_nil]

theorem faultless_history (action : Action δ α) (session : Session δ) :
    History.faultless (action.history session) = true ↔
      ∃ value, (action.run session).1 = .ok value := by
  induction action generalizing session with
  | done value => simp [run, history, History.faultless]
  | step effect next ih =>
    have hmoments := effect.faultless_moments session
    simp only [run, history, History.faultless_append, Bool.and_eq_true, hmoments]
    rcases h : effect.perform session with ⟨fault | answer, after⟩
    · simp
    · simp only [ih _ after, Except.ok.injEq, exists_eq', true_and]

end Action

namespace Relay

variable {δ : Type} [Display δ] {α : Type}

theorem history_current_bind (rest : Relay → Action δ α) (session : Session δ) :
    (current >>= rest).history session = (rest session.relay).history session := rfl

theorem history_display_bind (rest : δ → Action δ α) (session : Session δ) :
    (display >>= rest).history session = (rest session.display).history session := rfl

section Calling

variable {asked : Call} {rest : asked.Answer → Action δ α} {session : Session δ}
  {answer : asked.Answer} {fault : Fault} {display : δ}

theorem run_call (h : Display.perform asked session.display = (.ok answer, display)) :
    (call asked).run session = (.ok answer, { session with display }) := by
  rw [call, Action.run_perform, Effect.perform, h]

theorem history_call (h : Display.perform asked session.display = (.ok answer, display)) :
    (call asked).history session = [⟨session.relay, .called asked answer⟩] := by
  simp only [call, Action.perform, Action.history, Effect.moments_call h, Effect.perform, h,
    List.append_nil]

theorem run_call_bind (h : Display.perform asked session.display = (.ok answer, display)) :
    (call asked >>= rest).run session = (rest answer).run { session with display } := by
  rw [Action.run_bind, run_call h]

theorem history_call_bind (h : Display.perform asked session.display = (.ok answer, display)) :
    (call asked >>= rest).history session =
      ⟨session.relay, .called asked answer⟩ :: (rest answer).history { session with display } := by
  rw [Action.history_bind, history_call h, run_call h]
  rfl

theorem run_call_bind_of_fault (h : Display.perform asked session.display = (.error fault, display)) :
    (call asked >>= rest).run session = (.error fault, { session with display }) := by
  rw [Action.run_bind, call, Action.run_perform, Effect.perform, h]

theorem history_call_bind_of_fault
    (h : Display.perform asked session.display = (.error fault, display)) :
    (call asked >>= rest).history session = [⟨session.relay, .failed asked fault⟩] := by
  rw [Action.history_bind, call, Action.run_perform, Effect.perform, h]
  simp only [Action.perform, Action.history, Effect.moments, Effect.perform, h, List.append_nil]

end Calling

end Relay

end ClipboardRelay
