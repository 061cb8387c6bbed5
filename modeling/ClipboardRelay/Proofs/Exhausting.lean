import ClipboardRelay.Proofs.Booking
import ClipboardRelay.Proofs.Releasing
/-!
Handling events until none is left, also where calls fail. The loop is given as a relation without
fuel: it ends when nothing is polled or a call fails. Main statement: where only calls that no
handler makes bring new events, the loop ends in one way, dispatching ends in the same, and each
event that waited is handled once and in order, up to the one in whose handling a call failed.
-/

namespace ClipboardRelay

namespace Call

def brings : Call → Bool
  | setSelectionOwner .. | setScreenSize _ | sync => true
  | _ => false

theorem of_handling {asked : Call}
    (h : ∀ answer, (Deed.called asked answer).isHandling = true) :
    asked.brings = false ∧ asked ≠ .pollEvent := by
  cases asked with
  | setSelectionOwner | setScreenSize | sync => cases h ()
  | pollEvent => cases h none
  | _ => exact ⟨rfl, nofun⟩

end Call

theorem Effect.eq_call_of_mem_calls {δ : Type} [Display δ] {effect : Effect δ} {session : Session δ}
    {asked : Call} (h : asked ∈ History.calls (effect.moments session)) : effect = .call asked := by
  obtain ⟨relay, hmoment⟩ := History.mem_calls h
  cases effect with
  | current | display | update => simp [moments] at hmoment
  | send | note => simp [moments] at hmoment
  | call made =>
    simp only [moments] at hmoment
    split at hmoment <;> simp_all

namespace Action.Spares

variable {δ σ α : Type} [Display δ] {kept : Relay → σ} {apart : Deed → Bool} {action : Action δ α}

theorem of_mem_calls (hspares : action.Spares kept apart) {session : Session δ} {asked : Call}
    (h : asked ∈ History.calls (action.history session)) :
    ∀ answer, apart (.called asked answer) = true := by
  induction action generalizing session with
  | done value => cases h
  | step effect next ih =>
    rw [history, History.calls_append, List.mem_append] at h
    rcases h with hmade | hlater
    · cases Effect.eq_call_of_mem_calls hmade
      exact hspares.1
    · rcases hperform : effect.perform session with ⟨fault | answer, after⟩
      · rw [hperform] at hlater
        cases hlater
      · rw [hperform] at hlater
        exact ih answer (hspares.2 answer) hlater

theorem display_after (hspares : action.Spares kept apart) (related : δ → δ → Prop)
    (hrefl : ∀ display, related display display)
    (htrans : ∀ {first second third}, related first second → related second third →
      related first third)
    (hcall : ∀ {asked : Call} {display}, (∀ answer, apart (.called asked answer) = true) →
      related display (Display.perform asked display).2) (session : Session δ) :
    related session.display (action.run session).2.display := by
  induction action generalizing session with
  | done value => exact hrefl _
  | step effect next ih =>
    have heffect : related session.display (effect.perform session).2.display := by
      have heffect := hspares.1
      cases effect with
      | call asked => exact hcall heffect
      | _ => exact hrefl _
    simp only [run]
    rcases hperform : effect.perform session with ⟨fault | answer, after⟩
    · rw [hperform] at heffect
      exact heffect
    · rw [hperform] at heffect
      exact htrans heffect (ih answer (hspares.2 answer) after)

end Action.Spares

inductive Ending where
  | finished
  | cut (fault : Fault)
  | interrupted (fault : Fault)
  deriving DecidableEq, Repr

def Ending.outcome : Ending → Except Fault Unit
  | finished => .ok ()
  | cut fault | interrupted fault => .error fault

inductive Round where
  | handled (event : Event)
  /-- The loop ends, with an event if the handling of one was what failed. -/
  | ended (last : Option Event) (ending : Ending)

namespace Session

variable {δ : Type} [Display δ]

def round (session : Session δ) : Round × Session δ :=
  match (do Relay.call .flush; Relay.call .pollEvent : Action δ (Option Event)).run session with
  | (.error fault, after) => (.ended none (.cut fault), after)
  | (.ok none, after) => (.ended none .finished, after)
  | (.ok (some event), polled) =>
    match (Relay.handle event).run polled with
    | (.error fault, after) => (.ended (some event) (.interrupted fault), after)
    | (.ok (), after) => (.handled event, after)

/-- Round by round, a session takes these events off its display, until the loop ends. -/
inductive Takes : Session δ → List Event → Ending → Session δ → Prop where
  | last {session after : Session δ} {last : Option Event} {ending : Ending}
    (h : session.round = (.ended last ending, after)) : Takes session last.toList ending after
  | next {session between after : Session δ} {event : Event} {events : List Event}
    {ending : Ending} (h : session.round = (.handled event, between))
    (rest : Takes between events ending after) : Takes session (event :: events) ending after

/-- The loop can end in one way only. -/
theorem Takes.unique {session after last : Session δ} {events others : List Event}
    {ending other : Ending} (h : session.Takes events ending after)
    (hother : session.Takes others other last) :
    others = events ∧ other = ending ∧ last = after := by
  induction h generalizing others with
  | last h =>
    cases hother with
    | last h' =>
      rw [h] at h'
      cases h'
      exact ⟨rfl, rfl, rfl⟩
    | next h' rest =>
      rw [h] at h'
      cases h'
  | next h rest ih =>
    cases hother with
    | last h' =>
      rw [h] at h'
      cases h'
    | next h' rest' =>
      rw [h] at h'
      cases h'
      obtain ⟨rfl, rfl, rfl⟩ := ih rest'
      exact ⟨rfl, rfl, rfl⟩

end Session

namespace Relay

variable {δ : Type}

theorem drain_spares (fuel : Nat) : (drain fuel : Action δ Unit).Spares setting
    fun deed => deed.isPoll || deed.isHandling := by
  have wide (deed : Deed) (h : deed.isHandling = true) :
      (deed.isPoll || deed.isHandling) = true := by
    rw [h, Bool.or_true]
  induction fuel with
  | zero => exact .pure
  | succ fuel ih =>
    refine .bind (spares_call fun _ => rfl) fun _ =>
      .bind (spares_call fun _ => rfl) fun event => ?_
    cases event with
    | none => exact .pure
    | some event =>
      exact .bind ((handle_spares event).mono id (fun _ => rfl) wide) fun _ => ih

variable [Display δ]

theorem run_drain_succ (fuel : Nat) (session : Session δ) :
    (drain (fuel + 1)).run session =
      match session.round with
      | (.handled _, between) => (drain fuel).run between
      | (.ended _ ending, after) => (ending.outcome, after) := by
  rw [drain, Session.round, Action.run_bind, Action.run_bind]
  rcases (call .flush).run session with ⟨fault | _, flushed⟩
  · rfl
  dsimp only
  rw [Action.run_bind]
  rcases (call .pollEvent).run flushed with ⟨fault | ⟨_ | event⟩, polled⟩
  · rfl
  · rfl
  dsimp only
  rw [Action.run_bind]
  rcases (handle event).run polled with ⟨fault | _, handled⟩ <;> rfl

theorem calls_handle {event : Event} {session : Session δ} {asked : Call}
    (h : asked ∈ History.calls ((handle event).history session)) :
    asked.brings = false ∧ asked ≠ .pollEvent :=
  Call.of_handling ((handle_spares event).of_mem_calls h)

theorem calls_dispatch {session : Session δ} {asked : Call}
    (h : asked ∈ History.calls (dispatch.history session)) : asked.brings = false := by
  have hallowed := (drain_spares _).of_mem_calls h
  cases asked with
  | setSelectionOwner | setScreenSize | sync => cases hallowed ()
  | _ => rfl

theorem events_handle (event : Event) (session : Session δ) :
    History.events ((handle event).history session) = [] := by
  refine History.events_quiet fun moment hmoment => ?_
  rcases moment with ⟨relay, deed⟩
  cases deed with
  | called asked answer =>
    have hasked : asked ∈ History.calls ((handle event).history session) :=
      List.mem_filterMap.mpr ⟨_, hmoment, rfl⟩
    have hpoll := (calls_handle hasked).2
    cases asked <;> first | rfl | exact absurd rfl hpoll
  | _ => rfl

theorem events_poll (session : Session δ) :
    History.events ((call .pollEvent).history session) =
      match (call .pollEvent).run session with
      | (.ok event, _) => event.toList
      | (.error _, _) => [] := by
  simp only [call, Action.perform, Action.history, Action.run, Effect.moments, Effect.perform]
  rcases Display.perform .pollEvent session.display with ⟨fault | ⟨_ | event⟩, polled⟩ <;> rfl

theorem events_drain_succ (fuel : Nat) (session : Session δ) :
    History.events ((drain (fuel + 1)).history session) =
      match session.round with
      | (.handled event, between) => event :: History.events ((drain fuel).history between)
      | (.ended last _, _) => last.toList := by
  rw [drain, Session.round, Action.history_bind, Action.run_bind, History.events_append,
    Session.events_history_call fun _ => rfl, List.nil_append]
  rcases (call .flush).run session with ⟨fault | _, flushed⟩
  · rfl
  dsimp only
  rw [Action.history_bind, History.events_append, events_poll]
  rcases (call .pollEvent).run flushed with ⟨fault | ⟨_ | event⟩, polled⟩
  · rfl
  · rfl
  dsimp only
  rw [Action.history_bind, History.events_append, events_handle, List.nil_append]
  rcases (handle event).run polled with ⟨fault | _, handled⟩ <;> rfl

end Relay

/-- What is left of the events that waited when the loop over them ends: none of them if nothing
failed, and those behind the last one if a call failed while that one was handled. Where the next
event could not be asked for, those before it were handled in their order. -/
def Ending.Leaves (ending : Ending) (waited handled left : List Event) : Prop :=
  match ending with
  | finished => handled = waited ∧ left = []
  | cut _ => handled <+: waited
  | interrupted _ => waited = handled ++ left

theorem Ending.Leaves.cons {ending : Ending} {waited handled left : List Event} {event : Event}
    (h : ending.Leaves waited handled left) :
    ending.Leaves (event :: waited) (event :: handled) left := by
  cases ending with
  | finished => exact ⟨congrArg _ h.1, h.2⟩
  | cut => exact (List.prefix_cons_inj event).mpr h
  | interrupted => exact congrArg _ h

namespace EventQueue

variable {δ : Type} [Display δ] {queue : EventQueue δ}

/-- Whether a call that fails leaves alone what waits, unless it is one that new events come from.
What becomes of an event whose poll fails does not matter. -/
def Steady (queue : EventQueue δ) : Prop :=
  ∀ {asked : Call} {fault : Fault} {display after : δ}, asked.brings = false →
    asked ≠ .pollEvent → Display.perform asked display = (.error fault, after) →
      queue.waiting after = queue.waiting display

variable {session after : Session δ} {event : Event}

theorem waiting_perform (calm : queue.Calm) (steady : queue.Steady) {asked : Call} {display : δ}
    (h : ∀ answer, (Deed.called asked answer).isHandling = true) :
    queue.waiting (Display.perform asked display).2 = queue.waiting display := by
  rcases hperform : Display.perform asked display with ⟨fault | answer, after⟩
  · obtain ⟨hbrings, hpoll⟩ := Call.of_handling h
    exact steady hbrings hpoll hperform
  · have hwaiting := calm (.inr (h answer)) hperform
    rw [Call.event?_of_handling (h answer)] at hwaiting
    exact hwaiting.symm

theorem waiting_handle (calm : queue.Calm) (steady : queue.Steady) (event : Event)
    (session : Session δ) :
    queue.waiting ((Relay.handle event).run session).2.display = queue.waiting session.display := by
  apply (Relay.handle_spares event).display_after
    (fun before after => queue.waiting after = queue.waiting before) (fun _ => rfl)
  · exact fun hfirst hrest => hrest.trans hfirst
  · exact waiting_perform calm steady

theorem round_cases (calm : queue.Calm) (steady : queue.Steady) (session : Session δ) :
    match session.round with
    | (.handled event, after) =>
      queue.waiting session.display = event :: queue.waiting after.display ∧
        Display.backlog after.display < Display.backlog session.display
    | (.ended last ending, after) =>
      ending.Leaves (queue.waiting session.display) last.toList (queue.waiting after.display) := by
  rw [Session.round, Action.run_bind]
  rcases hflush : (Relay.call .flush).run session with ⟨fault | _, flushed⟩
  · exact List.nil_prefix
  obtain ⟨between, hflushed, rfl⟩ := Relay.exists_of_run_call hflush
  have hsame : queue.waiting session.display = queue.waiting between := calm (.inr rfl) hflushed
  dsimp only
  rcases hpoll : (Relay.call .pollEvent).run { session with display := between } with
    ⟨fault | event, polled⟩
  · exact List.nil_prefix
  obtain ⟨shorter, hpolled, rfl⟩ := Relay.exists_of_run_call hpoll
  have hwaiting := hsame.trans (calm (.inl rfl) hpolled)
  cases event with
  | none =>
    have hnone := queue.found hpolled
    rw [hnone] at hwaiting
    exact ⟨hwaiting.symm, hnone⟩
  | some event =>
    have hkept := waiting_handle calm steady event { session with display := shorter }
    dsimp only
    rcases hhandle : (Relay.handle event).run { session with display := shorter } with
      ⟨fault | _, handled⟩
    all_goals rw [hhandle] at hkept
    · exact hwaiting.trans (congrArg (event :: ·) hkept.symm)
    · have hflushedLess := queue.bounded rfl hflushed
      have hless := queue.counted hpolled
      have hmore := queue.backlog_run_le (Relay.handle_spares event) hhandle
      dsimp only at hless hmore ⊢
      exact ⟨hwaiting.trans (congrArg (event :: ·) hkept.symm), by omega⟩

/-- The loop comes to an end, draining comes to the same with fuel for the whole backlog, and what
waited was taken in its order. -/
theorem drain_takes (calm : queue.Calm) (steady : queue.Steady) {fuel : Nat} {session : Session δ}
    (hfuel : Display.backlog session.display < fuel) :
    ∃ events ending after, session.Takes events ending after ∧
      (Relay.drain fuel).run session = (ending.outcome, after) ∧
      History.events ((Relay.drain fuel).history session) = events ∧
      ending.Leaves (queue.waiting session.display) events (queue.waiting after.display) := by
  induction fuel generalizing session with
  | zero => omega
  | succ fuel ih =>
    have hcases := round_cases calm steady session
    rw [Relay.run_drain_succ, Relay.events_drain_succ]
    rcases hround : session.round with ⟨event | ⟨last, ending⟩, between⟩
    · rw [hround] at hcases
      obtain ⟨hwaiting, hless⟩ := hcases
      have hfuel : Display.backlog between.display < fuel := by omega
      obtain ⟨events, ending, after, htakes, hrun, hevents, hleaves⟩ := ih hfuel
      rw [hwaiting]
      exact ⟨event :: events, ending, after, .next hround htakes, hrun, congrArg _ hevents,
        hleaves.cons⟩
    · rw [hround] at hcases
      exact ⟨last.toList, ending, between, .last hround, rfl, rfl, hcases⟩

end EventQueue

theorem Memory.Display.queue_steady : queue.Steady := by
  intro asked fault display after _ _ h
  change Memory.Display.perform asked display = _ at h
  unfold Memory.Display.perform at h
  split at h <;> cases h
  rfl

/-- Dispatching ends in every session, whatever its display, where new events come only from three
kinds of calls, and ends as the loop does that goes on for as long as there are events. If no call
fails, exactly the events that waited are handled, each once and in order. If a call fails while one
of them is handled, dispatching ends with this fault, and exactly the events behind that one still
wait. For no handler makes a call of these kinds, whatever event it handles and whatever fails. -/
theorem Session.dispatch_handles_each_once {δ : Type} [Display δ] {queue : EventQueue δ}
    (calm : queue.Calm) (steady : queue.Steady) (session : Session δ) :
    (∃ events ending after, session.Takes events ending after ∧
      (∀ others other last, session.Takes others other last →
        others = events ∧ other = ending ∧ last = after) ∧
      Relay.dispatch.run session = (ending.outcome, after) ∧
      History.events (Relay.dispatch.history session) = events ∧
      (History.faultless (Relay.dispatch.history session) = true ↔ ending = .finished) ∧
      ending.Leaves (queue.waiting session.display) events (queue.waiting after.display)) ∧
    ∀ (event : Event) (other : Session δ),
      ∀ asked ∈ History.calls ((Relay.handle event).history other), asked.brings = false := by
  obtain ⟨events, ending, after, htakes, hrun, hevents, hleaves⟩ :=
    EventQueue.drain_takes calm steady (Nat.lt_succ_self (Display.backlog session.display))
  have hfaultless : History.faultless (Relay.dispatch.history session) = true ↔
      ending = .finished := by
    have hdispatch : (Relay.dispatch.run session).1 = ending.outcome := congrArg Prod.fst hrun
    rw [Action.faultless_history, hdispatch]
    cases ending <;> simp [Ending.outcome]
  exact ⟨⟨events, ending, after, htakes, fun _ _ _ => htakes.unique, hrun, hevents, hfaultless,
    hleaves⟩, fun event other asked hasked => (Relay.calls_handle hasked).1⟩

/-- The screen was resized, an application took the clipboard, and the keyboard changed. The next
question for what an owner offers fails. -/
def Course.unasked : List (Move Memory.Display) :=
  [.elapse {
    events := [.rootResized ⟨800, 600⟩, .ownerChanged ⟨100⟩ ⟨42⟩, .mappingChanged]
    rules := [{ kind := .convertSelection, failure := .connection }] }]

theorem Session.dispatch_handles_each_once_unasked :
    ∃ course, Course.start ({} : Memory.Display) = some course ∧
      ∃ ending after, (course.after Course.unasked).session.Takes
          [.rootResized ⟨800, 600⟩, .ownerChanged ⟨100⟩ ⟨42⟩] ending after ∧
        Relay.dispatch.run (course.after Course.unasked).session = (.error .connection, after) ∧
        after.display.events = [.mappingChanged] := by
  have hstart : Course.start ({} : Memory.Display) =
      some ((Course.start {}).get (by decide +kernel)) := (Option.some_get _).symm
  obtain ⟨⟨events, ending, after, htakes, -, hrun, hevents, -⟩, -⟩ :=
    dispatch_handles_each_once Memory.Display.queue_calm Memory.Display.queue_steady
      (((Course.start ({} : Memory.Display)).get (by decide +kernel)).after Course.unasked).session
  have hpolled : events = [.rootResized ⟨800, 600⟩, .ownerChanged ⟨100⟩ ⟨42⟩] :=
    hevents.symm.trans (by decide +kernel)
  have hfault : ending.outcome = .error .connection :=
    (congrArg Prod.fst hrun).symm.trans (by decide +kernel)
  have hleft : after.display.events = [.mappingChanged] := by
    obtain rfl := congrArg Prod.snd hrun
    decide +kernel
  exact ⟨_, hstart, ending, after, hpolled ▸ htakes, hfault ▸ hrun, hleft⟩

end ClipboardRelay
