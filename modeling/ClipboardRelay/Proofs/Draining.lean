import ClipboardRelay.Memory.Display
import ClipboardRelay.Proofs.Upholding
/-!
What becomes of the events that a display keeps until they are polled. Each is handled once, in the
order in which they came. Main statement: an operation that ends well leaves no event behind, unless
it finds nothing to do: then it handles none.
-/

namespace ClipboardRelay

def Call.event? : (asked : Call) → asked.Answer → Option Event
  | .pollEvent, event => event
  | _, _ => none

theorem Moment.event?_called (relay : Relay) (asked : Call) (answer : asked.Answer) :
    (Moment.mk relay (.called asked answer)).event? = asked.event? answer := by
  cases asked <;> rfl

theorem Action.Spares.display_run {δ σ α : Type} [Display δ] {kept : Relay → σ}
    {apart : Deed → Bool} {action : Action δ α} (hspares : action.Spares kept apart)
    (related : δ → δ → Prop) (hrefl : ∀ display, related display display)
    (htrans : ∀ {first second third}, related first second → related second third →
      related first third)
    (hcall : ∀ {asked : Call} {answer : asked.Answer} {display after},
      apart (.called asked answer) = true → Display.perform asked display = (.ok answer, after) →
        related display after)
    {session after : Session δ} {value : α} (h : action.run session = (.ok value, after)) :
    related session.display after.display := by
  induction action generalizing session with
  | done result =>
    cases h
    exact hrefl _
  | step effect next ih =>
    simp only [Action.run] at h
    rcases hperform : effect.perform session with ⟨fault | answer, between⟩
    · rw [hperform] at h
      cases h
    · rw [hperform] at h
      refine htrans ?_ (ih answer (hspares.2 answer) h)
      have heffect := hspares.1
      cases effect with
      | current | display | update | send | note =>
        cases hperform
        exact hrefl _
      | call asked =>
        obtain ⟨display, hcalled, rfl⟩ := Effect.exists_of_perform_call hperform
        exact hcall (heffect answer) hcalled

/-- How a display keeps events. Those that arrive during a call are put behind the others. -/
structure EventQueue (δ : Type) [Display δ] where
  waiting : δ → List Event
  inOrder {asked : Call} {answer : asked.Answer} {display after : δ} :
    Display.perform asked display = (.ok answer, after) →
      waiting display <+: (asked.event? answer).toList ++ waiting after
  found {display after : δ} : Display.perform .pollEvent display = (.ok none, after) →
    waiting after = []
  /-- The backlog counts an event until it is polled. -/
  counted {event : Event} {display after : δ} :
    Display.perform .pollEvent display = (.ok (some event), after) →
      Display.backlog after < Display.backlog display
  /-- The backlog allows for all that may arrive as long as no new events are asked for. -/
  bounded {asked : Call} {answer : asked.Answer} {display after : δ} :
    (Deed.called asked answer).isHandling = true →
      Display.perform asked display = (.ok answer, after) →
        Display.backlog after ≤ Display.backlog display

namespace EventQueue

variable {δ : Type} [Display δ] {α β : Type} (queue : EventQueue δ)

theorem inOrder_perform {effect : Effect δ} {session after : Session δ} {answer : effect.Answer}
    (h : effect.perform session = (.ok answer, after)) :
    queue.waiting session.display <+:
      History.events (effect.moments session) ++ queue.waiting after.display := by
  cases effect with
  | current | display | update =>
    cases h
    exact List.prefix_rfl
  | send messages | note notices =>
    cases h
    simp [Effect.moments, History.events, Moment.event?, Function.comp_def]
  | call asked =>
    obtain ⟨display, hcall, rfl⟩ := Effect.exists_of_perform_call h
    have hevents : History.events (Effect.moments (.call asked) session) =
        (asked.event? answer).toList := by
      rw [Effect.moments_call hcall, History.events, List.filterMap_cons,
        Moment.event?_called, List.filterMap_nil]
      cases asked.event? answer <;> rfl
    rw [hevents]
    exact queue.inOrder hcall

theorem inOrder_run {action : Action δ α} {session after : Session δ} {value : α}
    (h : action.run session = (.ok value, after)) :
    queue.waiting session.display <+:
      History.events (action.history session) ++ queue.waiting after.display := by
  refine Action.run_induction (fun session history after => queue.waiting session.display <+:
    history.events ++ queue.waiting after.display) (fun _ => List.prefix_rfl) ?_ h
  intro effect session between after answer added hperform hrest
  rw [History.events_append, List.append_assoc]
  exact (queue.inOrder_perform hperform).trans ((List.prefix_append_right_inj _).mpr hrest)

theorem backlog_run_le (queue : EventQueue δ) {σ : Type} {kept : Relay → σ} {action : Action δ α}
    (hspares : action.Spares kept Deed.isHandling) {session after : Session δ} {value : α}
    (h : action.run session = (.ok value, after)) :
    Display.backlog after.display ≤ Display.backlog session.display := by
  apply hspares.display_run (fun before after => Display.backlog after ≤ Display.backlog before)
    (fun _ => Nat.le_refl _) _ _ h
  · exact fun hfirst hrest => Nat.le_trans hrest hfirst
  · exact fun hhandling => queue.bounded hhandling

/-- With fuel for the whole backlog, draining ends only when nothing waits. -/
theorem drain_empties {fuel : Nat} {session after : Session δ}
    (hfuel : Display.backlog session.display < fuel)
    (h : (Relay.drain fuel).run session = (.ok (), after)) : queue.waiting after.display = [] := by
  induction fuel generalizing session with
  | zero => omega
  | succ fuel ih =>
    obtain ⟨_, flushed, hflush, h⟩ := Action.exists_of_run_bind h
    obtain ⟨between, hflushed, rfl⟩ := Relay.exists_of_run_call hflush
    obtain ⟨event, polled, hpoll, h⟩ := Action.exists_of_run_bind h
    obtain ⟨shorter, hpolled, rfl⟩ := Relay.exists_of_run_call hpoll
    cases event with
    | none =>
      cases h
      exact queue.found hpolled
    | some event =>
      obtain ⟨_, handled, hhandle, h⟩ := Action.exists_of_run_bind h
      have hkept := queue.bounded rfl hflushed
      have hless := queue.counted hpolled
      have hmore := queue.backlog_run_le (Relay.handle_spares event) hhandle
      dsimp only at hless hmore
      exact ih (by omega) h

/-- An action that, if it ends well, leaves nothing to handle. -/
def Drains (action : Action δ α) : Prop :=
  ∀ session value after, action.run session = (.ok value, after) → queue.waiting after.display = []

variable {queue}

theorem Drains.after {first : Action δ α} {rest : α → Action δ β}
    (h : ∀ value, queue.Drains (rest value)) : queue.Drains (first >>= rest) := by
  intro session value after hrun
  obtain ⟨middle, between, -, hrest⟩ := Action.exists_of_run_bind hrun
  exact h middle between value after hrest

theorem dispatch_drains : queue.Drains (Relay.dispatch : Action δ Unit) := by
  intro session value after h
  exact queue.drain_empties (Nat.lt_succ_self _) h

theorem ask_drains (selection : Selection) (type : ContentType) :
    queue.Drains (Relay.ask selection type : Action δ Unit) := by
  apply Drains.after
  intro relay
  split
  · exact .after fun _ => .after fun _ => dispatch_drains
  split
  · exact .after fun _ => .after fun _ => dispatch_drains
  split
  · exact .after fun _ => .after fun _ => dispatch_drains
  · exact .after fun _ => dispatch_drains

theorem supply_drains (selection : Selection) (type : ContentType) (data : Bytes) :
    queue.Drains (Relay.supply selection type data : Action δ Unit) :=
  .after fun _ => dispatch_drains

theorem shutdown_drains : queue.Drains (Relay.shutdown : Action δ Unit) :=
  .after fun _ => .after fun _ => dispatch_drains

end EventQueue

def Wire.Request.operation : Wire.Request → Operation
  | monitors layout => .applyMonitors layout
  | grab selection types => .grab selection types
  | ask selection type => .ask selection type
  | data selection type bytes => .supply selection type bytes
  | release selection => .release selection

def Operation.entry : Operation → Operation
  | fulfil request => request.operation
  | operation => operation

theorem Operation.action_entry {δ : Type} [Display δ] (operation : Operation) :
    (operation.entry.action : Action δ Unit) = operation.action := by
  cases operation with
  | fulfil request => cases request <;> rfl
  | _ => rfl

namespace Session

variable {δ : Type} [Display δ]

/-- Whether a monitor layout changes nothing: screen sizes cannot be chosen, or none of them suits
the first monitor. -/
def Misfits (session : Session δ) (layout : MonitorLayout) : Prop :=
  Display.hasRandr session.display = false ∨ ∀ monitor ∈ layout.monitors.head?, ∀ sizes,
    (Display.perform .screenSizes session.display).1 = .ok sizes →
      ScreenSize.bestFit sizes monitor.width monitor.height = none

/-- Whether an operation finds nothing to do. -/
def Dismisses (session : Session δ) (operation : Operation) : Prop :=
  match operation.entry with
  | .grab selection types =>
    session.relay.vocabulary.atom? selection = none ∨ ContentType.distinct types = []
  | .release selection =>
    session.relay.vocabulary.atom? selection = none ∨ session.relay.slots.owner selection ≠ .agent
  | .applyMonitors layout => session.Misfits layout
  | _ => False

end Session

namespace EventQueue

variable {δ : Type} [Display δ] {queue : EventQueue δ} {session after : Session δ}

theorem grab_empties {selection : Selection} {types : List ContentType}
    (hwanted : ¬ session.Dismisses (.grab selection types))
    (h : (Relay.grab selection types).run session = (.ok (), after)) :
    queue.waiting after.display = [] := by
  rw [Relay.grab, Relay.run_current_bind] at h
  split at h
  case h_1 unbridged => exact absurd (.inl unbridged) hwanted
  case h_2 atom bridged =>
    dsimp only at h
    split at h
    case isTrue none => exact absurd (.inr (List.isEmpty_iff.mp none)) hwanted
    case isFalse some =>
      exact Drains.after (fun _ => .after fun _ => dispatch_drains) session () after h

theorem release_empties {selection : Selection}
    (hwanted : ¬ session.Dismisses (.release selection))
    (h : (Relay.release selection).run session = (.ok (), after)) :
    queue.waiting after.display = [] := by
  rw [Relay.release, Relay.run_current_bind] at h
  split at h
  case h_1 unbridged => exact absurd (.inl unbridged) hwanted
  case h_2 atom bridged =>
    split at h
    case isTrue foreign => exact absurd (.inr foreign) hwanted
    case isFalse owned =>
      refine Drains.after (fun _ => .after fun _ => .after fun _ => .after fun relay => ?_)
        session () after h
      split
      · exact .after fun _ => .after fun _ => dispatch_drains
      · exact dispatch_drains

theorem fitScreen_empties {monitor : Monitor} (hfits : ∀ sizes,
      (Display.perform .screenSizes session.display).1 = .ok sizes →
        ScreenSize.bestFit sizes monitor.width monitor.height ≠ none)
    (h : (Relay.fitScreen monitor).run session = (.ok (), after)) :
    queue.waiting after.display = [] := by
  obtain ⟨sizes, listed, hlist, h⟩ := Action.exists_of_run_bind h
  obtain ⟨display, hlisted, rfl⟩ := Relay.exists_of_run_call hlist
  have hfit := hfits sizes (congrArg Prod.fst hlisted)
  split at h
  case isTrue none =>
    rw [List.isEmpty_iff.mp none] at hfit
    exact absurd rfl hfit
  case isFalse some =>
    split at h
    case h_1 misfit => exact absurd misfit hfit
    case h_2 index fit =>
      exact Drains.after (fun _ => .after fun _ => .after fun _ => dispatch_drains) _ () after h

theorem applyMonitors_empties {layout : MonitorLayout}
    (hwanted : ¬ session.Dismisses (.applyMonitors layout))
    (h : (Relay.applyMonitors layout).run session = (.ok (), after)) :
    queue.waiting after.display = [] := by
  have hmisfit : ¬ session.Misfits layout := hwanted
  simp only [Session.Misfits, not_or, not_forall] at hmisfit
  obtain ⟨hrandr, monitor, hfirst, sizes, hsizes, hfit⟩ := hmisfit
  have hfits : ∀ other, (Display.perform .screenSizes session.display).1 = .ok other →
      ScreenSize.bestFit other monitor.width monitor.height ≠ none := by
    intro other hother
    rw [hsizes] at hother
    cases hother
    exact hfit
  rw [Relay.applyMonitors, Relay.run_display_bind, if_pos (by simpa using hrandr)] at h
  split at h
  case h_1 none =>
    rw [none] at hfirst
    cases hfirst
  case h_2 leading others monitors =>
    rw [monitors] at hfirst
    cases hfirst
    split at h
    · obtain ⟨_, noted, hnote, h⟩ := Action.exists_of_run_bind h
      cases hnote
      exact fitScreen_empties (by exact hfits) h
    · exact fitScreen_empties hfits h

/-- An operation that ends well and finds something to do leaves nothing to handle. -/
theorem operation_empties {operation : Operation} (hwanted : ¬ session.Dismisses operation)
    (h : operation.action.run session = (.ok (), after)) : queue.waiting after.display = [] := by
  rw [← operation.action_entry] at h
  unfold Session.Dismisses at hwanted
  cases hentry : operation.entry with
  | grab selection types =>
    rw [hentry] at h hwanted
    exact grab_empties hwanted h
  | release selection =>
    rw [hentry] at h hwanted
    exact release_empties hwanted h
  | applyMonitors layout =>
    rw [hentry] at h hwanted
    exact applyMonitors_empties hwanted h
  | ask selection type =>
    rw [hentry] at h
    exact ask_drains selection type session () after h
  | supply selection type data =>
    rw [hentry] at h
    exact supply_drains selection type data session () after h
  | shutdown =>
    rw [hentry] at h
    exact shutdown_drains session () after h
  | dispatch =>
    rw [hentry] at h
    exact dispatch_drains session () after h
  | fulfil request =>
    cases operation with
    | fulfil wrapped => cases wrapped <;> cases hentry
    | _ => cases hentry

end EventQueue

namespace Session

variable {δ : Type} [Display δ] {session : Session δ}

theorem events_history_call {asked : Call} (hpoll : ∀ answer, asked.event? answer = none) :
    History.events ((Relay.call asked).history session) = [] := by
  simp only [Relay.call, Action.perform, Action.history, Effect.moments, Effect.perform]
  rcases Display.perform asked session.display with ⟨fault | answer, after⟩
  · rfl
  · simp [History.events, Moment.event?_called, hpoll]

theorem fitScreen_quiet {monitor : Monitor} (hmisfits : ∀ sizes,
      (Display.perform .screenSizes session.display).1 = .ok sizes →
        ScreenSize.bestFit sizes monitor.width monitor.height = none) :
    History.events ((Relay.fitScreen monitor).history session) = [] := by
  rw [Relay.fitScreen, Action.history_bind, History.events_append,
    events_history_call fun _ => rfl, List.nil_append]
  rcases hlist : (Relay.call .screenSizes).run session with ⟨fault | sizes, listed⟩
  · rfl
  · obtain ⟨display, hlisted, rfl⟩ := Relay.exists_of_run_call hlist
    dsimp only
    split
    · rfl
    · rw [hmisfits sizes (congrArg Prod.fst hlisted)]
      rfl

theorem applyMonitors_quiet {layout : MonitorLayout} (h : session.Misfits layout) :
    History.events ((Relay.applyMonitors layout).history session) = [] := by
  rw [Relay.applyMonitors, Relay.history_display_bind]
  split
  case isFalse none => rfl
  case isTrue randr =>
    have hmisfits := h.resolve_left (by simp [randr])
    split
    case h_1 none => rfl
    case h_2 monitor others monitors =>
      rw [monitors] at hmisfits
      have hfirst := hmisfits monitor rfl
      split
      · rw [Action.history_bind, History.events_append]
        exact fitScreen_quiet (by exact hfirst)
      · exact fitScreen_quiet hfirst

theorem grab_quiet {selection : Selection} {types : List ContentType}
    (h : session.Dismisses (.grab selection types)) :
    History.events ((Relay.grab selection types).history session) = [] := by
  rw [Relay.grab, Relay.history_current_bind]
  split
  case h_1 unbridged => rfl
  case h_2 atom bridged =>
    have hnone : ContentType.distinct types = [] := h.resolve_left (by simp [bridged])
    dsimp only
    rw [if_pos (List.isEmpty_iff.mpr hnone)]
    rfl

theorem release_quiet {selection : Selection} (h : session.Dismisses (.release selection)) :
    History.events ((Relay.release selection).history session) = [] := by
  rw [Relay.release, Relay.history_current_bind]
  split
  case h_1 unbridged => rfl
  case h_2 atom bridged =>
    rw [if_pos (h.resolve_left (by simp [bridged]))]
    rfl

theorem quiet_of_dismisses {operation : Operation} (h : session.Dismisses operation) :
    History.events (operation.action.history session) = [] := by
  rw [← operation.action_entry]
  unfold Dismisses at h
  split at h
  case h_1 selection types hentry =>
    rw [hentry]
    exact grab_quiet h
  case h_2 selection hentry =>
    rw [hentry]
    exact release_quiet h
  case h_3 layout hentry =>
    rw [hentry]
    exact applyMonitors_quiet h
  case h_4 => exact h.elim

end Session

namespace EventQueue

variable {δ : Type} [Display δ]

/-- An operation that ends well has handled all events that had come, in their order, unless it
found nothing to do. Then it has handled none, and they still wait. -/
theorem events_handled_or_kept (queue : EventQueue δ) {session after : Session δ}
    {operation : Operation} (h : operation.action.run session = (.ok (), after)) :
    (¬ session.Dismisses operation → queue.waiting after.display = [] ∧
      queue.waiting session.display <+: History.events (operation.action.history session)) ∧
    (session.Dismisses operation → History.events (operation.action.history session) = [] ∧
      queue.waiting session.display <+: queue.waiting after.display) := by
  have hinOrder := queue.inOrder_run h
  constructor
  · intro hwanted
    have hempty : queue.waiting after.display = [] := operation_empties hwanted h
    rw [hempty, List.append_nil] at hinOrder
    exact ⟨hempty, hinOrder⟩
  · intro hdismissed
    have hquiet := Session.quiet_of_dismisses hdismissed
    rw [hquiet, List.nil_append] at hinOrder
    exact ⟨hquiet, hinOrder⟩

end EventQueue

namespace Memory.Display

theorem events_prefix_answer (asked : Call) (display : Display) :
    display.events <+:
      (asked.event? (answer asked display).1).toList ++ (answer asked display).2.events := by
  cases asked with
  | setSelectionOwner selection owner =>
    simp only [answer]
    split
    · exact List.prefix_append _ _
    · exact List.prefix_rfl
  | getProperty window name delete =>
    simp only [answer]
    split <;> exact List.prefix_rfl
  | setScreenSize index =>
    simp only [answer]
    split
    · exact List.prefix_rfl
    · split
      · exact List.prefix_append _ _
      · exact List.prefix_rfl
  | pollEvent =>
    simp only [answer]
    split
    case h_1 none =>
      rw [none]
      exact List.nil_prefix
    case h_2 event events waiting =>
      rw [waiting]
      exact List.prefix_rfl
  | sync => exact List.prefix_append _ _
  | _ => exact List.prefix_rfl

theorem events_answer_of_handling {asked : Call} {given : asked.Answer}
    (h : (Deed.called asked given).isHandling = true) (display : Display) :
    (answer asked display).2.events = display.events := by
  cases asked with
  | setSelectionOwner | setScreenSize | pollEvent | sync => cases h
  | getProperty window name delete =>
    simp only [answer]
    split <;> rfl
  | _ => rfl

def queue : EventQueue Display where
  waiting := events
  inOrder {asked given display after} h := by
    obtain ⟨rules, hanswer⟩ := exists_of_perform h
    have hevents := events_prefix_answer asked ({ display with rules }.record (.made asked))
    rwa [hanswer] at hevents
  found h := by
    obtain ⟨rules, hanswer⟩ := exists_of_perform h
    simp only [answer] at hanswer
    split at hanswer
    case h_1 none =>
      cases hanswer
      exact none
    case h_2 event events waiting => cases hanswer
  counted {polled display after} h := by
    obtain ⟨rules, hanswer⟩ := exists_of_perform h
    simp only [answer] at hanswer
    split at hanswer
    case h_1 none => cases hanswer
    case h_2 event events waiting =>
      cases hanswer
      change events.length < display.events.length
      rw [show display.events = polled :: events from waiting]
      exact Nat.lt_succ_self _
  bounded {asked given display after} hhandling h := by
    obtain ⟨rules, hanswer⟩ := exists_of_perform h
    have hevents : (answer asked ({ display with rules }.record (.made asked))).2.events =
        display.events := events_answer_of_handling hhandling _
    rw [hanswer] at hevents
    exact (congrArg List.length hevents).le

end Memory.Display

namespace Course

def busy : Memory.Display :=
  { events := [.ownerChanged ⟨101⟩ ⟨7⟩, .other 40] }

theorem events_handled_or_kept_busy : ∃ course, start ({} : Memory.Display) = some course ∧
    ∃ after, (Operation.grab .clipboard [.utf8Text]).action.run
        (course.move (.elapse busy)).session = (.ok (), after) ∧
      Memory.Display.queue.waiting after.display = [] ∧
      Memory.Display.queue.waiting (course.move (.elapse busy)).session.display <+:
        History.events ((Operation.grab .clipboard [.utf8Text]).action.history
          (course.move (.elapse busy)).session) := by
  have hstart : start ({} : Memory.Display) =
      some ((start {}).get (by decide +kernel)) := (Option.some_get _).symm
  have hrun : ((Operation.grab .clipboard [.utf8Text]).action.run
      (((start ({} : Memory.Display)).get (by decide +kernel)).move (.elapse busy)).session).1 =
        .ok () := by decide +kernel
  have hwanted : ¬ (((start ({} : Memory.Display)).get (by decide +kernel)).move
      (.elapse busy)).session.Dismisses (.grab .clipboard [.utf8Text]) := by
    rintro (unbridged | none)
    · exact absurd unbridged (by decide +kernel)
    · exact absurd none (by decide)
  refine ⟨_, hstart, _, Action.run_of_ok hrun, ?_⟩
  exact (Memory.Display.queue.events_handled_or_kept (Action.run_of_ok hrun)).1 hwanted

/-- Operations that find nothing to do end well while the events still wait. -/
theorem events_kept_by_dismissed : ∃ course, start ({} : Memory.Display) = some course ∧
    ∀ operation ∈ [Operation.grab .secondary [.utf8Text], .grab .clipboard [.none],
        .release .secondary, .release .clipboard, .applyMonitors ⟨0, []⟩,
        .fulfil (.release .primary)],
      (operation.action.run (course.move (.elapse busy)).session).1 = .ok () ∧
      (operation.action.run (course.move (.elapse busy)).session).2.display.events =
        busy.events := by
  have hstart : start ({} : Memory.Display) =
      some ((start {}).get (by decide +kernel)) := (Option.some_get _).symm
  exact ⟨_, hstart, by decide +kernel⟩

end Course

end ClipboardRelay
