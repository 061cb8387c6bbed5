import ClipboardRelay.Proofs.Grabbing
import ClipboardRelay.Proofs.Naming
import ClipboardRelay.Proofs.Tending
/-!
Giving up a selection that was taken for the remote client. The relay gives it up, waits for the
display and handles all that came. Only if none of this names another owner, it clears the selection
by itself. Main statement: the agent owns the selection no longer, and whoever was reported to own
it in the meantime keeps what handling the events gave.
-/

namespace ClipboardRelay

variable {δ : Type}

/-- Whether an event names another owner of a selection than the relay, or nobody. -/
def Event.displaces (relay : Relay) (selection : Selection) : Event → Bool
  | ownerChanged atom owner =>
    relay.vocabulary.selection? atom = some selection ∧ owner ≠ relay.window
  | _ => false

theorem Moment.displaces_polled (relay : Relay) (selection : Selection) (event : Event) :
    (Moment.mk relay (.called .pollEvent (some event))).displaces selection =
      event.displaces relay selection := by
  cases event <;> rfl

theorem Event.displaces_of_setting {relay after : Relay} (h : after.setting = relay.setting)
    (selection : Selection) (event : Event) :
    event.displaces after selection = event.displaces relay selection := by
  obtain ⟨hwindow, hvocabulary⟩ := Prod.mk.inj h
  cases event <;> simp [displaces, hwindow, hvocabulary]

theorem Call.event?_of_handling {asked : Call} {answer : asked.Answer}
    (h : (Deed.called asked answer).isHandling = true) : asked.event? answer = none := by
  cases asked with
  | pollEvent => cases h
  | _ => rfl

theorem Relay.agent_owns_iff {relay : Relay} {selection : Selection} :
    relay.slots.owner selection = .agent ↔ relay.advertised? selection ≠ none := by
  rw [advertised?, Slots.owner]
  cases relay.slots.holder selection <;> simp [Holder.owner, Holder.advertised?]

namespace Relay

/-- Takes events from the display one by one and handles each. -/
def handleInTurn : List Event → Action δ Unit
  | [] => pure ()
  | event :: events => do
    call .flush
    let _ ← call .pollEvent
    handle event
    handleInTurn events

theorem handleInTurn_advertised (selection : Selection) (events : List Event) {relay : Relay}
    {history : History} :
    (handleInTurn events : Action δ Unit).Yields (fun _ after _ => after.advertised? selection =
      if events.any (·.displaces relay selection) then none else relay.advertised? selection)
      relay history := by
  induction events generalizing relay history with
  | nil => rfl
  | cons event events ih =>
    refine ensures_call_bind (fun _ => ensures_call_bind (fun _ => ?_) fun _ => trivial)
      fun _ => trivial
    apply ((handle_advertised selection event).and ((handle_spares event).yields_spared .refl)).bind
    rintro _ after _ ⟨hafter, hspared⟩
    apply ih.mono
    intro _ last _ hlast
    have hsame : (fun event : Event => event.displaces after selection) =
        fun event => event.displaces relay selection :=
      funext (Event.displaces_of_setting hspared.kept selection)
    rw [hlast, hafter, hsame, List.any_cons, Moment.displaces_polled]
    by_cases hdisplaces : event.displaces relay selection = true <;> simp [hdisplaces]

theorem advertised?_of_handleInTurn [Display δ] {session after : Session δ} {events : List Event}
    (h : (handleInTurn events).run session = (.ok (), after)) (selection : Selection) :
    after.relay.advertised? selection = if events.any (·.displaces session.relay selection) then
      none else session.relay.advertised? selection := by
  have hhandled : (handleInTurn events : Action δ Unit).Yields (fun _ after _ =>
      after.advertised? selection = if events.any (·.displaces session.relay selection) then none
        else session.relay.advertised? selection) session.relay [] :=
    handleInTurn_advertised selection events
  have hoffered := hhandled.run session
  rwa [h] at hoffered

theorem slots_of_changeHolder [Display δ] {session after : Session δ} {selection : Selection}
    {holder : Holder} (h : (changeHolder selection holder).run session = (.ok (), after)) :
    after.relay.slots = session.relay.slots.setHolder selection holder := by
  have hchanged : (changeHolder selection holder : Action δ Unit).Yields (fun _ after _ =>
      after.slots = session.relay.slots.setHolder selection holder) session.relay [] :=
    slots_changeHolder selection holder
  have hslots := hchanged.run session
  rwa [h] at hslots

end Relay

namespace EventQueue

variable [Display δ] {queue : EventQueue δ} {σ α : Type}

/-- Whether nothing arrives while events are taken and handled: an event comes only when a selection
is given an owner, the screen is resized or the relay waits for the display. -/
def Calm (queue : EventQueue δ) : Prop :=
  ∀ {asked : Call} {answer : asked.Answer} {display after : δ},
    asked = .pollEvent ∨ (Deed.called asked answer).isHandling = true →
      Display.perform asked display = (.ok answer, after) →
        queue.waiting display = (asked.event? answer).toList ++ queue.waiting after

namespace Calm

variable {session after : Session δ}

theorem waiting_run (calm : queue.Calm) {kept : Relay → σ} {action : Action δ α}
    (hspares : action.Spares kept Deed.isHandling) {value : α}
    (h : action.run session = (.ok value, after)) :
    queue.waiting after.display = queue.waiting session.display := by
  apply hspares.display_run (fun before after => queue.waiting after = queue.waiting before)
    (fun _ => rfl) _ _ h
  · exact fun hfirst hrest => hrest.trans hfirst
  · intro asked answer display after hhandling hcalled
    rw [calm (.inr hhandling) hcalled, Call.event?_of_handling hhandling]
    rfl

theorem drain_run (calm : queue.Calm) {fuel : Nat}
    (hfuel : Display.backlog session.display < fuel)
    (h : (Relay.drain fuel).run session = (.ok (), after)) :
    ∃ handled, (Relay.handleInTurn (queue.waiting session.display)).run session =
      (.ok (), handled) ∧ after.relay = handled.relay := by
  induction fuel generalizing session with
  | zero => omega
  | succ fuel ih =>
    obtain ⟨_, flushed, hflush, h⟩ := Action.exists_of_run_bind h
    obtain ⟨between, hflushed, rfl⟩ := Relay.exists_of_run_call hflush
    obtain ⟨event, polled, hpoll, h⟩ := Action.exists_of_run_bind h
    obtain ⟨shorter, hpolled, rfl⟩ := Relay.exists_of_run_call hpoll
    have hwaiting := (calm (.inr rfl) hflushed).trans (calm (.inl rfl) hpolled)
    cases event with
    | none =>
      cases h
      have hnone : queue.waiting session.display = [] := by
        rw [hwaiting, queue.found hpolled]
        rfl
      rw [hnone]
      exact ⟨session, rfl, rfl⟩
    | some event =>
      obtain ⟨_, handled, hhandle, h⟩ := Action.exists_of_run_bind h
      have hkept := queue.bounded rfl hflushed
      have hless := queue.counted hpolled
      have hmore := queue.backlog_run_le (Relay.handle_spares event) hhandle
      dsimp only at hless hmore
      obtain ⟨last, hlast, hrelay⟩ := ih (by omega) h
      rw [calm.waiting_run (Relay.handle_spares event) hhandle] at hlast
      refine ⟨last, ?_, hrelay⟩
      have hevents : queue.waiting session.display = event :: queue.waiting shorter := hwaiting
      rw [hevents, Relay.handleInTurn, Action.run_bind, hflush]
      dsimp only
      rw [Action.run_bind, hpoll]
      dsimp only
      rw [Action.run_bind, hhandle]
      exact hlast

theorem dispatch_run (calm : queue.Calm) (h : (Relay.dispatch).run session = (.ok (), after)) :
    ∃ handled, (Relay.handleInTurn (queue.waiting session.display)).run session =
      (.ok (), handled) ∧ after.relay = handled.relay :=
  calm.drain_run (Nat.lt_succ_self _) h

theorem dispatch_idle (calm : queue.Calm) (hnone : queue.waiting session.display = [])
    (h : (Relay.dispatch).run session = (.ok (), after)) : after.relay = session.relay := by
  obtain ⟨handled, hhandled, hrelay⟩ := calm.dispatch_run h
  rw [hnone] at hhandled
  cases hhandled
  exact hrelay

/-- Giving a selection up comes to handling in turn all that waits then. Only if none of it names
another owner, the relay clears the selection by itself. -/
theorem release_run (calm : queue.Calm) {selection : Selection} {atom : Atom}
    (bridged : session.relay.vocabulary.atom? selection = some atom)
    (owned : session.relay.slots.owner selection = .agent)
    (h : (Relay.release selection).run session = (.ok (), after)) :
    ∃ given synced handled,
      Display.perform (.setSelectionOwner atom Window.null) session.display = (.ok (), given) ∧
      Display.perform .sync given = (.ok (), synced) ∧
      (Relay.handleInTurn (queue.waiting synced)).run { session with display := synced } =
        (.ok (), handled) ∧
      if (queue.waiting synced).any (·.displaces session.relay selection) then
        handled.relay.slots.owner selection ≠ .agent ∧ after.relay = handled.relay
      else
        handled.relay.slots.owner selection = .agent ∧
          after.relay.slots = handled.relay.slots.setHolder selection .nobody := by
  rw [Relay.release, Relay.run_current_bind, bridged] at h
  dsimp only at h
  rw [if_neg (by simpa using owned)] at h
  obtain ⟨_, between, hgive, h⟩ := Action.exists_of_run_bind h
  obtain ⟨given, hgiven, rfl⟩ := Relay.exists_of_run_call hgive
  obtain ⟨_, between, hsync, h⟩ := Action.exists_of_run_bind h
  obtain ⟨synced, hsynced, rfl⟩ := Relay.exists_of_run_call hsync
  obtain ⟨_, settled, hdispatch, h⟩ := Action.exists_of_run_bind h
  have hempty : queue.waiting settled.display = [] := dispatch_drains _ _ _ hdispatch
  obtain ⟨handled, hhandled, hsettled⟩ := calm.dispatch_run hdispatch
  refine ⟨given, synced, handled, hgiven, hsynced, hhandled, ?_⟩
  have hoffered := Relay.advertised?_of_handleInTurn hhandled selection
  have hkept : session.relay.advertised? selection ≠ none := Relay.agent_owns_iff.mp owned
  have hundisputed : handled.relay.slots.owner selection = .agent ↔
      ¬ (queue.waiting synced).any (·.displaces session.relay selection) = true := by
    rw [Relay.agent_owns_iff, hoffered]
    split <;> simp_all
  rw [Relay.run_current_bind, hsettled] at h
  split
  case isTrue displaced =>
    have hgone : handled.relay.slots.owner selection ≠ .agent :=
      fun hagent => hundisputed.mp hagent displaced
    rw [if_neg hgone] at h
    exact ⟨hgone, (calm.dispatch_idle hempty h).trans hsettled⟩
  case isFalse undisputed =>
    have hagent := hundisputed.mpr undisputed
    rw [if_pos hagent] at h
    refine ⟨hagent, ?_⟩
    obtain ⟨_, noted, hnote, h⟩ := Action.exists_of_run_bind h
    cases hnote
    obtain ⟨_, cleared, hclear, h⟩ := Action.exists_of_run_bind h
    have hstill : queue.waiting cleared.display = [] :=
      (calm.waiting_run (Relay.changeHolder_spares selection .nobody) hclear).trans hempty
    rw [calm.dispatch_idle hstill h, Relay.slots_of_changeHolder hclear, ← hsettled]

end Calm

end EventQueue

def Deed.isRelease (selection : Selection) : Deed → Bool
  | sent (.release told) => told = selection
  | _ => false

/-- Whether the agent is told that the desktop owner of a selection is gone only after there was
one. -/
def History.ReleasesOwned (selection : Selection) (history : History) : Prop :=
  history.Always fun before moment => moment.deed.isRelease selection = true →
    ∃ earlier ∈ before, earlier.relay.slots.owner selection = .desktop

structure Witnessed (selection : Selection) (relay : Relay) (history : History) : Prop where
  owned : relay.slots.owner selection = .desktop →
    ∃ earlier ∈ history, earlier.relay.slots.owner selection = .desktop
  released : history.ReleasesOwned selection

namespace Relay

open ClipboardRelay.Action (Spares Yields)

variable {σ α : Type} {selection : Selection} {relay : Relay} {history : History}

def holderOf (selection : Selection) (relay : Relay) : Holder :=
  relay.slots.holder selection

theorem spares_holderOf_of_serving {action : Action δ α}
    (h : action.Spares besidesRequests Deed.isServing) :
    action.Spares (holderOf selection) fun deed => !deed.isRelease selection :=
  h.mono (fun relay => relay.holderOf selection) (fun _ => rfl) fun deed hserving => by
    unfold Deed.isServing at hserving
    split at hserving <;> simp_all [Deed.isRelease]

theorem spares_holderOf_of_fetching {action : Action δ α}
    (h : action.Spares besidesFetches Deed.isFetching) :
    action.Spares (holderOf selection) fun deed => !deed.isRelease selection :=
  h.mono (fun relay => relay.holderOf selection) (fun _ => rfl) fun deed hfetching => by
    unfold Deed.isRelease
    split
    case h_1 => cases hfetching
    case h_2 => rfl

theorem spares_holderOf_of_looking {action : Action δ α}
    (h : action.Spares (fun relay => relay) Deed.isLooking) :
    action.Spares (holderOf selection) fun deed => !deed.isRelease selection :=
  spares_holderOf_of_fetching (spares_of_reading (reading_of_looking h))

end Relay

namespace Witnessed

open Relay

variable {σ α : Type} {selection : Selection} {relay : Relay} {history : History}

theorem did (h : history.ReleasesOwned selection) (relay : Relay) {deed : Deed}
    (hdeed : deed.isRelease selection = false) :
    Witnessed selection relay (history ++ [⟨relay, deed⟩]) where
  owned howner := ⟨⟨relay, deed⟩, by simp, howner⟩
  released := h.concat fun hrelease => by
    rw [hdeed] at hrelease
    cases hrelease

theorem spared (h : Witnessed selection relay history) {action : Action δ α}
    (hspares : action.Spares (holderOf selection) fun deed => !deed.isRelease selection) :
    action.Yields (fun _ => Witnessed selection) relay history := by
  refine hspares.keeps ?_ ?_ h
  · intro relay after history hholder hwitnessed
    have howner : after.slots.owner selection = relay.slots.owner selection :=
      congrArg Holder.owner hholder
    exact ⟨fun hdesktop => hwitnessed.owned (howner ▸ hdesktop), hwitnessed.released⟩
  · intro relay history deed hdeed hwitnessed
    exact did hwitnessed.released relay (by simpa using hdeed)

theorem changeHolder (h : Witnessed selection relay history) (changed : Selection)
    (holder : Holder) :
    (Relay.changeHolder changed holder : Action δ Unit).Yields
      (fun _ _ later => later.ReleasesOwned selection) relay history := by
  apply Action.Yields.bind (h.spared (spares_holderOf_of_serving (dropRequests_spares changed)))
  intro _ middle history h
  apply Action.Yields.bind
    (h.spared (spares_holderOf_of_fetching (spares_of_advancing (dropFetches_spares changed))))
  intro _ last history h
  apply Action.Yields.current_bind
  apply Action.Yields.update_bind
  split
  case isFalse => exact h.released
  case isTrue gone =>
    apply h.released.concat
    intro hrelease
    have hsame : changed = selection := by simpa [Deed.isRelease] using hrelease
    subst hsame
    exact h.owned gone.2

theorem handleOwner (h : Witnessed selection relay history) (atom : Atom) (owner : Window) :
    (Relay.handleOwner atom owner : Action δ Unit).Yields
      (fun _ _ later => later.ReleasesOwned selection) relay history := by
  apply Action.Yields.current_bind
  split
  · exact h.released
  apply Action.Yields.bind (h.spared (spares_remark rfl))
  intro _ middle history h
  split
  · exact h.released
  apply Action.Yields.bind (h.changeHolder _ .nobody)
  intro _ last history hreleased
  split
  · exact hreleased
  apply ensures_call_bind _ fun _ => trivial
  intro answer
  have asked : Witnessed selection last
      (history ++ [⟨last, .called (.convertSelection _ _ _) answer⟩]) := did hreleased last rfl
  exact asked.released

theorem handleTargets (h : Witnessed selection relay history) (notify : SelectionNotify) :
    (Relay.handleTargets notify : Action δ Unit).Yields
      (fun _ _ later => later.ReleasesOwned selection) relay history := by
  apply handleTargets_yields h
  · intro _ _ relay history hspares h
    exact h.spared (spares_holderOf_of_looking hspares)
  · intro answering _
    have howner : (relay.slots.arrive answering).2.owner selection = relay.slots.owner selection :=
      congrArg Holder.owner (relay.slots.holder_arrive answering selection)
    exact ⟨fun hdesktop => h.owned (howner ▸ hdesktop), h.released⟩
  · intro _ _ relay history h
    exact did h.released relay rfl
  · intro answering holder relay history _ h
    exact h.changeHolder answering holder
  · exact fun _ _ h => h.released

theorem handle (h : Witnessed selection relay history) (event : Event) :
    (Relay.handle event : Action δ Unit).Yields
      (fun _ _ later => later.ReleasesOwned selection) relay history := by
  have ended {action : Action δ Unit}
      (hspares : action.Spares (holderOf selection) fun deed => !deed.isRelease selection) :
      action.Yields (fun _ _ later => later.ReleasesOwned selection) relay history :=
    (h.spared hspares).mono fun _ _ _ hwitnessed => hwitnessed.released
  cases event with
  | ownerChanged atom owner => exact h.handleOwner atom owner
  | selectionNotify notify =>
    apply Action.Yields.current_bind
    split
    · exact h.handleTargets notify
    · exact ended (spares_holderOf_of_fetching (handleConversion_spares notify))
  | selectionRequest request =>
    exact ended (spares_holderOf_of_serving (queueRequest_spares request))
  | propertyStored window property =>
    exact ended (spares_holderOf_of_fetching (handleStored_spares window property))
  | propertyDeleted window property =>
    exact ended (spares_holderOf_of_serving (handleDeleted_spares window property))
  | rootResized size =>
    apply ended
    refine .bind spares_current fun relay => ?_
    split
    · exact .pure
    · exact .bind (spares_update fun _ => rfl) fun _ => .bind spares_current fun _ =>
        spares_send rfl
  | protocolError | other => exact ended (spares_note rfl)
  | selectionCleared | mappingChanged => exact h.released

end Witnessed

namespace History.ReleasesOwned

open Relay

variable [Display δ] {selection : Selection} {relay : Relay} {history : History}

theorem dispatch (h : history.ReleasesOwned selection) :
    (Relay.dispatch : Action δ Unit).Yields (fun _ _ later => later.ReleasesOwned selection)
      relay history := by
  intro display
  apply drain_yields _ _ _ _ h
  · exact fun relay history h => (Witnessed.did h relay rfl).released
  · exact fun relay history h => (Witnessed.did h relay rfl).released
  · exact fun event relay history h => (Witnessed.did h relay rfl).handle event

end History.ReleasesOwned

theorem Relay.release_releasesOwned [Display δ] {selection : Selection} {relay : Relay}
    (owned : relay.slots.owner selection = .agent) :
    (release selection : Action δ Unit).Yields (fun _ _ later => later.ReleasesOwned selection)
      relay [] := by
  have witnessed {relay : Relay} {history : History} (owned : relay.slots.owner selection = .agent)
      (h : history.ReleasesOwned selection) : Witnessed selection relay history :=
    ⟨fun hdesktop => absurd (owned.symm.trans hdesktop) (by decide), h⟩
  have hfirst : Witnessed selection relay [] := witnessed owned .nil
  apply Action.Yields.current_bind
  split
  · exact (hfirst.spared (spares_remark rfl)).mono fun _ _ _ hwitnessed => hwitnessed.released
  rw [if_neg (by simpa using owned)]
  refine ensures_call_bind (fun given => ensures_call_bind (fun synced => ?_) fun _ => trivial)
    fun _ => trivial
  have left : Witnessed selection relay
      ([] ++ [⟨relay, .called (.setSelectionOwner _ Window.null) given⟩]) :=
    Witnessed.did hfirst.released relay rfl
  have waited : Witnessed selection relay ([] ++
      [⟨relay, .called (.setSelectionOwner _ Window.null) given⟩] ++
      [⟨relay, .called .sync synced⟩]) := Witnessed.did left.released relay rfl
  apply Action.Yields.bind waited.released.dispatch
  intro _ middle history hmiddle
  apply Action.Yields.current_bind
  split
  case isFalse => exact hmiddle.dispatch
  case isTrue unseen =>
    apply Action.Yields.bind ((witnessed unseen hmiddle).spared (spares_remark rfl))
    intro _ relay history h
    apply Action.Yields.bind (h.changeHolder selection .nobody)
    exact fun _ _ _ hreleased => hreleased.dispatch

def Moment.takes (selection : Selection) (moment : Moment) : Bool :=
  match moment.deed with
  | .began operation => operation.grab?.any (·.1 = selection)
  | _ => false

def Stage.Taken (selection : Selection) (stage : Stage) : Prop :=
  stage.relay.slots.owner selection = .agent ∨
    ∃ types, stage.duty.owed = some (selection, .agent types)

theorem Slots.owner_setHolder (slots : Slots) (changed selection : Selection) (holder : Holder) :
    (slots.setHolder changed holder).owner selection =
      if changed = selection then holder.owner else slots.owner selection := by
  rw [owner, holder_setHolder]
  split <;> rfl

namespace Stage.Taken

variable {stage next : Stage} {selection : Selection}

theorem of_eq (h : next.Taken selection) (hslots : next.relay.slots = stage.relay.slots)
    (howed : next.duty.owed = stage.duty.owed ∨ next.duty.owed = none) : stage.Taken selection := by
  rcases h with howner | ⟨types, hpromised⟩
  · rw [hslots] at howner
    exact .inl howner
  · rcases howed with howed | howed
    · exact .inr ⟨types, howed.symm.trans hpromised⟩
    · rw [howed] at hpromised
      cases hpromised

/-- Only an operation that takes a selection for the remote client makes it the agent's. -/
theorem of_step (step : Step stage next) (h : next.Taken selection) :
    stage.Taken selection ∨ next.history.any (·.takes selection) = true := by
  cases step with
  | promise operation taken types htaken idle =>
    rcases h with howner | ⟨promised, hpromised⟩
    · exact .inl (.inl howner)
    obtain ⟨⟨grabbed, asked⟩, hgrab, hgrabbed⟩ := Option.bind_eq_some_iff.mp htaken
    dsimp only at hgrabbed
    split at hgrabbed
    case isTrue =>
      cases hgrabbed
      cases hpromised
      right
      simp [Stage.did, Stage.due, Moment.takes, hgrab]
    case isFalse => cases hgrabbed
  | surrender changed clear idle =>
    rcases h with howner | hpromised
    · left
      left
      change (stage.relay.slots.setHolder changed .nobody).owner selection = .agent at howner
      rw [Slots.owner_setHolder] at howner
      split at howner
      · cases howner
      · exact howner
    · exact .inl (.inr hpromised)
  | install changed holder clear owed =>
    rcases h with howner | ⟨types, hpromised⟩
    · left
      change (stage.relay.slots.setHolder changed holder).owner selection = .agent at howner
      rw [Slots.owner_setHolder] at howner
      split at howner
      case isTrue same =>
        cases holder with
        | nobody | desktop offers => cases howner
        | agent types => exact .inr ⟨types, by rw [owed, same]⟩
      case isFalse => exact .inl howner
    · cases hpromised
  | await atom awaited named vacant idle =>
    rcases h with howner | hpromised
    · left
      left
      exact (congrArg Holder.owner (stage.relay.slots.holder_await awaited selection)).symm.trans
        howner
    · exact .inl (.inr hpromised)
  | countOff answering =>
    rcases h with howner | hpromised
    · left
      left
      exact (congrArg Holder.owner (stage.relay.slots.holder_arrive answering selection)).symm.trans
        howner
    · exact .inl (.inr hpromised)
  | claim answering property words notices idle current free content known plain =>
    rcases h with howner | ⟨types, hpromised⟩
    · left
      left
      exact (congrArg Holder.owner (stage.relay.slots.holder_arrive answering selection)).symm.trans
        howner
    · cases hpromised
  | dropRequests =>
    left
    dsimp only at h
    split at h <;> exact h.of_eq rfl (.inl rfl)
  | dropFetches =>
    left
    dsimp only at h
    split at h <;> exact h.of_eq rfl (.inl rfl)
  | _ => exact .inl (h.of_eq rfl (.inl rfl))

theorem of_break (broke : Break stage next) (h : next.Taken selection) :
    stage.Taken selection := by
  cases broke <;> exact h.of_eq rfl (.inr rfl)

end Stage.Taken

theorem Action.Ensures.taken_run [Display δ] {action : Action δ Unit} {origin : Stage}
    {session : Session δ} {history : History} {selection : Selection}
    (h : action.Ensures (origin.Reaches fun _ last => last.duty = {}) origin.Faults session.relay
      history)
    (howner : (action.run session).2.relay.slots.owner selection = .agent) :
    origin.Taken selection ∨
      (history ++ action.history session).any (·.takes selection) = true := by
  refine h.holds_run (fun stage => stage.Taken selection → origin.Taken selection ∨
    stage.history.any (·.takes selection) = true) ?_ ?_ .inl (.inl howner)
  · intro stage next step hstage hnext
    rcases Stage.Taken.of_step step hnext with htaken | htakes
    · obtain ⟨added, hadded⟩ := step.history_prefix
      rw [← hadded, List.any_append]
      exact (hstage htaken).imp_right fun htakes => by rw [htakes, Bool.true_or]
    · exact .inr htakes
  · intro stage next broke hstage hnext
    obtain ⟨added, hadded⟩ := broke.history_prefix
    rw [← hadded, List.any_append]
    exact (hstage (.of_break broke hnext)).imp_right fun htakes => by rw [htakes, Bool.true_or]

namespace Session

variable [Display δ] {session : Session δ} {selection : Selection}

theorem not_takes_history (action : Action δ Unit) :
    (action.history session).any (·.takes selection) = false := by
  rw [List.any_eq_false]
  intro moment hmoment htakes
  unfold Moment.takes at htakes
  split at htakes
  case h_1 operation hdeed => exact action.not_began_history session moment hmoment operation hdeed
  case h_2 => cases htakes

/-- No event makes a selection the agent's, whatever calls fail. -/
theorem agent_owned_before_event (event : Event)
    (h : ((Relay.handle event).run session).2.relay.slots.owner selection = .agent) :
    session.relay.slots.owner selection = .agent := by
  have hensures := Relay.handle_ensures (δ := δ) ⟨session.relay, {}, []⟩ event rfl
  rcases hensures.taken_run h with (howner | ⟨types, hpromised⟩) | htakes
  · exact howner
  · cases hpromised
  · rw [List.any_append, not_takes_history, Bool.or_false] at htakes
    cases htakes

/-- Only an operation that takes a selection makes it the agent's, whatever calls fail. -/
theorem agent_owned_before_operation (operation : Operation)
    (h : (operation.action.run session).2.relay.slots.owner selection = .agent) :
    session.relay.slots.owner selection = .agent ∨
      ∃ types, operation.grab? = some (selection, types) := by
  have hcompletes := Relay.operation_completes (δ := δ) ⟨session.relay, {}, []⟩ operation rfl
  rcases hcompletes.taken_run h with (howner | ⟨types, hpromised⟩) | htakes
  · exact .inl howner
  · cases hpromised
  · rw [List.any_append, not_takes_history, Bool.or_false] at htakes
    have hgrab : operation.grab?.any (·.1 = selection) = true := by
      simpa [Moment.takes] using htakes
    obtain ⟨⟨taken, types⟩, hgrab, hsame⟩ := (Option.any_eq_true _ _).mp hgrab
    have hselection : taken = selection := by simpa using hsame
    exact .inr ⟨types, hselection ▸ hgrab⟩

end Session

theorem Relay.WellFormed.exists_atom {relay : Relay} (h : relay.WellFormed) {selection : Selection}
    (owned : relay.slots.owner selection = .agent) :
    ∃ atom, relay.vocabulary.atom? selection = some atom := by
  cases selection with
  | clipboard => exact ⟨_, rfl⟩
  | primary => exact ⟨_, rfl⟩
  | secondary =>
    rw [Slots.owner, Slots.holder, Slots.get, h.secondary] at owned
    cases owned

theorem Memory.Display.queue_calm : queue.Calm := by
  intro asked given display after hasked h
  obtain ⟨rules, hanswer⟩ := exists_of_perform h
  rcases hasked with rfl | hhandling
  · simp only [answer] at hanswer
    split at hanswer
    case h_1 none =>
      cases hanswer
      rfl
    case h_2 event events waiting =>
      cases hanswer
      exact waiting
  · have hevents := events_answer_of_handling hhandling
      ({ display with rules }.record (.made asked))
    rw [hanswer] at hevents
    rw [Call.event?_of_handling hhandling]
    exact hevents.symm

namespace Course

variable [Display δ]

/-- In every state in which the agent owns a selection, giving it up handles in turn all that waits
after the display was waited for, and the agent owns the selection no longer. If any of these events
names another owner, or nobody, nothing else is done to the relay, and otherwise only this selection
is cleared. The agent is told that a desktop owner is gone only if there was one meanwhile. And only
an operation that takes a selection for the remote client makes it the agent's. -/
theorem release_yields_to_new_owner {queue : EventQueue δ} (calm : queue.Calm) {display : δ}
    {course : Course δ} (hstart : start display = some course) {moves : List (Move δ)}
    {selection : Selection} {after : Session δ}
    (owned : (course.after moves).relay.slots.owner selection = .agent)
    (hrun : (Relay.release selection).run (course.after moves).session = (.ok (), after)) :
    let session := (course.after moves).session
    after.relay.slots.owner selection ≠ .agent ∧
      (∃ atom given synced handled,
        session.relay.vocabulary.atom? selection = some atom ∧
        Display.perform (.setSelectionOwner atom Window.null) session.display = (.ok (), given) ∧
        Display.perform .sync given = (.ok (), synced) ∧
        queue.waiting session.display <+: queue.waiting synced ∧
        (Relay.handleInTurn (queue.waiting synced)).run { session with display := synced } =
          (.ok (), handled) ∧
        if (queue.waiting synced).any (·.displaces session.relay selection) then
          after.relay = handled.relay
        else
          handled.relay.slots.owner selection = .agent ∧
            after.relay.slots = handled.relay.slots.setHolder selection .nobody) ∧
      ((Relay.release selection).history session).ReleasesOwned selection ∧
      (∀ (other : Session δ) event taken,
        ((Relay.handle event).run other).2.relay.slots.owner taken = .agent →
          other.relay.slots.owner taken = .agent) ∧
      ∀ (other : Session δ) (operation : Operation) taken,
        (operation.action.run other).2.relay.slots.owner taken = .agent →
          other.relay.slots.owner taken = .agent ∨
            ∃ types, operation.grab? = some (taken, types) := by
  intro session
  have hbegan : Moment.mk session.relay (.began (.release selection)) ∈
      (course.after (moves ++ [.operate (.release selection)])).history := by
    rw [after_append]
    exact List.mem_append_right _ List.mem_cons_self
  obtain ⟨atom, bridged⟩ := (wellFormed_at_cue hstart hbegan rfl).1.exists_atom owned
  obtain ⟨given, synced, handled, hgiven, hsynced, hhandled, hended⟩ :=
    calm.release_run bridged owned hrun
  have harrived : queue.waiting session.display <+: queue.waiting synced :=
    (queue.inOrder hgiven).trans (queue.inOrder hsynced)
  have hreleases := (Relay.release_releasesOwned (δ := δ) owned).run session
  rw [hrun] at hreleases
  refine ⟨?_, ⟨atom, given, synced, handled, bridged, hgiven, hsynced, harrived, hhandled, ?_⟩,
    hreleases, fun _ event _ => Session.agent_owned_before_event event,
    fun _ operation _ => Session.agent_owned_before_operation operation⟩
  · split at hended
    case isTrue => rw [hended.2]; exact hended.1
    case isFalse =>
      rw [hended.2, Slots.owner_setHolder, if_pos rfl]
      decide
  · split
    case isTrue displaced => rw [if_pos displaced] at hended; exact hended.2
    case isFalse undisputed => rw [if_neg undisputed] at hended; exact hended

/-- The agent owns the clipboard and an application waits for its data. Another application takes
the clipboard while the agent gives it up, and says at once what it offers. -/
def takenMeanwhile : List (Move Memory.Display) :=
  [.operate (.grab .clipboard [.utf8Text]),
    .elapse {
      events := [.selectionRequest ⟨0, ⟨7⟩, ⟨100⟩, ⟨105⟩, ⟨52⟩⟩]
      onSync := [.ownerChanged ⟨100⟩ ⟨42⟩, .selectionNotify ⟨0, ⟨1⟩, ⟨100⟩, ⟨102⟩, ⟨102⟩⟩]
      properties := { entries :=
        [⟨⟨1⟩, ⟨102⟩, (Content.words [105]).toProperty Atom.atomType⟩] } }]

theorem release_yields_to_new_owner_takenMeanwhile :
    ∃ course, start ({} : Memory.Display) = some course ∧
      (course.after takenMeanwhile).relay.slots.owner .clipboard = .agent ∧
      ∃ after, (Relay.release .clipboard).run (course.after takenMeanwhile).session =
          (.ok (), after) ∧
        after.relay.slots.owner .clipboard ≠ .agent ∧
        after.relay.slots.holder .clipboard = .desktop [⟨.utf8Text, ⟨105⟩⟩] ∧
        ((Relay.release .clipboard).history (course.after takenMeanwhile).session).ReleasesOwned
          .clipboard := by
  have hstart : start ({} : Memory.Display) =
      some ((start {}).get (by decide +kernel)) := (Option.some_get _).symm
  have howned : (((start ({} : Memory.Display)).get (by decide +kernel)).after
      takenMeanwhile).relay.slots.owner .clipboard = .agent := by decide +kernel
  have hrun : ((Relay.release .clipboard).run (((start ({} : Memory.Display)).get
      (by decide +kernel)).after takenMeanwhile).session).1 = .ok () := by decide +kernel
  obtain ⟨hgone, -, hreleases, -⟩ :=
    release_yields_to_new_owner Memory.Display.queue_calm hstart howned (Action.run_of_ok hrun)
  exact ⟨_, hstart, howned, _, Action.run_of_ok hrun, hgone, by decide +kernel, hreleases⟩

end Course

end ClipboardRelay
