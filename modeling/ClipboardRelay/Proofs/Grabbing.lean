import ClipboardRelay.Proofs.Draining
/-!
Taking a selection for the remote client. The relay takes it first and then handles all events that
came before and since, so an owner that was reported earlier displaces the relay as a later one
does. Main statement: a grab lasts exactly if no event that is handled during it names another
owner.
-/

namespace ClipboardRelay

namespace Holder

def advertised? : Holder → Option (List ContentType)
  | agent types => some types
  | nobody | desktop _ => none

theorem advertised?_eq_some_iff {holder : Holder} {types : List ContentType} :
    holder.advertised? = some types ↔ holder.owner = .agent ∧ holder.types = types := by
  cases holder <;> simp [advertised?, owner, Holder.types]

theorem advertised?_eq_none {holder : Holder} (h : holder.owner ≠ .agent) :
    holder.advertised? = none := by
  cases holder with
  | nobody | desktop offers => rfl
  | agent types => exact absurd rfl h

end Holder

namespace Moment

theorem not_displaces_of_not_poll {moment : Moment} (selection : Selection)
    (h : moment.deed.isPoll = false) : moment.displaces selection = false := by
  simp [displaces, event?_of_not_poll h]

end Moment

namespace Relay

variable {δ : Type} {relay : Relay} {history : History}

def advertised? (relay : Relay) (selection : Selection) : Option (List ContentType) :=
  (relay.slots.holder selection).advertised?

theorem advertised?_of_standing {after : Relay} (h : after.standing = relay.standing)
    (selection : Selection) : after.advertised? selection = relay.advertised? selection :=
  congrArg (fun standing => (standing.2.holder selection).advertised?) h

open ClipboardRelay.Action (Spares Yields)

theorem slots_changeHolder (selection : Selection) (holder : Holder) :
    (changeHolder selection holder : Action δ Unit).Yields (fun _ after _ =>
      after.slots = relay.slots.setHolder selection holder) relay history := by
  have hrequests : Yields (fun _ => Spared standing Deed.isHandling relay history)
      (dropRequests selection : Action δ Unit) relay history :=
    (spares_standing_of_serving (dropRequests_spares selection)).yields_spared .refl
  refine (changeHolder_yields holder hrequests
    (spares_standing_of_fetching (spares_of_advancing (dropFetches_spares selection))) rfl).mono ?_
  rintro _ _ _ ⟨⟨last, hkept, rfl⟩, -⟩
  exact congrArg (Slots.setHolder · selection holder) (congrArg Prod.snd hkept :)

variable {selection : Selection} {known : Option (List ContentType)}

theorem changeHolder_advertised (changed : Selection) (holder : Holder)
    (h : relay.advertised? selection = known) :
    (changeHolder changed holder : Action δ Unit).Yields (fun _ after _ =>
      after.advertised? selection = if changed = selection then holder.advertised? else known)
      relay history := by
  refine (slots_changeHolder changed holder).mono fun _ after _ hslots => ?_
  rw [advertised?, hslots, Slots.holder_setHolder]
  split
  · rfl
  · exact h

theorem keeps_advertised {α : Type} {action : Action δ α}
    (hspares : action.Spares standing Deed.isHandling) (h : relay.advertised? selection = known) :
    action.Yields (fun _ after _ => after.advertised? selection = known) relay history :=
  hspares.yields fun _ _ _ hkept _ => (advertised?_of_standing hkept selection).trans h

theorem handleOwner_advertised (atom : Atom) (owner : Window)
    (h : relay.advertised? selection = known) :
    (handleOwner atom owner : Action δ Unit).Yields (fun _ after _ => after.advertised? selection =
      if relay.vocabulary.selection? atom = some selection ∧ owner ≠ relay.window then none
      else known) relay history := by
  refine .current_bind ?_
  rcases hnamed : relay.vocabulary.selection? atom with _ | changed
  · simpa using h
  refine Yields.bind (keeps_advertised (spares_remark rfl) h) fun _ noted _ hnoted => ?_
  by_cases own : owner = relay.window
  · rw [if_pos own, if_neg fun displaced => displaced.2 own]
    exact hnoted
  have hdisplaced : (if some changed = some selection ∧ owner ≠ relay.window then none else known) =
      if changed = selection then none else known := by simp [own]
  rw [if_neg own, hdisplaced]
  refine Yields.bind (changeHolder_advertised changed .nobody hnoted) fun _ last _ hlast => ?_
  by_cases gone : owner = Window.null
  · rw [if_pos gone]
    exact hlast
  · rw [if_neg gone]
    refine ensures_call_bind (fun _ => ?_) fun _ => trivial
    rw [ensures_update, advertised?, Slots.holder_await]
    exact hlast

theorem acceptTargets_advertised {answering : Selection} (offered : List Atom)
    (free : relay.slots.owner answering ≠ .agent) (h : relay.advertised? selection = known) :
    (acceptTargets answering offered : Action δ Unit).Yields (fun _ after _ =>
      after.advertised? selection = known) relay history := by
  have hlisted : (remarkTargets answering .targetsReceived offered : Action δ Unit).Yields
      (fun _ after _ => after = relay) relay history := rfl
  refine hlisted.bind fun _ after _ hafter => .current_bind ?_
  subst hafter
  split
  · exact keeps_advertised (spares_remark rfl) h
  · rw [Yields, Action.ensures_bind, ensures_send]
    refine (changeHolder_advertised answering (.desktop _) h).mono fun _ _ _ hlast => ?_
    rw [hlast, Holder.advertised?]
    split
    case isTrue same => rw [← h, ← same, advertised?, Holder.advertised?_eq_none free]
    case isFalse => rfl

theorem handleTargets_advertised (notify : SelectionNotify)
    (h : relay.advertised? selection = known) :
    (handleTargets notify : Action δ Unit).Yields (fun _ after _ =>
      after.advertised? selection = known) relay history := by
  have discarded : Spares standing Deed.isHandling (discardTargets notify : Action δ Unit) :=
    spares_standing_of_looking (discardTargets_spares notify)
  refine .current_bind ?_
  split
  case h_1 foreign => exact keeps_advertised (.bind (spares_note rfl) fun _ => discarded) h
  case h_2 named hnamed =>
    have harrived := relay.slots.holder_arrive named selection
    rcases harrive : relay.slots.arrive named with ⟨arrival, slots⟩
    rw [harrive] at harrived
    refine .update_bind ?_
    have hslots : ({ relay with slots } : Relay).advertised? selection = known :=
      (congrArg Holder.advertised? harrived).trans h
    cases arrival with
    | unexpected => exact keeps_advertised (.bind (spares_remark rfl) fun _ => discarded) hslots
    | stale => exact keeps_advertised (.bind (spares_remark rfl) fun _ => discarded) hslots
    | current =>
      dsimp only
      split
      case isTrue owned =>
        exact keeps_advertised (.bind (spares_remark rfl) fun _ => discarded) hslots
      case isFalse free =>
        have hread : (readTargets named notify : Action δ _).Yields
            (fun _ after _ => after = { relay with slots }) { relay with slots } history :=
          (readTargets_spares named notify).yields fun _ _ _ hkept _ => hkept
        refine hread.bind fun offered after _ hafter => ?_
        subst hafter
        split
        case h_1 => exact hslots
        case h_2 offered => exact acceptTargets_advertised offered free hslots

theorem handle_keeps_advertised {event : Event}
    (hother : ∀ atom owner, event ≠ .ownerChanged atom owner)
    (h : relay.advertised? selection = known) :
    (handle event : Action δ Unit).Yields (fun _ after _ => after.advertised? selection = known)
      relay history := by
  cases event with
  | ownerChanged atom owner => exact absurd rfl (hother atom owner)
  | selectionNotify notify =>
    refine .current_bind ?_
    split
    · exact handleTargets_advertised notify h
    · exact keeps_advertised (spares_standing_of_fetching (handleConversion_spares notify)) h
  | selectionRequest request =>
    exact keeps_advertised (spares_standing_of_serving (queueRequest_spares request)) h
  | propertyStored window property =>
    exact keeps_advertised (spares_standing_of_fetching (handleStored_spares window property)) h
  | propertyDeleted window property =>
    exact keeps_advertised (spares_standing_of_serving (handleDeleted_spares window property)) h
  | rootResized size =>
    refine .current_bind ?_
    split
    · exact h
    · exact h
  | protocolError | other | selectionCleared | mappingChanged => exact h

theorem handle_advertised (selection : Selection) (event : Event) :
    (handle event : Action δ Unit).Yields (fun _ after _ => after.advertised? selection =
      if (Moment.mk relay (.called .pollEvent (some event))).displaces selection then none
      else relay.advertised? selection) relay history := by
  by_cases howner : ∃ atom owner, event = .ownerChanged atom owner
  · obtain ⟨atom, owner, rfl⟩ := howner
    change (handleOwner atom owner : Action δ Unit).Yields _ relay history
    simpa [Moment.displaces] using handleOwner_advertised atom owner rfl
  · have hother : ∀ atom owner, event ≠ .ownerChanged atom owner :=
      fun atom owner hevent => howner ⟨atom, owner, hevent⟩
    have hkept :
        (Moment.mk relay (.called .pollEvent (some event))).displaces selection = false := by
      unfold Moment.displaces
      split
      case h_1 atom owner hevent => exact absurd (Option.some.inj hevent) (hother atom owner)
      case h_2 => rfl
    rw [hkept]
    exact handle_keeps_advertised hother rfl

/-- Whether the agent's offer of some types is what is left of it after a history. -/
def Lasts (selection : Selection) (types : List ContentType) (relay : Relay) (history : History) :
    Prop :=
  relay.advertised? selection =
    if history.any (Moment.displaces selection) then none else some types

variable {types : List ContentType}

theorem Lasts.calmly {added : History} {after : Relay} (h : Lasts selection types relay history)
    (hkept : after.advertised? selection = relay.advertised? selection)
    (hadded : ∀ moment ∈ added, moment.displaces selection = false) :
    Lasts selection types after (history ++ added) := by
  have hnone : added.any (Moment.displaces selection) = false := by
    simpa using hadded
  rw [Lasts, hkept, List.any_append, hnone, Bool.or_false]
  exact h

theorem calm_of_handling {α σ : Type} {kept : Relay → σ} {action : Action δ α}
    (hspares : action.Spares kept Deed.isHandling) (selection : Selection) :
    action.Yields (fun _ _ later => ∃ added, later = history ++ added ∧
      ∀ moment ∈ added, moment.displaces selection = false) relay history :=
  hspares.yields fun _ _ added _ hadded => ⟨added, rfl, fun moment hmoment =>
    moment.not_displaces_of_not_poll selection (Deed.not_poll_of_handling (hadded moment hmoment))⟩

theorem Lasts.handle (h : Lasts selection types relay history) (event : Event) :
    (handle event : Action δ Unit).Yields (fun _ => Lasts selection types) relay
      (history ++ [⟨relay, .called .pollEvent (some event)⟩]) := by
  refine ((handle_advertised selection event).and
    (calm_of_handling (handle_spares event) selection)).mono ?_
  rintro _ after _ ⟨hafter, added, rfl, hadded⟩
  have hpolled : Lasts selection types after
      (history ++ [⟨relay, .called .pollEvent (some event)⟩]) := by
    rw [Lasts, hafter, h, List.any_append, List.any_cons, List.any_nil, Bool.or_false]
    split
    case isTrue displaced => simp [displaced]
    case isFalse kept => simp [kept]
  exact hpolled.calmly rfl hadded

theorem Lasts.dispatch [Display δ] (h : Lasts selection types relay history) :
    (dispatch : Action δ Unit).Yields (fun _ => Lasts selection types) relay history := by
  have calm (moment : Moment) (hevent : moment.event? = none) :
      ∀ other ∈ [moment], other.displaces selection = false := by
    simp [Moment.displaces, hevent]
  intro display
  exact drain_yields (fun relay _ hrest => hrest.calmly rfl (calm _ rfl))
    (fun relay _ hrest => hrest.calmly rfl (calm _ rfl)) (fun event _ _ hrest => hrest.handle event)
    _ h

theorem changeHolder_lasts (hcalm : ∀ moment ∈ history, moment.displaces selection = false) :
    (changeHolder selection (.agent types) : Action δ Unit).Yields
      (fun _ => Lasts selection types) relay history := by
  refine ((slots_changeHolder selection (.agent types)).and
    (calm_of_handling (changeHolder_spares selection _) selection)).mono ?_
  rintro _ after _ ⟨hslots, added, rfl, hadded⟩
  have hheld : Lasts selection types after [] := by
    rw [Lasts, advertised?, hslots, Slots.holder_setHolder_self]
    rfl
  rw [← List.nil_append (history ++ added)]
  apply hheld.calmly rfl
  intro moment hmoment
  exact (List.mem_append.mp hmoment).elim (hcalm moment) (hadded moment)

theorem grab_lasts [Display δ] {atom : Atom}
    (bridged : relay.vocabulary.atom? selection = some atom)
    (wanted : ContentType.distinct types ≠ []) :
    (grab selection types : Action δ Unit).Yields
      (fun _ => Lasts selection (ContentType.distinct types)) relay [] := by
  refine .current_bind ?_
  rw [bridged]
  dsimp only
  rw [if_neg (by simpa using wanted)]
  refine ensures_call_bind (fun _ => ?_) fun _ => trivial
  have htaken : (changeHolder selection (.agent (ContentType.distinct types)) :
      Action δ Unit).Yields (fun _ => Lasts selection (ContentType.distinct types)) relay
        [⟨relay, .called (.setSelectionOwner atom relay.window) ()⟩] :=
    changeHolder_lasts (by simp [Moment.displaces, Moment.event?])
  exact htaken.bind fun _ _ _ => Lasts.dispatch

end Relay

namespace EventQueue

variable {δ : Type} [Display δ] (queue : EventQueue δ)

/-- Whether a display reports the owner that a client gives a selection, behind the events that came
before. -/
def Reports (display : δ) : Prop :=
  ∀ selection owner after,
    Display.perform (.setSelectionOwner selection owner) display = (.ok (), after) →
      queue.waiting display ++ [.ownerChanged selection owner] <+: queue.waiting after

/-- A grab that ends well has handled all events that came before it, then the report of itself and
what came since. It lasts exactly if none of all these events names another owner. -/
theorem grab_lasts_iff_undisputed {session after : Session δ}
    (reports : queue.Reports session.display) {selection : Selection} {atom : Atom}
    {types : List ContentType}
    (bridged : session.relay.vocabulary.atom? selection = some atom)
    (wanted : ContentType.distinct types ≠ [])
    (h : (Relay.grab selection types).run session = (.ok (), after)) :
    (∃ later, History.events ((Relay.grab selection types).history session) =
      queue.waiting session.display ++ .ownerChanged atom session.relay.window :: later) ∧
    ((after.relay.slots.owner selection = .agent ∧
        after.relay.slots.types selection = ContentType.distinct types) ↔
      ∀ moment ∈ (Relay.grab selection types).history session,
        moment.displaces selection = false) := by
  constructor
  · have hempty : queue.waiting after.display = [] := grab_empties (by
      rintro (unbridged | none)
      · rw [bridged] at unbridged
        cases unbridged
      · exact wanted none) h
    rw [Relay.grab, Relay.run_current_bind, bridged] at h
    rw [Relay.grab, Relay.history_current_bind, bridged]
    dsimp only at h ⊢
    rw [if_neg (by simpa using wanted)] at h ⊢
    obtain ⟨_, taken, htake, h⟩ := Action.exists_of_run_bind h
    rw [Action.history_bind, History.events_append, Session.events_history_call fun _ => rfl, htake,
      List.nil_append]
    obtain ⟨display, htaken, rfl⟩ := Relay.exists_of_run_call htake
    have hreported := reports atom session.relay.window display htaken
    have hhandled := queue.inOrder_run h
    rw [hempty, List.append_nil] at hhandled
    obtain ⟨later, hlater⟩ := hreported.trans hhandled
    exact ⟨later, by rw [← hlater, List.append_assoc, List.singleton_append]⟩
  · have hlasts := (Relay.grab_lasts bridged wanted).run session
    rw [h, List.nil_append] at hlasts
    rw [Slots.owner, Slots.types, ← Holder.advertised?_eq_some_iff, ← Relay.advertised?, hlasts]
    simp

end EventQueue

theorem Memory.Display.queue_reports {display : Memory.Display}
    (h : display.reportsOwner = true) : queue.Reports display := by
  intro selection owner after hset
  obtain ⟨rules, hanswer⟩ := exists_of_perform hset
  simp only [answer, record, h, if_true] at hanswer
  cases hanswer
  exact List.prefix_rfl

namespace Course

theorem grab_lasts_iff_undisputed_busy : ∃ course, start ({} : Memory.Display) = some course ∧
    ∃ after, (Relay.grab .clipboard [.utf8Text, .none, .utf8Text]).run
        (course.move (.elapse busy)).session = (.ok (), after) ∧
      (∃ later, History.events ((Relay.grab .clipboard [.utf8Text, .none, .utf8Text]).history
          (course.move (.elapse busy)).session) =
        Memory.Display.queue.waiting (course.move (.elapse busy)).session.display ++
          .ownerChanged ⟨100⟩ (course.move (.elapse busy)).session.relay.window :: later) ∧
      after.relay.slots.owner .clipboard = .agent ∧
      after.relay.slots.types .clipboard = ContentType.distinct [.utf8Text, .none, .utf8Text] := by
  have hstart : start ({} : Memory.Display) =
      some ((start {}).get (by decide +kernel)) := (Option.some_get _).symm
  have hreports (course : Course Memory.Display) :
      Memory.Display.queue.Reports (course.move (.elapse busy)).session.display :=
    Memory.Display.queue_reports rfl
  have hbridged : (((start ({} : Memory.Display)).get (by decide +kernel)).move
      (.elapse busy)).session.relay.vocabulary.atom? .clipboard = some ⟨100⟩ := by decide +kernel
  have hrun : ((Relay.grab .clipboard [.utf8Text, .none, .utf8Text]).run
      (((start ({} : Memory.Display)).get (by decide +kernel)).move (.elapse busy)).session).1 =
        .ok () := by decide +kernel
  have hundisputed : ∀ moment ∈ (Relay.grab .clipboard [.utf8Text, .none, .utf8Text]).history
      (((start ({} : Memory.Display)).get (by decide +kernel)).move (.elapse busy)).session,
        moment.displaces .clipboard = false := by decide +kernel
  obtain ⟨hevents, hlasts⟩ := Memory.Display.queue.grab_lasts_iff_undisputed (hreports _) hbridged
    (by decide) (Action.run_of_ok hrun)
  exact ⟨_, hstart, _, Action.run_of_ok hrun, hevents, hlasts.mpr hundisputed⟩

/-- An application took the clipboard just before the agent does, and loses it by that. -/
def outrun : Memory.Display :=
  { events := [.ownerChanged ⟨100⟩ ⟨42⟩] }

/-- The report of the application is the older one, and yet the agent's offer is gone, and nobody is
left as the owner. -/
theorem grab_undone_by_older_event : ∃ course, start ({} : Memory.Display) = some course ∧
    ((Relay.grab .clipboard [.utf8Text]).run (course.move (.elapse outrun)).session).1 = .ok () ∧
    History.events ((Relay.grab .clipboard [.utf8Text]).history
        (course.move (.elapse outrun)).session) =
      [.ownerChanged ⟨100⟩ ⟨42⟩, .ownerChanged ⟨100⟩ (course.move (.elapse outrun)).relay.window] ∧
    ((Relay.grab .clipboard [.utf8Text]).run
      (course.move (.elapse outrun)).session).2.relay.slots.owner .clipboard = .nobody := by
  have hstart : start ({} : Memory.Display) =
      some ((start {}).get (by decide +kernel)) := (Option.some_get _).symm
  exact ⟨_, hstart, by decide +kernel, by decide +kernel, by decide +kernel⟩

end Course

end ClipboardRelay
