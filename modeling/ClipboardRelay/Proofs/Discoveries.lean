import ClipboardRelay.Memory.Display
import ClipboardRelay.Proofs.Upholding
import Mathlib.Order.WellFounded
/-!
Finding out what a new owner offers. A reply does not say which question it answers, so the relay
counts the replies that are still to come. Main statement: as long as the replies for a selection
come in the order of the questions, only the reply to the last question is acted upon, and only
while the agent does not own the selection.
-/

namespace ClipboardRelay

namespace Moment

/-- Whether a new owner of a selection was reported that has to be asked for its targets. -/
def discovers (selection : Selection) (moment : Moment) : Bool :=
  match moment.event? with
  | some (.ownerChanged atom owner) =>
    moment.relay.vocabulary.selection? atom = some selection ∧ owner ≠ moment.relay.window ∧
      owner ≠ Window.null
  | _ => false

def asksTargets (selection : Selection) (moment : Moment) : Bool :=
  match moment.deed with
  | .called (.convertSelection atom target property) _ =>
    moment.relay.vocabulary.selection? atom = some selection ∧
      target = moment.relay.vocabulary.targets ∧ property = moment.relay.vocabulary.targets
  | _ => false

variable {moment : Moment} (selection : Selection)

theorem not_discovers_of_not_poll (h : moment.deed.isPoll = false) :
    moment.discovers selection = false := by
  simp [discovers, event?_of_not_poll h]

theorem not_describes_of_not_poll (h : moment.deed.isPoll = false) :
    moment.describes selection = false := by
  simp [describes, event?_of_not_poll h]

theorem not_discovers_of_idle (h : moment.isIdle = true) : moment.discovers selection = false := by
  unfold discovers
  split
  case h_1 hpoll => cases idle_of_polled h hpoll
  case h_2 => rfl

theorem not_describes_of_idle (h : moment.isIdle = true) : moment.describes selection = false := by
  unfold describes
  split
  case h_1 hpoll => cases idle_of_polled h hpoll
  case h_2 => rfl

end Moment

namespace History

def discoveries (selection : Selection) (history : History) : Nat :=
  history.countP (·.discovers selection)

def descriptions (selection : Selection) (history : History) : Nat :=
  history.countP (·.describes selection)

/-- Whether the owners' replies come in the order of the questions, at most one to each: the reply
with number `k` for a selection is to the question with number `answered selection k`, which was
asked before. -/
def RepliesInTurn (answered : Selection → Nat → Nat) (history : History) : Prop :=
  ∀ selection, StrictMono (answered selection) ∧ history.Always fun before moment =>
    moment.describes selection = true →
      answered selection (before.descriptions selection) < before.discoveries selection

variable {history added : History} {selection : Selection}

theorem RepliesInTurn.of_append {answered : Selection → Nat → Nat}
    (h : RepliesInTurn answered (history ++ added)) : RepliesInTurn answered history := by
  refine fun selection => ⟨(h selection).1, fun before moment rest hsplit => ?_⟩
  refine (h selection).2 before moment (rest ++ added) ?_
  rw [hsplit, List.append_assoc, List.cons_append]

theorem discoveries_append :
    (history ++ added).discoveries selection =
      history.discoveries selection + added.discoveries selection :=
  List.countP_append

theorem descriptions_append :
    (history ++ added).descriptions selection =
      history.descriptions selection + added.descriptions selection :=
  List.countP_append

theorem discoveries_quiet (h : ∀ moment ∈ added, moment.deed.isPoll = false) :
    (history ++ added).discoveries selection = history.discoveries selection := by
  rw [discoveries_append, Nat.add_eq_left, discoveries, List.countP_eq_zero]
  intro moment hmoment
  simp [moment.not_discovers_of_not_poll selection (h moment hmoment)]

theorem descriptions_quiet (h : ∀ moment ∈ added, moment.deed.isPoll = false) :
    (history ++ added).descriptions selection = history.descriptions selection := by
  rw [descriptions_append, Nat.add_eq_left, descriptions, List.countP_eq_zero]
  intro moment hmoment
  simp [moment.not_describes_of_not_poll selection (h moment hmoment)]

theorem exists_last_discovery {count : Nat} (h : history.discoveries selection = count + 1) :
    ∃ before discovery since, history = before ++ discovery :: since ∧
      discovery.discovers selection = true ∧ discoveries selection before = count ∧
      ∀ moment ∈ since, moment.discovers selection = false := by
  induction history using List.reverseRecOn with
  | nil => cases h
  | append_singleton history last ih =>
    rw [discoveries_append] at h
    cases hlast : last.discovers selection with
    | true =>
      refine ⟨history, last, [], rfl, hlast, ?_, by simp⟩
      simpa [discoveries, hlast] using h
    | false =>
      obtain ⟨before, discovery, since, rfl, hdiscovery, hbefore, hsince⟩ := ih (by
        simpa [discoveries, hlast] using h)
      refine ⟨before, discovery, since ++ [last], by simp, hdiscovery, hbefore, ?_⟩
      simpa [or_imp, forall_and, hlast] using hsince

end History

/-- The relay's count of replies to come is right, and every new owner was asked for its targets. -/
structure Counted (relay : Relay) (history : History) : Prop where
  balance : ∀ selection, (relay.slots.get selection).awaited + history.descriptions selection =
    history.discoveries selection
  asked : ∀ selection before discovery since, history = before ++ discovery :: since →
    discovery.discovers selection = true → ∃ moment ∈ since, moment.asksTargets selection = true

namespace Counted

variable {relay after : Relay} {history added : History}

theorem extend (h : Counted relay history)
    (hbalance : ∀ selection, (after.slots.get selection).awaited + added.descriptions selection =
      (relay.slots.get selection).awaited + added.discoveries selection)
    (hasked : ∀ selection before discovery since, added = before ++ discovery :: since →
      discovery.discovers selection = true →
        ∃ moment ∈ since, moment.asksTargets selection = true) :
    Counted after (history ++ added) := by
  refine ⟨fun selection => ?_, fun selection before discovery since hsplit hdiscovery => ?_⟩
  · have hbefore := h.balance selection
    have hadded := hbalance selection
    rw [History.descriptions_append, History.discoveries_append]
    omega
  · rcases History.split_append hsplit with ⟨middle, hhistory, rfl⟩ | ⟨middle, -, hadded⟩
    · obtain ⟨moment, hmoment, hasks⟩ := h.asked selection before discovery middle hhistory
        hdiscovery
      exact ⟨moment, List.mem_append_left _ hmoment, hasks⟩
    · exact hasked selection middle discovery since hadded hdiscovery

theorem calmly (h : Counted relay history) (hawaits : after.awaits = relay.awaits)
    (hadded : ∀ moment ∈ added, ∀ selection, moment.discovers selection = false ∧
      moment.describes selection = false) : Counted after (history ++ added) := by
  have hnone (selection : Selection) : added.discoveries selection = 0 ∧
      added.descriptions selection = 0 := by
    simp only [History.discoveries, History.descriptions, List.countP_eq_zero]
    exact ⟨fun moment hmoment => by simp [(hadded moment hmoment selection).1],
      fun moment hmoment => by simp [(hadded moment hmoment selection).2]⟩
  refine h.extend (fun selection => ?_) ?_
  · rw [(hnone selection).1, (hnone selection).2]
    exact congrFun (congrArg Prod.snd hawaits) selection
  · intro selection before discovery since hsplit hdiscovery
    have hquiet := (hadded discovery (hsplit ▸ List.mem_append_right _ List.mem_cons_self)
      selection).1
    rw [hdiscovery] at hquiet
    cases hquiet

theorem yields {δ α : Type} (h : Counted relay history) {action : Action δ α}
    (hspares : action.Spares Relay.awaits Deed.isHandling) :
    action.Yields (fun _ => Counted) relay history := by
  refine hspares.yields fun _ after added hawaits hadded => h.calmly hawaits ?_
  intro moment hmoment selection
  have hquiet := Deed.not_poll_of_handling (hadded moment hmoment)
  exact ⟨moment.not_discovers_of_not_poll selection hquiet,
    moment.not_describes_of_not_poll selection hquiet⟩

end Counted

open Relay

section Handling

variable {δ : Type} {relay : Relay} {history : History}

theorem Counted.yields_polled (h : Counted relay history) {event : Event}
    (hevent : ∀ selection,
      (Moment.mk relay (.called .pollEvent (some event))).discovers selection = false ∧
      (Moment.mk relay (.called .pollEvent (some event))).describes selection = false)
    {action : Action δ Unit} (hspares : action.Spares Relay.awaits Deed.isHandling) :
    action.Yields (fun _ => Counted) relay
      (history ++ [⟨relay, .called .pollEvent (some event)⟩]) :=
  (h.calmly rfl (by simpa using hevent)).yields hspares

theorem Counted.discovered (h : Counted relay history) {after : Relay} {atom : Atom}
    {owner : Window} {selection : Selection}
    (named : relay.vocabulary.selection? atom = some selection) (other : owner ≠ relay.window)
    (present : owner ≠ Window.null) {added : History} (hawaits : after.awaits = relay.awaits)
    (hadded : ∀ moment ∈ added, moment.deed.isPoll = false) :
    Counted (after.withSlots (after.slots.await selection))
      (history ++ [⟨relay, .called .pollEvent (some (.ownerChanged atom owner))⟩] ++ added ++
        [⟨after, .called (.convertSelection atom relay.vocabulary.targets
          relay.vocabulary.targets) ()⟩]) := by
  have hvocabulary : after.vocabulary = relay.vocabulary :=
    congrArg (fun awaits => awaits.1.2) hawaits
  have hdiscovers (asked : Selection) : (Moment.mk relay (.called .pollEvent
      (some (.ownerChanged atom owner)))).discovers asked = decide (selection = asked) := by
    simp [Moment.discovers, named, other, present]
  have hquiet : ∀ moment ∈ added ++ [⟨after, .called (.convertSelection atom
      relay.vocabulary.targets relay.vocabulary.targets) ()⟩], moment.deed.isPoll = false := by
    simpa [or_imp, forall_and, Deed.isPoll] using hadded
  rw [List.append_assoc, List.append_assoc]
  refine h.extend (fun asked => ?_) fun asked before discovery since hsplit hdiscovery => ?_
  · rw [History.descriptions_quiet hquiet, History.discoveries_quiet hquiet]
    have hawaited := congrFun (congrArg Prod.snd hawaits) asked
    simp only [awaits] at hawaited
    simp only [History.descriptions, History.discoveries, List.countP_singleton, hdiscovers,
      Moment.describes, withSlots]
    by_cases hsame : selection = asked
    · subst hsame
      simp [hawaited]
    · simp [Slots.awaited_await_of_ne _ (Ne.symm hsame), hawaited, hsame]
  · rcases History.split_append hsplit with ⟨middle, hpoll, rfl⟩ | ⟨middle, -, hcall⟩
    · rcases List.singleton_eq_append_iff.mp hpoll with ⟨-, hpoll⟩ | ⟨-, himpossible⟩
      · obtain ⟨rfl, rfl⟩ := List.cons.inj hpoll
        rw [hdiscovers, decide_eq_true_eq] at hdiscovery
        refine ⟨_, List.mem_append_right _ (List.mem_append_right _ (List.mem_singleton.mpr rfl)), ?_⟩
        simp [Moment.asksTargets, hvocabulary, named, hdiscovery]
      · cases himpossible
    · have hpoll := hquiet discovery (hcall ▸ List.mem_append_right _ List.mem_cons_self)
      rw [discovery.not_discovers_of_not_poll asked hpoll] at hdiscovery
      cases hdiscovery

theorem Counted.handleOwner (h : Counted relay history) (atom : Atom) (owner : Window) :
    (Relay.handleOwner atom owner : Action δ Unit).Yields (fun _ => Counted) relay
      (history ++ [⟨relay, .called .pollEvent (some (.ownerChanged atom owner))⟩]) := by
  have polled (hquiet : ∀ selection, (Moment.mk relay (.called .pollEvent
      (some (.ownerChanged atom owner)))).discovers selection = false) :
      Counted relay
        (history ++ [⟨relay, .called .pollEvent (some (.ownerChanged atom owner))⟩]) :=
    h.calmly rfl (by simpa [Moment.describes] using hquiet)
  unfold Relay.handleOwner
  rw [Action.Yields, Action.ensures_bind, ensures_current]
  split
  case h_1 foreign => exact polled (by simp [Moment.discovers, foreign])
  case h_2 selection named =>
    split
    case isTrue own =>
      exact (polled (by simp [Moment.discovers, own])).yields (spares_remark rfl)
    case isFalse other =>
      split
      case isTrue gone =>
        refine (polled (by simp [Moment.discovers, gone])).yields ?_
        exact .bind (spares_remark rfl) fun _ => .bind (changeHolder_spares _ _) fun _ => .pure
      case isFalse present =>
        rw [Action.ensures_bind, ensures_remark, Action.ensures_bind]
        refine (changeHolder_spares selection .nobody).yields fun _ after added hawaits hadded => ?_
        refine ensures_call_bind (fun _ => ?_) fun _ => trivial
        have hquiet : ∀ moment ∈ [⟨relay, .noted (.about selection (.newOwner owner))⟩] ++ added,
            moment.deed.isPoll = false := by
          simpa [Deed.isPoll] using fun moment hmoment =>
            Deed.not_poll_of_handling (hadded moment hmoment)
        have discovered := h.discovered named other present hawaits hquiet
        rw [← List.append_assoc _ _ added] at discovered
        exact discovered

theorem Counted.handleTargets (h : Counted relay history) (notify : SelectionNotify)
    (targets : notify.target = relay.vocabulary.targets)
    (asked : ∀ selection, relay.vocabulary.selection? notify.selection = some selection →
      (relay.slots.get selection).awaited ≠ 0) :
    (Relay.handleTargets notify : Action δ Unit).Yields (fun _ => Counted) relay
      (history ++ [⟨relay, .called .pollEvent (some (.selectionNotify notify))⟩]) := by
  have discarded : (discardTargets notify : Action δ Unit).Spares awaits
      Deed.isHandling :=
    spares_awaits_of_looking (discardTargets_spares notify)
  unfold Relay.handleTargets
  rw [Action.Yields, Action.ensures_bind, ensures_current]
  dsimp only
  split
  case h_1 foreign =>
    have polled : Counted relay
        (history ++ [⟨relay, .called .pollEvent (some (.selectionNotify notify))⟩]) :=
      h.calmly rfl (by simp [Moment.discovers, Moment.describes, foreign])
    exact polled.yields (.bind (spares_note rfl) fun _ => discarded)
  case h_2 selection named =>
    have hdescribes (other : Selection) : (Moment.mk relay (.called .pollEvent
        (some (.selectionNotify notify)))).describes other = decide (selection = other) := by
      simp [Moment.describes, targets, named]
    have counted : Counted (relay.withSlots (relay.slots.arrive selection).2)
        (history ++ [⟨relay, .called .pollEvent (some (.selectionNotify notify))⟩]) := by
      refine h.extend (fun other => ?_) ?_
      · have hasked := asked selection named
        simp only [History.descriptions, History.discoveries, List.countP_singleton, hdescribes,
          Moment.discovers, withSlots]
        by_cases hsame : selection = other
        · subst hsame
          simp only [Slots.awaited_arrive_self, decide_true, if_true]
          simp
          omega
        · simp [Slots.awaited_arrive_of_ne _ (Ne.symm hsame), hsame]
      · intro other before discovery since hsplit hdiscovery
        have hpoll : discovery ∈ [Moment.mk relay (.called .pollEvent
            (some (.selectionNotify notify)))] := by
          rw [hsplit]
          exact List.mem_append_right _ List.mem_cons_self
        obtain rfl := List.mem_singleton.mp hpoll
        cases hdiscovery
    rw [Action.ensures_bind, ensures_update]
    split
    case h_1 => exact counted.yields (.bind (spares_remark rfl) fun _ => discarded)
    case h_2 => exact counted.yields (.bind (spares_remark rfl) fun _ => discarded)
    case h_3 =>
      split
      · exact counted.yields (.bind (spares_remark rfl) fun _ => discarded)
      · refine counted.yields (.bind (spares_awaits_of_looking
          (readTargets_spares selection notify)) fun offered => ?_)
        split
        · exact .pure
        · exact acceptTargets_spares _ _

/-- The relay's counts are right as long as the owners reply in turn. -/
theorem upheld_counted [Display δ] (answered : Selection → Nat → Nat) :
    Upheld δ (fun history => ¬ history.RepliesInTurn answered) Counted where
  lasting added houtOfTurn hinTurn := houtOfTurn hinTurn.of_append
  fresh relay := by
    refine ⟨fun selection => by cases selection <;> rfl, ?_⟩
    intro selection before discovery since hsplit
    simp at hsplit
  idle {relay history deed} hidle h := by
    refine h.calmly rfl fun moment hmoment selection => ?_
    obtain rfl := List.mem_singleton.mp hmoment
    exact ⟨Moment.not_discovers_of_idle selection hidle,
      Moment.not_describes_of_idle selection hidle⟩
  resized size h := ⟨h.balance, h.asked⟩
  queues {relay history operation fetch} _ h := by
    have began : Counted relay (history ++ [⟨relay, .began operation⟩]) :=
      h.calmly rfl (by simp [Moment.discovers, Moment.describes])
    exact (began.yields (spares_awaits_of_fetching
      (spares_of_advancing (queueFetch_spares fetch)))).mono
      fun _ _ _ => .inr
  changes selection holder h := (h.yields (changeHolder_spares selection holder)).mono
    fun _ _ _ => .inr
  delivers selection type data h :=
    (h.yields (spares_awaits_of_serving (deliver_spares selection type data))).mono
      fun _ _ _ => .inr
  handles {relay history event} hevent h := by
    cases event with
    | ownerChanged atom owner => exact (h.handleOwner atom owner).mono fun _ _ _ => .inr
    | selectionNotify notify =>
      refine .current_bind ?_
      split
      case isTrue targets =>
        by_cases hinTurn : History.RepliesInTurn answered
          (history ++ [⟨relay, .called .pollEvent (some (.selectionNotify notify))⟩])
        · refine (h.handleTargets notify targets fun selection named => ?_).mono
            fun _ _ _ => .inr
          have hasked := h.balance selection
          have hbefore := (hinTurn selection).2 history _ [] rfl
            (by simp [Moment.describes, targets, named])
          have hcount := (hinTurn selection).1.le_apply (x := history.descriptions selection)
          omega
        · exact (Action.spares_begun _).yields fun _ _ added _ _ =>
            .inl fun hall => hinTurn hall.of_append
      case isFalse other =>
        exact (h.yields_polled (by simp [Moment.discovers, Moment.describes, other])
          (spares_awaits_of_fetching (handleConversion_spares notify))).mono fun _ _ _ => .inr
    | selectionRequest request =>
      exact (h.yields_polled (by simp [Moment.discovers, Moment.describes])
        (spares_awaits_of_serving (queueRequest_spares request))).mono fun _ _ _ => .inr
    | propertyStored window property =>
      exact (h.yields_polled (by simp [Moment.discovers, Moment.describes])
        (spares_awaits_of_fetching (handleStored_spares window property))).mono fun _ _ _ => .inr
    | propertyDeleted window property =>
      exact (h.yields_polled (by simp [Moment.discovers, Moment.describes])
        (spares_awaits_of_serving (handleDeleted_spares window property))).mono fun _ _ _ => .inr
    | rootResized | protocolError | other | selectionCleared | mappingChanged => cases hevent

theorem Relay.handle_aside (history : History) {selection : Selection}
    {notify : SelectionNotify} (targets : notify.target = relay.vocabulary.targets)
    (named : relay.vocabulary.selection? notify.selection = some selection)
    (aside : (relay.slots.arrive selection).1 = .current → relay.slots.owner selection = .agent) :
    (Relay.handle (.selectionNotify notify) : Action δ Unit).Ensures
      (fun _ after later => after.slots.owner selection = relay.slots.owner selection ∧
        later.messages = history.messages)
      (fun after later => after.slots.owner selection = relay.slots.owner selection ∧
        later.messages = history.messages) relay history := by
  have discarded (slots : Slots) (hslots : slots.owner selection = relay.slots.owner selection)
      (what : Remark) :
      (do remark selection what; discardTargets notify : Action δ Unit).Ensures
        (fun _ after later => after.slots.owner selection = relay.slots.owner selection ∧
          later.messages = history.messages)
        (fun after later => after.slots.owner selection = relay.slots.owner selection ∧
          later.messages = history.messages) { relay with slots } history := by
    unfold discardTargets
    simp only [Action.ensures_bind, ensures_remark, ensures_current]
    split
    · exact ⟨hslots, by simp [History.messages]⟩
    · exact ⟨fun _ => ⟨hslots, by simp [History.messages]⟩,
        fun _ => ⟨hslots, by simp [History.messages]⟩⟩
  have hslots : (relay.slots.arrive selection).2.owner selection = relay.slots.owner selection := by
    simp [Slots.owner]
  unfold Relay.handle
  rw [Action.ensures_bind, ensures_current, if_pos targets]
  unfold Relay.handleTargets
  rw [Action.ensures_bind, ensures_current]
  dsimp only
  rw [named]
  dsimp only
  rw [Action.ensures_bind, ensures_update]
  split
  case h_1 => exact discarded _ hslots _
  case h_2 => exact discarded _ hslots _
  case h_3 current =>
    rw [if_pos (hslots.trans (aside current))]
    exact discarded _ hslots _

end Handling

namespace Course

variable {δ : Type} [Display δ]

open History in
/-- As long as no call fails and the owners reply in turn, a reply makes the desktop the owner of a
selection only if no later owner was asked than the one it came from, and the agent does not own the
selection. -/
theorem claim_answers_last_question {display : δ} {course : Course δ}
    (hstart : start display = some course) {moves : List (Move δ)}
    (hfaultless : (course.after moves).history.faultless = true)
    {answered : Selection → Nat → Nat}
    (hinTurn : (course.after moves).history.RepliesInTurn answered)
    {before rest : History} {moment : Moment}
    (hsplit : (course.after moves).history = before ++ moment :: rest)
    {notify : SelectionNotify} (hpoll : moment.event? = some (.selectionNotify notify))
    {selection : Selection} (hdescribes : moment.describes selection = true)
    (session : Session δ) (hsession : session.relay = moment.relay)
    (hclaims : (moment.relay.slots.owner selection ≠ .desktop ∧
        ((Relay.handle (.selectionNotify notify)).run session).2.relay.slots.owner selection =
          .desktop) ∨
      ∃ types, .grab selection types ∈
        messages ((Relay.handle (.selectionNotify notify)).history session)) :
    moment.relay.slots.owner selection ≠ .agent ∧
    ∃ earlier discovery since, before = earlier ++ discovery :: since ∧
      discovery.discovers selection = true ∧
      discoveries selection earlier = answered selection (descriptions selection before) ∧
      (∃ moment ∈ since, moment.asksTargets selection = true) ∧
      ∀ moment ∈ since, moment.discovers selection = false := by
  have counted : Counted moment.relay before :=
    (upheld_counted answered).polled hstart hfaultless (not_not.mpr hinTurn) hsplit
      (by rw [hpoll]; rfl)
  have hnotify := hdescribes
  simp only [Moment.describes, hpoll, decide_eq_true_eq] at hnotify
  obtain ⟨targets, named⟩ := hnotify
  -- A reply that is put aside makes no one the owner, and the agent is told nothing.
  have claims : (moment.relay.slots.arrive selection).1 = .current ∧
      moment.relay.slots.owner selection ≠ .agent := by
    by_contra hnot
    have aside := Relay.handle_aside (δ := δ) [] targets named
      fun current => not_not.mp fun free => hnot ⟨current, free⟩
    rw [← hsession] at aside hclaims
    obtain ⟨howner, hgrabs⟩ := aside.run_anyhow session
    obtain ⟨hlost, hgained⟩ | ⟨types, hgrab⟩ := hclaims
    · exact hlost (howner.symm.trans hgained)
    · rw [← List.nil_append (Action.history _ session), hgrabs] at hgrab
      cases hgrab
  obtain ⟨current, free⟩ := claims
  have hwaited := (Slots.awaited_of_current current).1
  have hbalance := counted.balance selection
  have hbefore := (hinTurn selection).2 before moment rest hsplit hdescribes
  have hcount : descriptions selection before ≤ answered selection (descriptions selection before) :=
    (hinTurn selection).1.le_apply
  have hlast : discoveries selection before =
      answered selection (descriptions selection before) + 1 := by omega
  obtain ⟨earlier, discovery, since, rfl, hdiscovery, hearlier, hsince⟩ :=
    exists_last_discovery hlast
  exact ⟨free, earlier, discovery, since, rfl, hdiscovery, hearlier,
    counted.asked selection earlier discovery since rfl hdiscovery, hsince⟩

def overtaking : List (Move Memory.Display) :=
  [.elapse { events := [.ownerChanged ⟨100⟩ ⟨7⟩, .ownerChanged ⟨100⟩ ⟨8⟩] }, .operate .dispatch,
    .elapse {
      properties := { entries := [⟨⟨1⟩, ⟨102⟩, (Content.words [105]).toProperty Atom.atomType⟩] }
      events := [.selectionNotify ⟨0, ⟨1⟩, ⟨100⟩, ⟨102⟩, ⟨102⟩⟩] },
    .operate .dispatch,
    .elapse {
      properties := { entries := [⟨⟨1⟩, ⟨102⟩, (Content.words [108]).toProperty Atom.atomType⟩] }
      events := [.selectionNotify ⟨0, ⟨1⟩, ⟨100⟩, ⟨102⟩, ⟨102⟩⟩] },
    .operate .dispatch]

open History in
theorem claim_answers_last_question_overtaking : ∃ course, start {} = some course ∧
    (course.after overtaking).history.faultless = true ∧
    (course.after overtaking).history.RepliesInTurn (fun _ number => number) ∧
    ∃ before moment rest, (course.after overtaking).history = before ++ moment :: rest ∧
      moment.event? = some (.selectionNotify ⟨0, ⟨1⟩, ⟨100⟩, ⟨102⟩, ⟨102⟩⟩) ∧
      descriptions .clipboard before = 1 ∧ moment.relay.slots.owner .clipboard ≠ .agent ∧
      ∃ earlier discovery since, before = earlier ++ discovery :: since ∧
        discovery.discovers .clipboard = true ∧
        discoveries .clipboard earlier = descriptions .clipboard before ∧
        (∃ moment ∈ since, moment.asksTargets .clipboard = true) ∧
        ∀ moment ∈ since, moment.discovers .clipboard = false := by
  have hstart : start ({} : Memory.Display) =
      some ((start {}).get (by decide +kernel)) := (Option.some_get _).symm
  have hfaultless : (((start ({} : Memory.Display)).get (by decide +kernel)).after
      overtaking).history.faultless = true := by decide +kernel
  have hinTurn : (((start ({} : Memory.Display)).get (by decide +kernel)).after
      overtaking).history.RepliesInTurn (fun _ number => number) :=
    fun selection => ⟨strictMono_id, by cases selection <;> decide +kernel⟩
  have hsplit := split_at (((start ({} : Memory.Display)).get (by decide +kernel)).after
      overtaking).history 22 (by decide +kernel)
  refine ⟨_, hstart, hfaultless, hinTurn, _, _, _, hsplit, by decide +kernel, by decide +kernel, ?_⟩
  exact claim_answers_last_question hstart hfaultless hinTurn hsplit
    (show Moment.event? _ = some (.selectionNotify ⟨0, ⟨1⟩, ⟨100⟩, ⟨102⟩, ⟨102⟩⟩) by decide +kernel)
    (by decide +kernel)
    { display := { properties := { entries :=
        [⟨⟨1⟩, ⟨102⟩, (Content.words [108]).toProperty Atom.atomType⟩] } }
      relay := _ } rfl (.inr ⟨[.imagePng], by decide +kernel⟩)

def givingUp : List (Move Memory.Display) :=
  [.elapse { events := [.ownerChanged ⟨100⟩ ⟨7⟩, .ownerChanged ⟨100⟩ Window.null] },
    .operate .dispatch,
    .elapse {
      properties := { entries := [⟨⟨1⟩, ⟨102⟩, (Content.words [105]).toProperty Atom.atomType⟩] }
      events := [.selectionNotify ⟨0, ⟨1⟩, ⟨100⟩, ⟨102⟩, ⟨102⟩⟩] },
    .operate .dispatch]

/-- The agent takes the clipboard before the application has said what it offers, and gives it up
again. -/
def takingBack : List (Move Memory.Display) :=
  [.elapse { events := [.ownerChanged ⟨100⟩ ⟨7⟩] }, .operate .dispatch,
    .operate (.grab .clipboard [.imagePng]), .operate (.release .clipboard),
    .elapse {
      properties := { entries := [⟨⟨1⟩, ⟨102⟩, (Content.words [105]).toProperty Atom.atomType⟩] }
      events := [.selectionNotify ⟨0, ⟨1⟩, ⟨100⟩, ⟨102⟩, ⟨102⟩⟩] },
    .operate .dispatch]

/-- What the relay does not count: the owner whose reply is acted upon is the last one that was
asked, but the application may have given the selection up since, or the agent may have taken it and
given it back. -/
theorem claim_of_former_owner : ∃ course, start ({} : Memory.Display) = some course ∧
    ((course.after givingUp).history.faultless = true ∧
      (course.after givingUp).history.RepliesInTurn (fun _ number => number) ∧
      (course.after givingUp).history.events = [.ownerChanged ⟨100⟩ ⟨7⟩,
        .ownerChanged ⟨100⟩ Window.null, .selectionNotify ⟨0, ⟨1⟩, ⟨100⟩, ⟨102⟩, ⟨102⟩⟩] ∧
      (course.after givingUp).relay.slots.owner .clipboard = .desktop) ∧
    (course.after takingBack).history.faultless = true ∧
    (course.after takingBack).history.RepliesInTurn (fun _ number => number) ∧
    (course.after takingBack).history.events = [.ownerChanged ⟨100⟩ ⟨7⟩,
      .ownerChanged ⟨100⟩ ⟨1⟩, .ownerChanged ⟨100⟩ Window.null,
      .selectionNotify ⟨0, ⟨1⟩, ⟨100⟩, ⟨102⟩, ⟨102⟩⟩] ∧
    (course.after takingBack).relay.slots.owner .clipboard = .desktop := by
  have hstart : start ({} : Memory.Display) =
      some ((start {}).get (by decide +kernel)) := (Option.some_get _).symm
  refine ⟨_, hstart, ⟨by decide +kernel, fun selection => ⟨strictMono_id, ?_⟩, by decide +kernel,
    by decide +kernel⟩, by decide +kernel, fun selection => ⟨strictMono_id, ?_⟩, by decide +kernel,
    by decide +kernel⟩
  · cases selection <;> decide +kernel
  · cases selection <;> decide +kernel

end Course

end ClipboardRelay
