import ClipboardRelay.Proofs.Questioning
import ClipboardRelay.Proofs.Requests
import ClipboardRelay.Proofs.Vacating
/-!
Shutting down. Both selections are vacated, and the reports of this find nothing left to do. Main
statement: whatever waits and whoever holds the selections, nothing is left, and all that was asked
is answered exactly once.
-/

namespace ClipboardRelay

namespace Relay

open ClipboardRelay.Action (Yields)

variable {δ : Type} {relay : Relay} {history : History}

theorem Vacant.changeHolder (h : relay.Vacant) (selection : Selection) :
    (Relay.changeHolder selection .nobody : Action δ Unit).Yields (fun _ after later =>
      after = relay ∧ later = history) relay history := by
  have hslots : relay.slots.setHolder selection .nobody = relay.slots := by
    rw [← h.holders selection]
    cases selection <;> rfl
  have hrequests : (dropRequests selection : Action δ Unit).Yields (fun _ after later =>
      after = relay ∧ later = history) relay history := by
    refine .current_bind ?_
    rw [h.requests]
    exact ⟨rfl, rfl⟩
  have hfetches : (dropFetches selection : Action δ Unit).Yields (fun _ after later =>
      after = relay ∧ later = history) relay history := by
    refine .current_bind ?_
    rw [h.fetches]
    exact ⟨rfl, rfl⟩
  refine hrequests.bind fun _ middle between => ?_
  rintro ⟨rfl, rfl⟩
  refine hfetches.bind fun _ last later => ?_
  rintro ⟨rfl, rfl⟩
  refine .current_bind (.update_bind ?_)
  have hnobody : last.slots.owner selection = .nobody := congrArg Holder.owner (h.holders selection)
  rw [hslots, hnobody, if_neg (by decide)]
  exact ⟨rfl, rfl⟩

theorem Vacant.handle (h : relay.Vacant) (atom : Atom) :
    (Relay.handle (.ownerChanged atom Window.null) : Action δ Unit).Yields (fun _ after later =>
      after = relay ∧ Silently [] history later) relay history := by
  refine .current_bind ?_
  split
  case h_1 => exact ⟨rfl, .refl⟩
  case h_2 slot _ =>
    rw [Yields, Action.ensures_bind, ensures_remark]
    split
    · exact ⟨rfl, Silently.refl.remarked _ _⟩
    · refine Yields.bind (h.changeHolder slot) fun _ after later => ?_
      rintro ⟨rfl, rfl⟩
      exact ⟨rfl, Silently.refl.remarked _ _⟩

end Relay

structure History.OnlyLooks (history : History) : Prop where
  messages : history.messages = []
  calls : ∀ asked ∈ history.calls, asked = .flush ∨ asked = .pollEvent

namespace History.OnlyLooks

variable {history first second : History}

theorem append (hfirst : first.OnlyLooks) (hsecond : second.OnlyLooks) :
    History.OnlyLooks (first ++ second) where
  messages := by rw [messages_append, hfirst.messages, hsecond.messages]; rfl
  calls asked hasked := by
    rw [calls_append] at hasked
    exact (List.mem_append.mp hasked).elim (hfirst.calls asked) (hsecond.calls asked)

theorem of_silently (h : Relay.Silently [] [] history) : history.OnlyLooks where
  messages := h.messages
  calls asked hasked := by
    rw [h.calls] at hasked
    cases hasked

theorem polled (relay : Relay) (event : Option Event) :
    History.OnlyLooks [⟨relay, .called .flush ()⟩, ⟨relay, .called .pollEvent event⟩] where
  messages := rfl
  calls asked hasked := by
    have hmade : asked ∈ [Call.flush, .pollEvent] := hasked
    simpa using hmade

theorem told (h : history.OnlyLooks) : history.told = [] :=
  List.filterMap_eq_nil_iff.mpr fun asked hasked => by
    rcases h.calls asked hasked with rfl | rfl <;> rfl

theorem handovers (h : history.OnlyLooks) : history.handovers = [] :=
  List.filter_eq_nil_iff.mpr fun asked hasked => by
    rcases h.calls asked hasked with rfl | rfl <;> decide

theorem informed (h : history.OnlyLooks) (selection : Selection) :
    history.informed selection = [] := by
  rw [History.informed, h.messages]
  rfl

end History.OnlyLooks

namespace EventQueue

open Relay

variable {δ : Type} [Display δ] {queue : EventQueue δ} {session after : Session δ}

/-- Whether a display reports a new owner of a selection, if anything, when the relay names one. -/
def Echoes (queue : EventQueue δ) : Prop :=
  ∀ {atom : Atom} {owner : Window} {display after : δ},
    Display.perform (.setSelectionOwner atom owner) display = (.ok (), after) →
      queue.waiting after = queue.waiting display ∨
        queue.waiting after = queue.waiting display ++ [.ownerChanged atom owner]

/-- Whether all that waits is word that nobody owns a selection. -/
def Deserted (queue : EventQueue δ) (display : δ) : Prop :=
  ∀ event ∈ queue.waiting display, ∃ atom, event = .ownerChanged atom Window.null

theorem vacate_deserted (calm : queue.Calm) (echoes : queue.Echoes) {selection : Selection}
    (hdeserted : queue.Deserted session.display)
    (h : (vacate selection).run session = (.ok (), after)) : queue.Deserted after.display := by
  apply (vacate_spares selection).display_run
    (fun before after => queue.Deserted before → queue.Deserted after) (fun _ => id) _ _ h hdeserted
  · exact fun hfirst hrest => hrest ∘ hfirst
  · intro asked answer display after hleaving hcalled hbefore
    unfold Deed.isLeaving at hleaving
    split at hleaving
    case h_1 atom owner _ hdeed =>
      cases hdeed
      obtain rfl : owner = Window.null := by simpa using hleaving
      rcases echoes hcalled with hsame | hreported
      · rw [Deserted, hsame]
        exact hbefore
      · intro event hevent
        rw [hreported] at hevent
        rcases List.mem_append.mp hevent with hwaited | hnew
        · exact hbefore event hwaited
        · exact ⟨atom, List.mem_singleton.mp hnew⟩
    case h_2 =>
      have hwaiting := calm (.inr hleaving) hcalled
      intro event hevent
      refine hbefore event ?_
      rw [hwaiting]
      exact List.mem_append_right _ hevent

theorem Calm.drain_vacant (calm : queue.Calm) {fuel : Nat} (vacant : session.relay.Vacant)
    (hdeserted : queue.Deserted session.display)
    (h : (drain fuel).run session = (.ok (), after)) :
    after.relay = session.relay ∧ ((drain fuel).history session).OnlyLooks := by
  induction fuel generalizing session with
  | zero =>
    cases h
    exact ⟨rfl, .of_silently .refl⟩
  | succ fuel ih =>
    obtain ⟨_, flushed, hflush, h⟩ := Action.exists_of_run_bind h
    obtain ⟨between, hflushed, rfl⟩ := exists_of_run_call hflush
    obtain ⟨event, polled, hpoll, h⟩ := Action.exists_of_run_bind h
    obtain ⟨shorter, hpolled, rfl⟩ := exists_of_run_call hpoll
    have hwaiting := (calm (.inr rfl) hflushed).trans (calm (.inl rfl) hpolled)
    cases event with
    | none =>
      cases h
      rw [history_drain_none hflushed hpolled]
      exact ⟨rfl, .polled _ _⟩
    | some event =>
      have hevents : queue.waiting session.display = event :: queue.waiting shorter := hwaiting
      obtain ⟨atom, rfl⟩ := hdeserted event (by rw [hevents]; exact List.mem_cons_self)
      obtain ⟨_, handled, hhandle, h⟩ := Action.exists_of_run_bind h
      have hkept : (handle (.ownerChanged atom Window.null) : Action δ Unit).Yields
          (fun _ after later => after = session.relay ∧ Silently [] [] later) session.relay [] :=
        vacant.handle atom
      have hhandled := hkept.run { session with display := shorter }
      rw [hhandle] at hhandled
      obtain ⟨hrelay, silently⟩ := hhandled
      have hstill := calm.waiting_run (handle_spares (.ownerChanged atom Window.null)) hhandle
      have hrest : queue.Deserted handled.display := by
        intro other hother
        rw [hstill] at hother
        exact hdeserted other (by rw [hevents]; exact List.mem_cons_of_mem _ hother)
      obtain ⟨hafter, hlooks⟩ := ih (hrelay ▸ vacant) hrest h
      rw [history_drain_some hflushed hpolled hhandle]
      have hquiet := History.OnlyLooks.of_silently silently
      exact ⟨hafter.trans hrelay, (History.OnlyLooks.polled _ _).append (hquiet.append hlooks)⟩

/-- Shutting down vacates the clipboard and then the primary selection. Handling the reports of this
is all that is done behind. -/
theorem Calm.shutdown_run (calm : queue.Calm) (echoes : queue.Echoes)
    (hwellFormed : session.relay.WellFormed) (hidle : queue.waiting session.display = [])
    (h : shutdown.run session = (.ok (), after)) :
    ∃ middle between later rest, shutdown.history session = between ++ later ++ rest ∧
      Vacated session.relay .clipboard [] middle between ∧
      Vacated middle .primary [] after.relay later ∧
      between.handovers = session.relay.surrender .clipboard ∧
      later.handovers = middle.surrender .primary ∧ rest.OnlyLooks := by
  obtain ⟨_, middle, hfirst, h⟩ := Action.exists_of_run_bind h
  obtain ⟨_, last, hsecond, h⟩ := Action.exists_of_run_bind h
  have hclipboard : (vacate .clipboard : Action δ Unit).Yields (fun _ after later =>
      Vacated session.relay .clipboard [] after later ∧
        later.handovers = [] ++ session.relay.surrender .clipboard) session.relay [] :=
    vacate_vacated .clipboard
  have hprimary : (vacate .primary : Action δ Unit).Yields (fun _ after later =>
      Vacated middle.relay .primary [] after later ∧
        later.handovers = [] ++ middle.relay.surrender .primary) middle.relay [] :=
    vacate_vacated .primary
  have hvacated := hclipboard.run session
  have hemptied := hprimary.run middle
  rw [hfirst] at hvacated
  rw [hsecond] at hemptied
  obtain ⟨first, hgiven⟩ := hvacated
  obtain ⟨second, hreleased⟩ := hemptied
  have hnone : queue.Deserted session.display := by
    rw [Deserted, hidle]
    exact nofun
  have hdeserted : queue.Deserted last.display :=
    vacate_deserted calm echoes (vacate_deserted calm echoes hnone hfirst) hsecond
  obtain ⟨hrelay, hlooks⟩ := calm.drain_vacant (first.vacant hwellFormed second) hdeserted h
  refine ⟨middle.relay, (vacate .clipboard).history session, (vacate .primary).history middle,
    dispatch.history last, ?_, first, hrelay ▸ second, hgiven, hreleased, hlooks⟩
  rw [shutdown, Action.history_bind, hfirst]
  dsimp only
  rw [Action.history_bind, hsecond, List.append_assoc]

end EventQueue

theorem Memory.Display.queue_echoes : queue.Echoes := by
  intro atom owner display after h
  obtain ⟨rules, hanswer⟩ := exists_of_perform h
  simp only [answer] at hanswer
  split at hanswer
  · cases hanswer
    exact .inr rfl
  · cases hanswer
    exact .inl rfl

namespace Course

open Relay

variable {δ : Type} [Display δ]

/-- Shutting down leaves nothing, whatever waits and whoever holds the selections, if no event
arrives but word of the selections that it gives up. The agent is told for each of its questions
that there is no data, and of each desktop owner that it is gone. Each selection that the agent owns
is given up once, and each request is answered once. No transfer is left under way either on a
display whose calls succeed: this is about the whole run, not only about the calls made to shut
down, since a call that failed before can leave a transfer behind for good. -/
theorem shutdown_leaves_nothing {display : δ} {course : Course δ}
    (hstart : start display = some course) (moves : List (Move δ)) {queue : EventQueue δ}
    (calm : queue.Calm) (echoes : queue.Echoes)
    (hidle : queue.waiting (course.after moves).session.display = [])
    (hfaultless : (shutdown.history (course.after moves).session).faultless = true) :
    ∃ after, shutdown.run (course.after moves).session = (.ok (), after) ∧
      after.relay.Vacant ∧
      ((course.after moves).history.faultless = true → after.relay.writer = none) ∧
      (∀ selection, (shutdown.history (course.after moves).session).informed selection =
        (course.after moves).relay.farewell selection) ∧
      (shutdown.history (course.after moves).session).handovers =
        (course.after moves).relay.surrender .clipboard ++
          (course.after moves).relay.surrender .primary ∧
      (shutdown.history (course.after moves).session).told.Perm
        ((course.after moves).relay.requests.map (·.event)) := by
  have hwellFormed : (course.after moves).relay.WellFormed := wellFormed_after hstart moves
  obtain ⟨_, hok⟩ := (Action.faultless_history _ _).mp hfaultless
  have hrun := Action.run_of_ok hok
  obtain ⟨middle, between, later, rest, hhistory, first, second, hgiven, hreleased, hlooks⟩ :=
    calm.shutdown_run echoes hwellFormed hidle hrun
  refine ⟨_, hrun, first.vacant hwellFormed second, fun hbefore => ?_, fun selection => ?_, ?_, ?_⟩
  · have booked := booked_after hstart hbefore
    rw [first.writer_eq hwellFormed second]
    split
    case isTrue hnone => exact booked.free_of_empty hnone
    case isFalse => rfl
  · rw [hhistory, History.informed_append, History.informed_append, hlooks.informed,
      List.append_nil]
    exact first.informed_eq hwellFormed second selection
  · rw [hhistory, History.handovers_append, History.handovers_append, hlooks.handovers,
      List.append_nil, hgiven, hreleased, first.surrender_primary]
    rfl
  · rw [hhistory, History.told_append, History.told_append, hlooks.told, List.append_nil]
    exact first.told_perm hwellFormed second

/-- The agent takes the clipboard and an application the primary selection. The agent asks twice for
the text of the application. A request for the agent's text waits, and behind it one for the primary
selection and one for the list of targets. -/
def owingAll : List (Move Memory.Display) :=
  [.operate (.grab .clipboard [.utf8Text]),
    .elapse { events := [.ownerChanged ⟨101⟩ ⟨8⟩] }, .operate .dispatch,
    .elapse {
      properties := { entries := [⟨⟨1⟩, ⟨102⟩, (Content.words [105]).toProperty Atom.atomType⟩] }
      events := [.selectionNotify ⟨0, ⟨1⟩, ⟨101⟩, ⟨102⟩, ⟨102⟩⟩] },
    .operate .dispatch,
    .operate (.ask .primary .utf8Text), .operate (.ask .primary .utf8Text),
    .elapse { events := [.selectionRequest ⟨0, ⟨7⟩, ⟨100⟩, ⟨105⟩, ⟨50⟩⟩,
      .selectionRequest ⟨0, ⟨9⟩, ⟨101⟩, ⟨105⟩, ⟨51⟩⟩,
      .selectionRequest ⟨0, ⟨7⟩, ⟨100⟩, ⟨102⟩, ⟨52⟩⟩] },
    .operate .dispatch]

theorem shutdown_leaves_nothing_owingAll : ∃ course, start ({} : Memory.Display) = some course ∧
    ∃ after, shutdown.run (course.after owingAll).session = (.ok (), after) ∧
      after.relay.Vacant ∧ after.relay.writer = none ∧
      (shutdown.history (course.after owingAll).session).informed .primary =
        [.noData .primary, .noData .primary, .release .primary] ∧
      (shutdown.history (course.after owingAll).session).handovers =
        [.setSelectionOwner ⟨100⟩ Window.null] ∧
      (shutdown.history (course.after owingAll).session).told.Perm
        [⟨0, ⟨7⟩, ⟨100⟩, ⟨105⟩, ⟨50⟩⟩, ⟨0, ⟨9⟩, ⟨101⟩, ⟨105⟩, ⟨51⟩⟩,
          ⟨0, ⟨7⟩, ⟨100⟩, ⟨102⟩, ⟨52⟩⟩] := by
  have hstart : start ({} : Memory.Display) =
      some ((start {}).get (by decide +kernel)) := (Option.some_get _).symm
  obtain ⟨after, hrun, hvacant, hwriter, hinformed, hhandovers, htold⟩ :=
    shutdown_leaves_nothing hstart owingAll Memory.Display.queue_calm
      Memory.Display.queue_echoes (by decide +kernel) (by decide +kernel)
  have hfarewell : (((start ({} : Memory.Display)).get (by decide +kernel)).after
      owingAll).relay.farewell .primary =
        [.noData .primary, .noData .primary, .release .primary] := by decide +kernel
  have hsurrender : (((start ({} : Memory.Display)).get (by decide +kernel)).after
      owingAll).relay.surrender .clipboard ++ (((start ({} : Memory.Display)).get
        (by decide +kernel)).after owingAll).relay.surrender .primary =
          [.setSelectionOwner ⟨100⟩ Window.null] := by decide +kernel
  have hrequests : (((start ({} : Memory.Display)).get (by decide +kernel)).after
      owingAll).relay.requests.map (·.event) =
        [⟨0, ⟨7⟩, ⟨100⟩, ⟨105⟩, ⟨50⟩⟩, ⟨0, ⟨9⟩, ⟨101⟩, ⟨105⟩, ⟨51⟩⟩,
          ⟨0, ⟨7⟩, ⟨100⟩, ⟨102⟩, ⟨52⟩⟩] := by decide +kernel
  exact ⟨_, hstart, after, hrun, hvacant, hwriter (by decide +kernel),
    (hinformed .primary).trans hfarewell, hhandovers.trans hsurrender, hrequests ▸ htold⟩

end Course

end ClipboardRelay
