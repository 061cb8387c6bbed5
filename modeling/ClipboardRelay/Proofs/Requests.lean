import ClipboardRelay.Memory.Display
import ClipboardRelay.Proofs.Conservation
import ClipboardRelay.Proofs.Evicting
import ClipboardRelay.Proofs.Pipeline
/-!
The requests of desktop applications in runs in which no call fails. Main statements: every request
is answered once, a transfer that is cut off apart, and the agent is asked for the request at the
head of the queue and for no other.
-/

namespace ClipboardRelay

theorem tallied_fresh (relay : Relay) : Tallied ⟨relay.fresh, {}, []⟩ :=
  ⟨.empty, by simp [Relay.fresh]⟩

theorem booked_fresh (relay : Relay) : Booked ⟨relay.fresh, {}, []⟩ := by
  have hledger : Stage.ledger ⟨relay.fresh, {}, []⟩ = {} := rfl
  refine ⟨tallied_fresh relay, ?_, ?_, trivial, by simp⟩
  all_goals simp [hledger]

namespace Course

variable {δ : Type}

def ledger (course : Course δ) : Ledger :=
  course.history.ledger.file course.relay.writer.isSome

/-- Every request is answered as often as it should be, and its answers are its own. -/
structure AnswersOnce (course : Course δ) : Prop where
  /-- Every request that was polled has one ticket. -/
  complete : (course.ledger.tickets.map Ticket.entry).Perm course.history.polled.zipIdx
  /-- Every answer, and every question to the agent, is on one of the tickets. -/
  attributed : course.ledger.lines.Perm course.history.lines
  named : ∀ ticket ∈ course.ledger.tickets,
    ticket.selection = course.relay.vocabulary.selection? ticket.event.selection
  foreign : ∀ ticket ∈ course.ledger.tickets, ticket.selection = none →
    ticket.told = [(ticket.event, Atom.null)]
  atOnce : course.history.RefusesAtOnce
  queue : course.ledger.waiting.map Ticket.request? = course.relay.requests.map some
  front : ∀ ticket ∈ course.ledger.waiting.head?, ticket.told =
    if course.relay.writer.isSome then [(ticket.event, ticket.event.replyProperty)] else []
  behind : ∀ ticket ∈ course.ledger.waiting.tail, ticket.told = []
  /-- A request that is not in the queue was served or refused. -/
  settled : course.ledger.refusing = []
  served : ∀ ticket ∈ course.ledger.served, ticket.Served
  refused : ∀ ticket ∈ course.ledger.refused, ticket.Refused
  /-- A request leaves the queue unserved only because its selection changes hands. -/
  evicted : ∀ ticket ∈ course.ledger.refused, ticket.selection.isSome = true →
    course.history.Evicted ticket
  uncut : course.ledger.Uncut
  /-- Requests are served in the order in which they were polled, those in the queue last. -/
  inOrder : ((course.ledger.served ++ course.ledger.waiting).map (·.number)).Pairwise (· < ·)
  stores : ∀ moment ∈ course.history, moment.StoreFits

variable [Display δ]

theorem booked_after {display : δ} {course : Course δ} (hstart : start display = some course)
    {moves : List (Move δ)} (hfaultless : (course.after moves).history.faultless = true) :
    Booked ⟨(course.after moves).relay, {}, (course.after moves).history⟩ :=
  holds_after_of_faultless Booked booked_fresh (fun _ _ step => step.booked) hstart hfaultless

/-- In every run in which no call fails, every request is answered once. -/
theorem requests_answered_once {display : δ} {course : Course δ}
    (hstart : start display = some course) {moves : List (Move δ)}
    (hfaultless : (course.after moves).history.faultless = true) :
    (course.after moves).AnswersOnce := by
  have booked := booked_after hstart hfaultless
  have tallies : (course.after moves).ledger.Tallies (course.after moves).relay.vocabulary
      (course.after moves).history.polled (course.after moves).relay.requests
      (course.after moves).relay.writer.isSome := booked.tallies
  refine ⟨tallies.complete, History.lines_ledger _ _ tallies.attributed, tallies.named, ?_,
    booked.atOnce, tallies.queue, tallies.front,
    fun ticket hticket => (tallies.behind ticket hticket).1, tallies.settled, tallies.served,
    tallies.refused, fun ticket hticket hplaced => ?_, (History.uncut_ledger _).file _,
    tallies.inOrder, fun moment hmoment => (booked.fits moment hmoment).2⟩
  · intro ticket hticket foreign
    exact booked.told_foreign hticket foreign
  · have hrejected : ticket ∈ (course.after moves).ledger.rejected :=
      List.mem_append_right _ hticket
    rw [ledger, Ledger.rejected_file] at hrejected
    exact History.evicted_of_rejected (always_occasioned hstart moves) hrejected hplaced

/-- A display where four bytes go into one property. -/
def narrow : Memory.Display :=
  { maxRequestBytes := 104 }

/-- The agent takes the clipboard and four requests arrive: one for a selection that is not kept in
step, one for the list of targets, and two for text, which is too long for one property. The first
chunk is taken. -/
def sendingText : List (Move Memory.Display) :=
  [.operate (.grab .clipboard [.utf8Text]),
    .elapse { events := [.selectionRequest ⟨0, ⟨7⟩, ⟨99⟩, ⟨105⟩, ⟨50⟩⟩,
      .selectionRequest ⟨0, ⟨7⟩, ⟨100⟩, ⟨102⟩, ⟨51⟩⟩,
      .selectionRequest ⟨0, ⟨7⟩, ⟨100⟩, ⟨105⟩, ⟨52⟩⟩,
      .selectionRequest ⟨0, ⟨8⟩, ⟨100⟩, ⟨105⟩, ⟨0⟩⟩] },
    .operate .dispatch,
    .operate (.fulfil (.data .clipboard .utf8Text [104, 101, 108, 108, 111, 33])),
    .elapse { events := [.propertyDeleted ⟨7⟩ ⟨52⟩] }, .operate .dispatch]

def cuttingOff : List (Move Memory.Display) :=
  sendingText ++ [.elapse { events := [.ownerChanged ⟨100⟩ ⟨9⟩] }, .operate .dispatch]

theorem requests_answered_once_cuttingOff : ∃ course, start narrow = some course ∧
    (course.after cuttingOff).history.faultless = true ∧
    (course.after cuttingOff).ledger.served.map (·.number) = [1] ∧
    (course.after cuttingOff).ledger.refused.map (fun ticket => (ticket.number, ticket.cut)) =
      [(0, false), (2, true), (3, false)] ∧
    (course.after cuttingOff).AnswersOnce := by
  have hstart : start narrow = some ((start narrow).get (by decide +kernel)) :=
    (Option.some_get _).symm
  have hfaultless : (((start narrow).get (by decide +kernel)).after
      cuttingOff).history.faultless = true := by decide +kernel
  exact ⟨_, hstart, hfaultless, by decide +kernel, by decide +kernel,
    requests_answered_once hstart hfaultless⟩

/-- In every state of a run in which no call fails, the agent was asked once for the request at the
head of the queue and never for one behind it, and a transfer under way is for the one at the
head. -/
theorem agent_asked_for_front {display : δ} {course : Course δ}
    (hstart : start display = some course) {moves : List (Move δ)}
    (hfaultless : (course.after moves).history.faultless = true) :
    (∀ request rest, (course.after moves).relay.requests = request :: rest →
      (course.after moves).relay.slots.owner request.selection = .agent ∧
      request.event.target ≠ (course.after moves).relay.vocabulary.targets ∧
      request.event.target ≠ (course.after moves).relay.vocabulary.multiple ∧
      ∃ type ticket tickets,
        (course.after moves).relay.registry.typeFor request.event.target = some type ∧
        (course.after moves).ledger.waiting = ticket :: tickets ∧
        ticket.request? = some request ∧ ticket.asked = [(request.selection, type)] ∧
        tickets.map Ticket.request? = rest.map some ∧
        ∀ other ∈ tickets, other.asked = [] ∧ other.told = []) ∧
    (∀ writer, (course.after moves).relay.writer = some writer →
      ∃ request rest, (course.after moves).relay.requests = request :: rest ∧
        writer.requestor = request.event.requestor ∧
        writer.property = request.event.replyProperty ∧
        writer.target = request.event.target) ∧
    ((course.after moves).relay.requests = [] → (course.after moves).relay.writer = none) ∧
    (∀ ticket ∈ (course.after moves).ledger.waiting,
      ticket.told ≠ [] → (course.after moves).relay.writer.isSome = true) ∧
    (course.after moves).ledger.lines.Perm (course.after moves).history.lines ∧
    ∀ moment ∈ (course.after moves).history, moment.FitsFront := by
  have booked := booked_after hstart hfaultless
  refine ⟨fun request rest hrequests => ?_, fun writer busy => (booked.writer writer busy).2,
    booked.free_of_empty, fun ticket => booked.sending_of_told,
    History.lines_ledger _ _ booked.tallies.attributed, booked.fits⟩
  · obtain ⟨type, howner, hsingle, hcontent, hknown, ticket, tickets, hwaiting, hrequest, hasked,
      hrest⟩ := booked.front_asked hrequests rfl
    refine ⟨howner, hcontent, hsingle, type, ticket, tickets, hknown, hwaiting, hrequest, hasked,
      hrest, fun other hother => ?_⟩
    have hlist := congrArg List.tail hwaiting
    exact ⟨booked.behind other (hlist ▸ hother), (booked.tallies.behind other (hlist ▸ hother)).1⟩

theorem agent_asked_for_front_sendingText : ∃ course, start narrow = some course ∧
    (course.after sendingText).history.faultless = true ∧
    (course.after sendingText).relay.requests.length = 2 ∧
    ∃ writer, (course.after sendingText).relay.writer = some writer ∧
      ∃ request rest, (course.after sendingText).relay.requests = request :: rest ∧
        writer.requestor = request.event.requestor ∧
        writer.property = request.event.replyProperty ∧
        writer.target = request.event.target := by
  have hstart : start narrow = some ((start narrow).get (by decide +kernel)) :=
    (Option.some_get _).symm
  have hfaultless : (((start narrow).get (by decide +kernel)).after
      sendingText).history.faultless = true := by decide +kernel
  have hsending : (((start narrow).get (by decide +kernel)).after
      sendingText).relay.writer.isSome = true := by decide +kernel
  obtain ⟨writer, busy⟩ := Option.isSome_iff_exists.mp hsending
  exact ⟨_, hstart, hfaultless, by decide +kernel, writer, busy,
    (agent_asked_for_front hstart hfaultless).2.1 writer busy⟩

end Course

end ClipboardRelay
