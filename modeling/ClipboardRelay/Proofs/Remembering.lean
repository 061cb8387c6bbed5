import ClipboardRelay.Proofs.Bridging
import ClipboardRelay.Proofs.Requests
/-!
What becomes of an application's request when calls of the display fail. Main statement: as long as
every request that is taken out of the queue is refused, a request is in the queue or was answered,
and a transfer is for the request at the head. When such a refusal fails, the requests after it are
forgotten, and a transfer outlives its request.
-/

namespace ClipboardRelay

/-- The requests that were answered, or for which this was attempted. -/
def History.attempts (history : History) : List SelectionRequest :=
  history.calls.filterMap fun call =>
    match call with
    | .notifyRequestor event _ => some event
    | _ => none

theorem History.mem_attempts_of_lines {history : History} {event : SelectionRequest}
    {property : Atom} (h : Line.answer event property ∈ history.bridged.lines) :
    event ∈ history.attempts := by
  obtain ⟨moment, hmoment, hline⟩ := List.mem_filterMap.mp h
  obtain ⟨answer, hdeed⟩ : ∃ answer,
      moment.deed = .called (.notifyRequestor event property) answer := by
    unfold Moment.line? at hline
    split at hline
    case h_1 hdeed =>
      cases hline
      exact ⟨_, hdeed⟩
    case h_2 => cases hline
    case h_3 => cases hline
  have hcall : Call.notifyRequestor event property ∈ history.calls :=
    List.mem_filterMap.mpr ⟨moment, List.mem_of_mem_filter hmoment, by rw [hdeed]⟩
  exact List.mem_filterMap.mpr ⟨_, hcall, rfl⟩

theorem Ticket.Served.exists_told {ticket : Ticket} (h : ticket.Served) :
    ∃ property, (ticket.event, property) ∈ ticket.told := by
  obtain ⟨-, property, htold⟩ := h
  exact ⟨property, by rw [htold]; exact List.mem_singleton_self _⟩

theorem Ticket.Refused.exists_told {ticket : Ticket} (h : ticket.Refused) :
    ∃ property, (ticket.event, property) ∈ ticket.told :=
  ⟨Atom.null, by rw [h.2]; exact List.mem_append_right _ (List.mem_singleton_self _)⟩

namespace Course

variable {δ : Type}

def bridgedLedger (course : Course δ) : Ledger :=
  course.history.bridged.ledger.file course.relay.writer.isSome

/-- No request for a selection that is kept in step is lost, and no transfer. -/
structure Remembers (course : Course δ) : Prop where
  complete : (course.bridgedLedger.tickets.map Ticket.entry).Perm
    course.history.bridged.polled.zipIdx
  attributed : course.bridgedLedger.lines.Perm course.history.bridged.lines
  queue : course.bridgedLedger.waiting.map Ticket.request? = course.relay.requests.map some
  settled : course.bridgedLedger.refusing = []
  served : ∀ ticket ∈ course.bridgedLedger.served, ticket.Served
  refused : ∀ ticket ∈ course.bridgedLedger.refused, ticket.Refused
  kept : ∀ event ∈ course.history.bridged.polled,
    event ∈ course.relay.requests.map (·.event) ∨ event ∈ course.history.attempts
  writer : ∀ writer, course.relay.writer = some writer →
    ∃ request rest, course.relay.requests = request :: rest ∧
      writer.requestor = request.event.requestor ∧
      writer.property = request.event.replyProperty ∧ writer.target = request.event.target

theorem kept_of_ledger {course : Course δ}
    (complete : (course.bridgedLedger.tickets.map Ticket.entry).Perm
      course.history.bridged.polled.zipIdx)
    (attributed : course.bridgedLedger.lines.Perm course.history.bridged.lines)
    (queue : course.bridgedLedger.waiting.map Ticket.request? = course.relay.requests.map some)
    (settled : course.bridgedLedger.refusing = [])
    (served : ∀ ticket ∈ course.bridgedLedger.served, ticket.Served)
    (refused : ∀ ticket ∈ course.bridgedLedger.refused, ticket.Refused)
    {event : SelectionRequest} (hevent : event ∈ course.history.bridged.polled) :
    event ∈ course.relay.requests.map (·.event) ∨ event ∈ course.history.attempts := by
  obtain ⟨index, hindex, hpolled⟩ := List.getElem_of_mem hevent
  have hentry : (event, index) ∈ course.bridgedLedger.tickets.map Ticket.entry := by
    apply complete.mem_iff.mpr
    simp [List.mk_mem_zipIdx_iff_getElem?, hindex, hpolled]
  obtain ⟨ticket, hticket, hsame⟩ := List.mem_map.mp hentry
  obtain rfl : ticket.event = event := congrArg Prod.fst hsame
  have htold : (∃ property, (ticket.event, property) ∈ ticket.told) →
      ticket.event ∈ course.history.attempts := by
    rintro ⟨property, htold⟩
    have hline : Line.answer ticket.event property ∈ ticket.lines :=
      List.mem_append_left _ (List.mem_map.mpr ⟨_, htold, rfl⟩)
    have hledger : Line.answer ticket.event property ∈ course.bridgedLedger.lines :=
      List.mem_flatMap.mpr ⟨ticket, hticket, hline⟩
    exact History.mem_attempts_of_lines (attributed.mem_iff.mp hledger)
  simp only [Ledger.tickets, settled, List.append_nil, List.mem_append] at hticket
  obtain (hrefused | hserved) | hwaiting := hticket
  · exact .inr (htold (refused ticket hrefused).exists_told)
  · exact .inr (htold (served ticket hserved).exists_told)
  · have hrequest : ticket.request? ∈ course.relay.requests.map some :=
      queue ▸ List.mem_map_of_mem hwaiting
    obtain ⟨request, hmem, hsome⟩ := List.mem_map.mp hrequest
    obtain ⟨selection, -, rfl⟩ := Option.map_eq_some_iff.mp hsome.symm
    exact .inl (List.mem_map.mpr ⟨_, hmem, rfl⟩)

variable [Display δ]

theorem tallied_after {display : δ} {course : Course δ} (hstart : start display = some course)
    {moves : List (Move δ)}
    (hkept : ∀ moment ∈ (course.after moves).history, moment.forsakes = false) :
    Tallied (Stage.mk (course.after moves).relay {} (course.after moves).history).bridged := by
  refine holds_after (fun stage => (∀ moment ∈ stage.history, moment.forsakes = false) →
    Tallied stage.bridged) ?_ ?_ ?_ hstart moves hkept
  · exact fun relay _ => tallied_fresh relay
  · intro stage next step h hnext
    apply step.tallied
    exact h fun moment hmoment => hnext moment (step.history_prefix.subset hmoment)
  · intro stage next broke h hnext
    apply broke.tallied _ hnext
    exact h fun moment hmoment => hnext moment (broke.history_prefix.subset hmoment)

/-- Whatever calls fail: if every request that was taken out of the queue could be refused, no
request is lost, and no transfer outlives its request. -/
theorem requests_remembered {display : δ} {course : Course δ} (hstart : start display = some course)
    {moves : List (Move δ)}
    (hkept : ∀ moment ∈ (course.after moves).history, moment.forsakes = false) :
    (course.after moves).Remembers := by
  obtain ⟨tallies, writer⟩ := tallied_after hstart hkept
  have sound := tallies.toSound
  have attributed := History.lines_ledger (course.after moves).history.bridged
    (course.after moves).relay.writer.isSome sound.attributed
  exact ⟨sound.complete, attributed, tallies.queue, tallies.settled, sound.served, sound.refused,
    fun _ => kept_of_ledger sound.complete attributed tallies.queue tallies.settled sound.served
      sound.refused, fun other busy => (writer other busy).2⟩

/-- An application asks for what no relay sends, and refusing it fails. The request behind it is
looked at once the agent has sent something. -/
def failingToRefuse : List (Move Memory.Display) :=
  [.operate (.grab .clipboard [.utf8Text]),
    .elapse {
      events := [.selectionRequest ⟨0, ⟨7⟩, ⟨100⟩, ⟨104⟩, ⟨52⟩⟩,
        .selectionRequest ⟨0, ⟨8⟩, ⟨100⟩, ⟨105⟩, ⟨53⟩⟩]
      rules := [{ kind := .notifyRequestor, failure := .connection }] },
    .operate .dispatch, .operate .dispatch,
    .operate (.supply .clipboard .utf8Text [104, 101, 108, 108, 111, 33])]

theorem requests_remembered_failingToRefuse : ∃ course, start narrow = some course ∧
    (∀ moment ∈ (course.after failingToRefuse).history, moment.forsakes = false) ∧
    (course.after failingToRefuse).history.faultless = false ∧
    (course.after failingToRefuse).bridgedLedger.served.map (·.number) = [0] ∧
    (course.after failingToRefuse).relay.requests.map (·.event.requestor) = [⟨8⟩] ∧
    (course.after failingToRefuse).Remembers := by
  have hstart : start narrow = some ((start narrow).get (by decide +kernel)) :=
    (Option.some_get _).symm
  have hkept : ∀ moment ∈ (((start narrow).get (by decide +kernel)).after
      failingToRefuse).history, moment.forsakes = false := by decide +kernel
  exact ⟨_, hstart, hkept, by decide +kernel, by decide +kernel, by decide +kernel,
    requests_remembered hstart hkept⟩

/-- An application takes the clipboard while two requests for it wait, the first in the middle of
its transfer. Refusing this one fails. -/
def losing : List (Move Memory.Display) :=
  [.operate (.grab .clipboard [.utf8Text]),
    .elapse { events := [.selectionRequest ⟨0, ⟨7⟩, ⟨100⟩, ⟨105⟩, ⟨52⟩⟩,
      .selectionRequest ⟨0, ⟨8⟩, ⟨100⟩, ⟨105⟩, ⟨53⟩⟩] },
    .operate .dispatch,
    .operate (.supply .clipboard .utf8Text [104, 101, 108, 108, 111, 33]),
    .elapse {
      events := [.ownerChanged ⟨100⟩ ⟨42⟩]
      rules := [{ kind := .notifyRequestor, failure := .connection }] },
    .operate .dispatch]

/-- When a request that was taken out of the queue cannot be refused, those after it are forgotten,
and a transfer goes on for a request that is in the queue no more. -/
theorem requests_forgotten : ∃ course, start narrow = some course ∧
    (let later := course.after losing
    (∃ event ∈ later.history.bridged.polled,
      event ∉ later.relay.requests.map (·.event) ∧ event ∉ later.history.attempts) ∧
    later.relay.requests = [] ∧ later.relay.writer.isSome = true) := by
  have hstart : start narrow = some ((start narrow).get (by decide +kernel)) :=
    (Option.some_get _).symm
  refine ⟨_, hstart, ⟨⟨0, ⟨8⟩, ⟨100⟩, ⟨105⟩, ⟨53⟩⟩, ?_, ?_, ?_⟩, ?_, ?_⟩
  all_goals decide +kernel

end Course

end ClipboardRelay
