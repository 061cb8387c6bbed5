import ClipboardRelay.Proofs.Stage
import ClipboardRelay.Proofs.Tallying
/-!
The ledger beside a stage. Main statements: what each step that concerns a request does to the
ledger, and that the ledger still tallies with the queue after it. Every other step leaves the
ledger as it is.
-/

namespace ClipboardRelay

/-- Whether a deed has no place in the ledger. -/
def Deed.isAside : Deed → Bool
  | called .pollEvent (some (.selectionRequest _)) | called (.notifyRequestor ..) _
  | sent (.ask ..) | noted (.about _ (.requestsDropped _)) => false
  | _ => true

theorem Moment.isAside_of_plain {moment : Moment} (h : moment.isPlain = true) :
    moment.deed.isAside = true := by
  rcases moment with ⟨relay, deed⟩
  cases deed with
  | began => rfl
  | failed | sent => cases h
  | noted notice =>
    unfold isPlain at h
    unfold Deed.isAside
    split <;> simp_all
  | called call answer =>
    cases call with
    | convertSelection | changeProperty | notifyRequestor => cases h
    | pollEvent =>
      rcases answer with _ | event
      · rfl
      · cases event with
        | selectionRequest => cases h
        | _ => rfl
    | _ => rfl

theorem Relay.isAside_answer (relay : Relay) (fetch : Fetch) (data : Option Bytes) :
    (Deed.sent (relay.answer fetch data)).isAside = true := by
  unfold Relay.answer
  split
  · split <;> rfl
  · rfl

theorem Relay.isAside_finishing (relay : Relay) (fetch : Fetch) (data : Option Bytes) :
    ∀ deed ∈ (if (relay.registry.typeFor fetch.target).isNone then
        [Deed.noted (.about fetch.selection (.unknownTarget fetch.target))] else []) ++
      [Deed.sent (relay.answer fetch data)], deed.isAside = true := by
  simp only [List.mem_append, List.mem_singleton]
  rintro deed (hnoted | rfl)
  · split at hnoted
    · obtain rfl := List.mem_singleton.mp hnoted
      rfl
    · cases hnoted
  · exact Relay.isAside_answer _ _ _

theorem Deed.isAside_claiming {relay : Relay} {window : Window} {targets : Atom}
    {property : Option Property} {notices : List Notice} {selection : Selection}
    {types : List ContentType}
    (plain : ∀ notice ∈ notices, (Moment.mk relay (.noted notice)).isPlain = true) :
    ∀ deed ∈ called (.getProperty window targets true) property :: notices.map noted ++
      [sent (.grab selection types)], deed.isAside = true := by
  intro deed hdeed
  rcases List.mem_append.mp hdeed with hread | hsent
  · rcases List.mem_cons.mp hread with rfl | hnoted
    · rfl
    · obtain ⟨notice, hnotice, rfl⟩ := List.mem_map.mp hnoted
      exact Moment.isAside_of_plain (plain notice hnotice)
  · obtain rfl := List.mem_singleton.mp hsent
    rfl

namespace History

theorem polled_append (first second : History) :
    (first ++ second).polled = first.polled ++ second.polled :=
  List.filterMap_append

theorem polled_aside {relay : Relay} {deeds : List Deed}
    (aside : ∀ deed ∈ deeds, deed.isAside = true) :
    History.polled (deeds.map (Moment.mk relay)) = [] := by
  rw [polled, List.filterMap_map, List.filterMap_eq_nil_iff]
  intro deed hdeed
  have hdeed := aside deed hdeed
  unfold Deed.isAside at hdeed
  dsimp only [Function.comp]
  split <;> simp_all

end History

namespace Ledger

theorem enter_aside {ledger : Ledger} {moment : Moment}
    (h : moment.deed.isAside = true) : ledger.enter moment = ledger := by
  unfold enter
  unfold Deed.isAside at h
  split <;> simp_all

theorem foldl_record_aside {ledger : Ledger} {relay : Relay} {deeds : List Deed}
    (hsteady : ledger.Steady relay.writer.isSome) (aside : ∀ deed ∈ deeds, deed.isAside = true) :
    (deeds.map (Moment.mk relay)).foldl record ledger = ledger := by
  induction deeds with
  | nil => rfl
  | cons deed deeds ih =>
    rw [List.forall_mem_cons] at aside
    rw [List.map_cons, List.foldl_cons, record_of_steady hsteady, enter_aside aside.1]
    exact ih aside.2

end Ledger

def Relay.dropDeeds (relay : Relay) (selection : Selection) : List Deed :=
  .noted (.about selection (.requestsDropped (relay.requestsOf selection).length)) ::
    (relay.requestsOf selection).map fun request =>
      .called (.notifyRequestor request.event Atom.null) ()

namespace Stage

def ledger (stage : Stage) : Ledger :=
  stage.history.ledger.file stage.relay.writer.isSome

theorem ledger_cons {stage next : Stage} {moment : Moment} {rest : History}
    (hhistory : next.history = stage.history ++ moment :: rest)
    (hmoment : moment.relay.writer.isSome = stage.relay.writer.isSome) :
    next.ledger =
      (rest.foldl Ledger.record (stage.ledger.enter moment)).file next.relay.writer.isSome := by
  simp only [ledger, hhistory, History.ledger, List.foldl_append, List.foldl_cons, Ledger.record,
    hmoment]

def WriterFits (stage : Stage) (writer : Incremental.Writer) : Prop :=
  stage.duty.serve = false ∧ ∃ request rest, stage.relay.requests = request :: rest ∧
    writer.requestor = request.event.requestor ∧
    writer.property = request.event.replyProperty ∧ writer.target = request.event.target

end Stage

/-- The ledger agrees with the queue at a stage, and a transfer under way is for the request at the
head. -/
structure Tallied (stage : Stage) : Prop where
  tallies : stage.ledger.Tallies stage.relay.vocabulary stage.history.polled stage.relay.requests
    stage.relay.writer.isSome
  writer : ∀ writer, stage.relay.writer = some writer → stage.WriterFits writer

namespace Tallied

variable {stage next : Stage} {request : DesktopRequest} {rest : List DesktopRequest}
  {writer : Incremental.Writer}

theorem free_of_due (h : Tallied stage) (due : stage.duty.serve = true) :
    stage.relay.writer = none := by
  cases busy : stage.relay.writer with
  | none => rfl
  | some writer =>
    have hserved := (h.writer writer busy).1
    rw [due] at hserved
    cases hserved

theorem free_of_empty (h : Tallied stage) (empty : stage.relay.requests = []) :
    stage.relay.writer = none := by
  cases busy : stage.relay.writer with
  | none => rfl
  | some writer =>
    obtain ⟨-, request, rest, hrequests, -⟩ := h.writer writer busy
    rw [empty] at hrequests
    cases hrequests

theorem waiting_of_empty (h : Tallied stage) (empty : stage.relay.requests = []) :
    stage.ledger.waiting = [] := by
  have hqueue := h.tallies.queue
  rwa [empty, List.map_nil, List.map_eq_nil_iff] at hqueue

theorem exists_ticket (h : Tallied stage) (front : stage.relay.requests = request :: rest) :
    ∃ ticket tickets, stage.ledger.waiting = ticket :: tickets ∧
      ticket.selection = some request.selection ∧ ticket.event = request.event ∧
      tickets.map Ticket.request? = rest.map some :=
  (front ▸ h.tallies).exists_ticket

theorem sending_of_told (h : Tallied stage) {ticket : Ticket}
    (hticket : ticket ∈ stage.ledger.waiting) (answered : ticket.told ≠ []) :
    stage.relay.writer.isSome = true := by
  cases hwaiting : stage.ledger.waiting with
  | nil =>
    rw [hwaiting] at hticket
    cases hticket
  | cons first tickets =>
    rw [hwaiting] at hticket
    rcases List.mem_cons.mp hticket with rfl | htail
    · exact (h.tallies.steady ticket (by rw [hwaiting]; rfl)).resolve_left answered
    · exact absurd (h.tallies.behind ticket (by rw [hwaiting]; exact htail)).1 answered

theorem told_foreign (h : Tallied stage) {ticket : Ticket} (hticket : ticket ∈ stage.ledger.tickets)
    (foreign : ticket.selection = none) : ticket.told = [(ticket.event, Atom.null)] := by
  simp only [Ledger.tickets, h.tallies.settled, List.append_nil, List.mem_append] at hticket
  obtain (hrefused | hserved) | hwaiting := hticket
  · obtain ⟨bridged, htold⟩ := h.tallies.refused ticket hrefused
    rw [foreign] at bridged
    cases hcut : ticket.cut with
    | true => exact absurd (bridged hcut) Bool.false_ne_true
    | false =>
      rw [hcut] at htold
      exact htold
  · have bridged := (h.tallies.served ticket hserved).1
    rw [foreign] at bridged
    cases bridged
  · have hrequest : ticket.request? ∈ stage.relay.requests.map some :=
      h.tallies.queue ▸ List.mem_map_of_mem hwaiting
    rw [Ticket.request?, foreign] at hrequest
    obtain ⟨request, -, hnone⟩ := List.mem_map.mp hrequest
    cases hnone

theorem writerFits (h : Tallied stage) (hwriter : next.relay.writer = stage.relay.writer)
    (hrequests : next.relay.requests = stage.relay.requests)
    (hserve : stage.duty.serve = false → next.duty.serve = false) :
    ∀ writer, next.relay.writer = some writer → next.WriterFits writer := by
  intro writer busy
  rw [hwriter] at busy
  obtain ⟨hserved, hfits⟩ := h.writer writer busy
  refine ⟨hserve hserved, ?_⟩
  rw [hrequests]
  exact hfits

theorem aside (h : Tallied stage) {relay : Relay} {deeds : List Deed}
    (hhistory : next.history = stage.history ++ deeds.map (Moment.mk relay))
    (aside : ∀ deed ∈ deeds, deed.isAside = true)
    (hrelay : relay.writer.isSome = stage.relay.writer.isSome)
    (hnext : next.relay.writer.isSome = stage.relay.writer.isSome)
    (hrequests : next.relay.requests = stage.relay.requests)
    (hvocabulary : next.relay.vocabulary = stage.relay.vocabulary)
    (hwriter : ∀ writer, next.relay.writer = some writer → next.WriterFits writer) :
    next.ledger = stage.ledger ∧ Tallied next := by
  -- The ledger is steady all the time, so no ticket is filed on the way.
  have hsteady := h.tallies.steady
  have hledger : next.ledger = stage.ledger := by
    cases deeds with
    | nil =>
      rw [List.map_nil, List.append_nil] at hhistory
      rw [Stage.ledger, hhistory, hnext, Stage.ledger]
    | cons deed deeds =>
      rw [List.forall_mem_cons] at aside
      rw [Stage.ledger_cons hhistory hrelay, Ledger.enter_aside aside.1,
        Ledger.foldl_record_aside (hrelay ▸ hsteady) aside.2, hnext, Ledger.file_of_steady hsteady]
  refine ⟨hledger, ?_, hwriter⟩
  rw [hledger, hhistory, History.polled_append, History.polled_aside aside, List.append_nil, hnext,
    hrequests, hvocabulary]
  exact h.tallies

theorem did (h : Tallied stage) {relay : Relay} {deeds : List Deed}
    (hhistory : next.history = stage.history ++ deeds.map (Moment.mk relay))
    (aside : ∀ deed ∈ deeds, deed.isAside = true)
    (hrelay : relay.writer = stage.relay.writer) (hwriter : next.relay.writer = stage.relay.writer)
    (hrequests : next.relay.requests = stage.relay.requests)
    (hvocabulary : next.relay.vocabulary = stage.relay.vocabulary)
    (hserve : stage.duty.serve = false → next.duty.serve = false) :
    next.ledger = stage.ledger ∧ Tallied next :=
  h.aside hhistory aside (by rw [hrelay]) (by rw [hwriter]) hrequests hvocabulary
    (h.writerFits hwriter hrequests hserve)

theorem arrived (h : Tallied stage) {event : SelectionRequest} {selection : Selection}
    (named : stage.relay.vocabulary.selection? event.selection = some selection)
    (hhistory : next.history = stage.history ++
      [⟨stage.relay, .called .pollEvent (some (.selectionRequest event))⟩])
    (hrelay : next.relay = stage.relay.withRequests (stage.relay.requests ++ [⟨selection, event⟩]))
    (hserve : next.duty.serve = stage.relay.requests.isEmpty) :
    next.ledger = stage.ledger.accept event (some selection) ∧ Tallied next := by
  have hfree (empty : stage.relay.requests = []) : stage.relay.writer.isSome = false := by
    rw [h.free_of_empty empty]
    rfl
  have haccepted := h.tallies.accept hfree named
  have hledger : next.ledger = stage.ledger.accept event (some selection) := by
    rw [Stage.ledger_cons hhistory rfl, Ledger.enter_request, named, List.foldl_nil, hrelay]
    exact Ledger.file_of_steady haccepted.steady
  refine ⟨hledger, ?_, fun writer busy => ?_⟩
  · rw [hledger, hhistory, History.polled_append, hrelay]
    exact haccepted
  · rw [hrelay] at busy
    obtain ⟨-, request, rest, hrequests, hfits⟩ := h.writer writer busy
    refine ⟨by rw [hserve, hrequests]; rfl, request, rest ++ [⟨selection, event⟩], ?_, hfits⟩
    rw [hrelay]
    simp [Relay.withRequests, hrequests]

theorem turnedAway (h : Tallied stage) {event : SelectionRequest} {notice : Notice}
    (foreign : stage.relay.vocabulary.selection? event.selection = none)
    (aside : (Deed.noted notice).isAside = true)
    (hhistory : next.history = stage.history ++
      [⟨stage.relay, .called .pollEvent (some (.selectionRequest event))⟩,
        ⟨stage.relay, .noted notice⟩,
        ⟨stage.relay, .called (.notifyRequestor event Atom.null) ()⟩])
    (hrelay : next.relay = stage.relay) (hduty : next.duty = stage.duty) :
    next.ledger = (stage.ledger.accept event none).answer event Atom.null ∧ Tallied next := by
  have haccepted : (stage.ledger.accept event none).Steady stage.relay.writer.isSome :=
    h.tallies.steady
  have hturned := h.tallies.turnAway foreign
  have hledger : next.ledger = (stage.ledger.accept event none).answer event Atom.null := by
    rw [Stage.ledger_cons hhistory rfl, Ledger.enter_request, foreign, List.foldl_cons,
      Ledger.record_of_steady haccepted, Ledger.enter_aside aside, List.foldl_cons,
      Ledger.record_of_steady haccepted, Ledger.enter_notify, List.foldl_nil, hrelay]
    exact Ledger.file_of_steady hturned.steady
  refine ⟨hledger, ?_, h.writerFits (by rw [hrelay]) (by rw [hrelay]) (by rw [hduty]; exact id)⟩
  rw [hledger, hhistory, History.polled_append, hrelay]
  exact hturned

theorem asked (h : Tallied stage) {type : ContentType}
    (front : stage.relay.requests = request :: rest)
    (hhistory : next.history = stage.history ++
      [⟨stage.relay, .sent (.ask request.selection type)⟩])
    (hrelay : next.relay = stage.relay) (hserve : next.duty.serve = false) :
    next.ledger = stage.ledger.onFront (Ticket.ask request.selection type) ∧ Tallied next := by
  have hasked := (front ▸ h.tallies).ask request.selection type
  have hledger : next.ledger = stage.ledger.onFront (Ticket.ask request.selection type) := by
    rw [Stage.ledger_cons hhistory rfl, Ledger.enter_ask, List.foldl_nil, hrelay]
    exact Ledger.file_of_steady hasked.steady
  refine ⟨hledger, ?_, h.writerFits (by rw [hrelay]) (by rw [hrelay]) fun _ => hserve⟩
  rw [hledger, hhistory, History.polled_append, hrelay, front]
  exact (List.append_nil stage.history.polled).symm ▸ hasked

theorem answered (h : Tallied stage) {property : Atom}
    (front : stage.relay.requests = request :: rest) (free : stage.relay.writer = none)
    (hhistory : next.history = stage.history ++
      [⟨stage.relay, .called (.notifyRequestor request.event property) ()⟩])
    (hrelay : next.relay = stage.relay.withRequests rest) :
    next.ledger = (stage.ledger.answer request.event property).file false ∧ Tallied next := by
  have htallies := h.tallies
  rw [front, free] at htallies
  have hnone : next.relay.writer = none := by rw [hrelay, ← free]; rfl
  have hledger : next.ledger = (stage.ledger.answer request.event property).file false := by
    rw [Stage.ledger_cons hhistory rfl, Ledger.enter_notify, List.foldl_nil, hnone]
    rfl
  refine ⟨hledger, ?_, by simp [hnone]⟩
  rw [hledger, hhistory, History.polled_append, hnone, hrelay]
  exact (List.append_nil stage.history.polled).symm ▸ htallies.serve property

theorem announced (h : Tallied stage) {data : Bytes}
    (front : stage.relay.requests = request :: rest) (free : stage.relay.writer = none)
    (hhistory : next.history = stage.history ++
      [⟨stage.relay, .called (.notifyRequestor request.event request.event.replyProperty) ()⟩])
    (hrelay : next.relay = stage.relay.withWriter (some {
      data
      requestor := request.event.requestor
      property := request.event.replyProperty
      target := request.event.target })) (hserve : next.duty.serve = false) :
    next.ledger = stage.ledger.answer request.event request.event.replyProperty ∧
      Tallied next := by
  have htallies := h.tallies
  rw [front, free] at htallies
  have hsending : next.relay.writer.isSome = true := by rw [hrelay]; rfl
  have hrequests : next.relay.requests = request :: rest := by rw [hrelay]; exact front
  have hledger : next.ledger = stage.ledger.answer request.event request.event.replyProperty := by
    rw [Stage.ledger_cons hhistory rfl, Ledger.enter_notify, List.foldl_nil, hsending,
      Ledger.file_of_sending]
  refine ⟨hledger, ?_, fun writer busy => ?_⟩
  · rw [hledger, hhistory, History.polled_append, hsending, hrequests, hrelay]
    exact (List.append_nil stage.history.polled).symm ▸ htallies.announce
  · rw [hrelay] at busy
    obtain rfl := Option.some.inj busy
    exact ⟨hserve, request, rest, hrequests, rfl, rfl, rfl⟩

theorem chunkSent (h : Tallied stage) {deeds : List Deed} (busy : stage.relay.writer = some writer)
    (aside : ∀ deed ∈ deeds, deed.isAside = true)
    (hrelay : next.relay = stage.relay.withWriter
      (some (writer.advance stage.relay.propertyLimit)))
    (hhistory : next.history = stage.history ++ deeds.map (Moment.mk next.relay))
    (hserve : stage.duty.serve = false → next.duty.serve = false) :
    next.ledger = stage.ledger ∧ Tallied next := by
  have hsending : next.relay.writer.isSome = stage.relay.writer.isSome := by
    rw [hrelay, busy]
    rfl
  refine h.aside hhistory aside hsending hsending (by rw [hrelay]; rfl) (by rw [hrelay]; rfl) ?_
  intro other hother
  rw [hrelay] at hother
  obtain rfl := Option.some.inj hother
  obtain ⟨hserved, hfits⟩ := h.writer writer busy
  refine ⟨hserve hserved, ?_⟩
  rw [hrelay]
  exact hfits

theorem finished (h : Tallied stage) (busy : stage.relay.writer = some writer)
    (hhistory : next.history = stage.history)
    (hrelay : next.relay = (stage.relay.withWriter none).withRequests stage.relay.requests.tail) :
    next.ledger = stage.ledger.file false ∧ Tallied next := by
  obtain ⟨-, request, rest, front, -⟩ := h.writer writer busy
  have htallies := h.tallies
  rw [front, busy] at htallies
  have hnone : next.relay.writer = none := by rw [hrelay]; rfl
  have hledger : next.ledger = stage.ledger.file false := by
    rw [Stage.ledger, Stage.ledger, hhistory, hnone, busy, Option.isSome_some,
      Ledger.file_of_sending]
    rfl
  refine ⟨hledger, ?_, by simp [hnone]⟩
  rw [hledger, hnone, hhistory, hrelay, front]
  exact htallies.finish

theorem dropped (h : Tallied stage) {selection : Selection}
    (hhistory : next.history = stage.history ++ (stage.relay.dropDeeds selection).map
      (Moment.mk (stage.relay.withoutRequests selection)))
    (hrequests : next.relay.requests = (stage.relay.withoutRequests selection).requests)
    (hvocabulary : next.relay.vocabulary = stage.relay.vocabulary)
    (hwriter : next.relay.writer =
      if stage.relay.requests.head?.map (·.selection) = some selection then none
      else stage.relay.writer)
    (hserve : stage.relay.requests.head?.map (·.selection) ≠ some selection →
      stage.duty.serve = false → next.duty.serve = false) :
    next.ledger = stage.ledger.evict selection stage.relay.writer.isSome ∧ Tallied next := by
  have hevicted := h.tallies.evict selection
  have hsending : next.relay.writer.isSome = (stage.relay.writer.isSome &&
      decide (stage.relay.requests.head?.map (·.selection) ≠ some selection)) := by
    rw [hwriter]
    split
    case isTrue active => simp [active]
    case isFalse other => simp [other]
  have hpolled : next.history.polled = stage.history.polled := by
    simp [hhistory, History.polled, Relay.dropDeeds]
  have hledger : next.ledger = stage.ledger.evict selection stage.relay.writer.isSome := by
    rw [Relay.dropDeeds, List.map_cons, List.map_map] at hhistory
    have hrefused : ((stage.relay.requestsOf selection).map (Moment.mk
        (stage.relay.withoutRequests selection) ∘ fun request =>
          .called (.notifyRequestor request.event Atom.null) ())).foldl Ledger.record
            (stage.ledger.drop selection stage.relay.writer.isSome) =
              stage.ledger.evict selection stage.relay.writer.isSome :=
      Ledger.foldl_record_drop (stage.relay.withoutRequests selection) h.tallies.queue
        h.tallies.settled (h.tallies.steady_evict selection)
    have hdrop := stage.ledger.enter_requestsDropped (stage.relay.withoutRequests selection)
      selection (stage.relay.requestsOf selection).length
    rw [Stage.ledger_cons hhistory rfl, hdrop]
    refine (congrArg (Ledger.file _) hrefused).trans (Ledger.file_of_steady ?_)
    exact hsending ▸ hevicted.steady
  refine ⟨hledger, ?_, fun writer busy => ?_⟩
  · rw [hledger, hpolled, hsending, hrequests, hvocabulary]
    exact hevicted
  · rw [hwriter] at busy
    split at busy
    case isTrue => cases busy
    case isFalse other =>
      obtain ⟨hserved, request, rest, front, hfits⟩ := h.writer writer busy
      refine ⟨hserve other hserved, request, rest.filter (·.selection ≠ selection), ?_, hfits⟩
      rw [front] at other
      rw [hrequests, Relay.withoutRequests, Relay.withRequests, front,
        List.filter_cons_of_pos (by simpa using other)]

end Tallied

end ClipboardRelay
