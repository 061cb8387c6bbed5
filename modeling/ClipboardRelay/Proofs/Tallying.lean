import ClipboardRelay.Proofs.Ledger
/-!
A ledger beside the queue of the applications' requests. It tallies with the queue if its waiting
tickets are those of the requests in the queue, the one at the head is answered only if its transfer
is under way, and none behind it is. Main statements: it still tallies after each way in which a
request moves through the ledger.
-/

namespace ClipboardRelay

namespace Ledger

theorem mem_head?_concat {tickets : List Ticket} {last ticket : Ticket}
    (h : ticket ∈ (tickets ++ [last]).head?) :
    ticket ∈ tickets.head? ∨ tickets = [] ∧ ticket = last := by
  cases tickets with
  | nil => exact .inr ⟨rfl, (Option.some.inj h).symm⟩
  | cons => exact .inl h

theorem mem_tail_concat {tickets : List Ticket} {last ticket : Ticket}
    (h : ticket ∈ (tickets ++ [last]).tail) : ticket ∈ tickets.tail ∨ ticket = last := by
  cases tickets with
  | nil => cases h
  | cons => simpa using h

/-- A sound ledger that agrees with the queue: the request at the head is answered only if its
transfer is under way, and none behind it is. -/
structure Tallies (ledger : Ledger) (vocabulary : Vocabulary) (polled : List SelectionRequest)
    (requests : List DesktopRequest) (sending : Bool) : Prop extends
    ledger.Sound vocabulary polled where
  settled : ledger.refusing = []
  queue : ledger.waiting.map Ticket.request? = requests.map some
  front : ∀ ticket ∈ ledger.waiting.head?,
    ticket.told = if sending then [(ticket.event, ticket.event.replyProperty)] else []
  behind : ∀ ticket ∈ ledger.waiting.tail, ticket.told = [] ∧ ticket.cut = false

namespace Tallies

variable {ledger : Ledger} {vocabulary : Vocabulary} {polled : List SelectionRequest}
  {request : DesktopRequest} {requests rest : List DesktopRequest} {sending : Bool}

theorem empty : Ledger.Tallies {} vocabulary [] [] false :=
  ⟨.empty, rfl, rfl, by simp, by simp⟩

theorem steady (h : ledger.Tallies vocabulary polled requests sending) : ledger.Steady sending := by
  intro ticket hticket
  have htold := h.front ticket hticket
  cases sending with
  | true => exact .inr rfl
  | false => exact .inl htold

theorem exists_ticket (h : ledger.Tallies vocabulary polled (request :: rest) sending) :
    ∃ ticket tickets, ledger.waiting = ticket :: tickets ∧
      ticket.selection = some request.selection ∧ ticket.event = request.event ∧
      tickets.map Ticket.request? = rest.map some := by
  obtain ⟨ticket, tickets, hwaiting, hticket, htickets⟩ := List.map_eq_cons_iff.mp h.queue
  obtain ⟨selection, hselection, hrequest⟩ := Option.map_eq_some_iff.mp hticket
  refine ⟨ticket, tickets, hwaiting, ?_, ?_, htickets⟩
  · rw [hselection, ← hrequest]
  · rw [← hrequest]

theorem selection_of_mem (h : ledger.Tallies vocabulary polled requests sending)
    (hrequest : request ∈ requests) :
    vocabulary.selection? request.event.selection = some request.selection := by
  have hmem : some request ∈ ledger.waiting.map Ticket.request? :=
    h.queue ▸ List.mem_map_of_mem hrequest
  obtain ⟨ticket, hticket, hsame⟩ := List.mem_map.mp hmem
  obtain ⟨selection, hselection, rfl⟩ := Option.map_eq_some_iff.mp hsame
  have htickets : ticket ∈ ledger.tickets := List.mem_append_right _ hticket
  exact (h.named ticket htickets).symm.trans hselection

theorem accept (h : ledger.Tallies vocabulary polled requests sending)
    (hfree : requests = [] → sending = false) {event : SelectionRequest} {selection : Selection}
    (hnamed : vocabulary.selection? event.selection = some selection) :
    (ledger.accept event (some selection)).Tallies vocabulary (polled ++ [event])
      (requests ++ [⟨selection, event⟩]) sending where
  toSound := h.toSound.queue hnamed
  settled := h.settled
  queue := by
    rw [List.map_append, ← h.queue]
    exact List.map_append
  front := by
    intro ticket hticket
    rcases mem_head?_concat hticket with hold | ⟨hempty, rfl⟩
    · exact h.front ticket hold
    · have hqueue := h.queue
      rw [hempty, List.map_nil, eq_comm, List.map_eq_nil_iff] at hqueue
      rw [hfree hqueue]
      rfl
  behind := by
    intro ticket hticket
    rcases mem_tail_concat hticket with hold | rfl
    · exact h.behind ticket hold
    · exact ⟨rfl, rfl⟩

theorem turnAway (h : ledger.Tallies vocabulary polled requests sending) {event : SelectionRequest}
    (foreign : vocabulary.selection? event.selection = none) :
    ((ledger.accept event none).answer event Atom.null).Tallies vocabulary (polled ++ [event])
      requests sending := by
  have hsound := h.toSound.turnAway h.settled foreign
  rw [answer_accept h.settled] at hsound ⊢
  exact ⟨hsound, h.settled, h.queue, h.front, h.behind⟩

theorem onFront (h : ledger.Tallies vocabulary polled requests sending) {ticket : Ticket}
    {tickets : List Ticket} (hwaiting : ledger.waiting = ticket :: tickets)
    {enter : Ticket → Ticket} (henter : (enter ticket).blank = ticket.blank) {later : Bool}
    (htold : (enter ticket).told =
      if later then [(ticket.event, ticket.event.replyProperty)] else []) :
    (ledger.onFront enter).Tallies vocabulary polled requests later := by
  have hsound := h.toSound.onFront hwaiting henter
  have hqueue := h.queue
  have hbehind := h.behind
  have hrequest : (enter ticket).request? = ticket.request? := (congrArg Ticket.request? henter :)
  have hevent : (enter ticket).event = ticket.event := (congrArg Ticket.event henter :)
  rw [hwaiting] at hqueue hbehind
  rw [onFront_cons hwaiting] at hsound ⊢
  refine ⟨hsound, h.settled, ?_, ?_, hbehind⟩
  · rw [List.map_cons, hrequest]
    exact hqueue
  · intro other hother
    obtain rfl := Option.some.inj hother
    rw [hevent]
    exact htold

theorem ask (h : ledger.Tallies vocabulary polled (request :: rest) sending)
    (selection : Selection) (type : ContentType) :
    (ledger.onFront (Ticket.ask selection type)).Tallies vocabulary polled (request :: rest)
      sending := by
  obtain ⟨ticket, tickets, hwaiting, -, -, -⟩ := h.exists_ticket
  exact h.onFront hwaiting rfl (h.front ticket (by rw [hwaiting]; rfl))

theorem announce (h : ledger.Tallies vocabulary polled (request :: rest) false) :
    (ledger.answer request.event request.event.replyProperty).Tallies vocabulary polled
      (request :: rest) true := by
  obtain ⟨ticket, tickets, hwaiting, -, hevent, -⟩ := h.exists_ticket
  rw [answer_of_settled h.settled]
  refine h.onFront hwaiting rfl ?_
  rw [Ticket.tell, h.front ticket (by rw [hwaiting]; rfl), ← hevent]
  rfl

theorem file_answer (h : ledger.Tallies vocabulary polled (request :: rest) false)
    (property : Atom) {ticket : Ticket} {tickets : List Ticket}
    (hwaiting : ledger.waiting = ticket :: tickets) :
    (ledger.answer request.event property).file false =
      { ledger with
        waiting := tickets
        served := ledger.served ++ [ticket.tell request.event property] } := by
  rw [answer_of_settled h.settled, onFront_cons hwaiting]
  refine file_cons rfl ?_
  rw [Ticket.tell]
  exact List.append_ne_nil_of_right_ne_nil _ (List.cons_ne_nil _ _)

theorem serve (h : ledger.Tallies vocabulary polled (request :: rest) false) (property : Atom) :
    ((ledger.answer request.event property).file false).Tallies vocabulary polled rest false := by
  obtain ⟨ticket, tickets, hwaiting, hselection, hevent, hrest⟩ := h.exists_ticket
  have htold : (ticket.tell request.event property).told = [(ticket.event, property)] := by
    rw [Ticket.tell, h.front ticket (by rw [hwaiting]; rfl), hevent]
    rfl
  have hsound := h.toSound.onFront hwaiting
    (rfl : (ticket.tell request.event property).blank = _)
  have hbehind := h.behind
  rw [hwaiting] at hbehind
  rw [onFront_cons hwaiting] at hsound
  rw [h.file_answer property hwaiting]
  refine ⟨hsound.serve rfl (by rw [Ticket.tell, hselection]; rfl) htold, h.settled, hrest, ?_, ?_⟩
  · exact fun other hother => (hbehind other (List.mem_of_mem_head? hother)).1
  · exact fun other hother => hbehind other (List.mem_of_mem_tail hother)

theorem waiting_serve (h : ledger.Tallies vocabulary polled (request :: rest) false)
    (property : Atom) :
    ((ledger.answer request.event property).file false).waiting = ledger.waiting.tail := by
  obtain ⟨ticket, tickets, hwaiting, -, -, -⟩ := h.exists_ticket
  rw [h.file_answer property hwaiting, hwaiting]
  rfl

theorem file_sent (h : ledger.Tallies vocabulary polled requests true) {ticket : Ticket}
    {tickets : List Ticket} (hwaiting : ledger.waiting = ticket :: tickets) :
    ledger.file false =
      { ledger with waiting := tickets, served := ledger.served ++ [ticket] } := by
  refine file_cons hwaiting ?_
  rw [h.front ticket (by rw [hwaiting]; rfl)]
  exact List.cons_ne_nil _ _

theorem finish (h : ledger.Tallies vocabulary polled (request :: rest) true) :
    (ledger.file false).Tallies vocabulary polled rest false := by
  obtain ⟨ticket, tickets, hwaiting, hselection, -, hrest⟩ := h.exists_ticket
  have htold := h.front ticket (by rw [hwaiting]; rfl)
  have hbehind := h.behind
  rw [hwaiting] at hbehind
  rw [h.file_sent hwaiting]
  refine ⟨h.toSound.serve hwaiting (by rw [hselection]; rfl) htold, h.settled, hrest, ?_, ?_⟩
  · exact fun other hother => (hbehind other (List.mem_of_mem_head? hother)).1
  · exact fun other hother => hbehind other (List.mem_of_mem_tail hother)

theorem waiting_finish (h : ledger.Tallies vocabulary polled (request :: rest) true) :
    (ledger.file false).waiting = ledger.waiting.tail := by
  obtain ⟨ticket, tickets, hwaiting, -, -, -⟩ := h.exists_ticket
  rw [h.file_sent hwaiting, hwaiting]
  rfl

theorem told_marked (h : ledger.Tallies vocabulary polled requests sending) :
    ∀ ticket ∈ marked sending ledger.waiting, ticket.told =
      if ticket.cut then [(ticket.event, ticket.event.replyProperty)] else [] := by
  have hfront := h.front
  have hbehind := h.behind
  cases hwaiting : ledger.waiting with
  | nil =>
    intro ticket hticket
    cases hticket
  | cons first tickets =>
    rw [hwaiting] at hfront hbehind
    intro ticket hticket
    rcases List.mem_cons.mp hticket with rfl | htail
    · exact hfront first rfl
    · obtain ⟨untold, whole⟩ := hbehind ticket htail
      rw [whole]
      exact untold

/-- The requests for a selection are refused. If the first of the queue is among them, its transfer
is over. -/
theorem evict (h : ledger.Tallies vocabulary polled requests sending) (selection : Selection) :
    (ledger.evict selection sending).Tallies vocabulary polled
      (requests.filter (·.selection ≠ selection))
      (sending && decide (requests.head?.map (·.selection) ≠ some selection)) where
  toSound := h.toSound.evict h.told_marked
  settled := h.settled
  queue := by
    refine request?_filter h.queue fun ticket request hrequest => ?_
    obtain ⟨other, hother, rfl⟩ := Option.map_eq_some_iff.mp hrequest
    simp [hother]
  front := by
    cases requests with
    | nil =>
      have hnone : ledger.waiting = [] := List.map_eq_nil_iff.mp h.queue
      intro ticket hticket
      rw [Ledger.evict, hnone] at hticket
      cases hticket
    | cons request rest =>
      obtain ⟨first, tickets, hwaiting, hselection, -, -⟩ := h.exists_ticket
      have hbehind := h.behind
      rw [hwaiting] at hbehind
      by_cases hsame : request.selection = selection
      · have hgone : (ledger.evict selection sending).waiting =
            tickets.filter (·.selection ≠ some selection) := by
          rw [Ledger.evict, hwaiting, List.filter_cons_of_neg (by simp [hselection, hsame])]
        intro ticket hticket
        rw [hgone] at hticket
        rw [(hbehind ticket (List.mem_of_mem_filter (List.mem_of_mem_head? hticket))).1]
        simp [hsame]
      · have hstays : (ledger.evict selection sending).waiting =
            first :: tickets.filter (·.selection ≠ some selection) := by
          rw [Ledger.evict, hwaiting, List.filter_cons_of_pos (by simp [hselection, hsame])]
        intro ticket hticket
        rw [hstays] at hticket
        obtain rfl := Option.some.inj hticket
        simpa [hsame] using h.front first (by rw [hwaiting]; rfl)
  behind := fun ticket hticket => h.behind ticket (List.filter_sublist.tail.subset hticket)

theorem steady_evict (h : ledger.Tallies vocabulary polled requests sending)
    (selection : Selection) : (ledger.evict selection sending).Steady sending := by
  intro ticket hticket
  refine ((h.evict selection).steady ticket hticket).imp_right fun hsending => ?_
  exact (Bool.and_eq_true_iff.mp hsending).1

end Tallies

end Ledger

end ClipboardRelay
