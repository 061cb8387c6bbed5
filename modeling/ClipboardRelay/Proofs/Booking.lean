import ClipboardRelay.Proofs.Filing
/-!
The requests of applications where no call fails. `Booked` adds to the ledger what the agent was
asked: it was asked for the request at the head of the queue and for none behind it, and what is
written goes where the request at the head wants it. It is kept when nothing happens that the ledger
is about.
-/

namespace ClipboardRelay

namespace Moment

/-- The request that is polled for a selection that is not kept in step. -/
def foreign? (moment : Moment) : Option SelectionRequest :=
  match moment.deed with
  | .called .pollEvent (some (.selectionRequest event)) =>
    if (moment.relay.vocabulary.selection? event.selection).isNone then some event else none
  | _ => none

def AskFits (moment : Moment) : Prop :=
  match moment.deed with
  | .sent (.ask selection type) =>
    ∃ request rest, moment.relay.requests = request :: rest ∧ request.selection = selection ∧
      moment.relay.registry.typeFor request.event.target = some type ∧
      moment.relay.slots.owner selection = .agent
  | _ => True

/-- A property that is stored is the one that the request at the head of the queue names, and the
agent owns what was requested. -/
def StoreFits (moment : Moment) : Prop :=
  match moment.deed with
  | .called (.changeProperty requestor property _ _) _ =>
    ∃ request rest, moment.relay.requests = request :: rest ∧
      requestor = request.event.requestor ∧ property = request.event.replyProperty ∧
      moment.relay.slots.owner request.selection = .agent
  | _ => True

def FitsFront (moment : Moment) : Prop :=
  moment.AskFits ∧ moment.StoreFits

theorem not_foreign_of_aside {moment : Moment} (h : moment.deed.isAside = true) :
    moment.foreign? = none := by
  unfold foreign?
  unfold Deed.isAside at h
  split <;> simp_all

theorem askFits_of_aside {moment : Moment} (h : moment.deed.isAside = true) : moment.AskFits := by
  unfold AskFits
  unfold Deed.isAside at h
  split <;> simp_all

theorem storeFits_of_plain {moment : Moment} (h : moment.isPlain = true) : moment.StoreFits := by
  rcases moment with ⟨relay, deed⟩
  unfold StoreFits
  split
  case h_1 hdeed =>
    cases hdeed
    cases h
  case h_2 => trivial

end Moment

namespace History

def calls (history : History) : List Call :=
  history.filterMap fun moment =>
    match moment.deed with
    | .called call _ | .failed call _ => some call
    | _ => none

theorem calls_append (first second : History) :
    (first ++ second).calls = first.calls ++ second.calls :=
  List.filterMap_append

theorem mem_calls {history : History} {asked : Call} (h : asked ∈ history.calls) : ∃ relay,
    (∃ answer, ⟨relay, .called asked answer⟩ ∈ history) ∨
      ∃ fault, ⟨relay, .failed asked fault⟩ ∈ history := by
  obtain ⟨⟨relay, deed⟩, hmoment, hcall⟩ := List.mem_filterMap.mp h
  cases deed with
  | called made answer =>
    cases hcall
    exact ⟨relay, .inl ⟨answer, hmoment⟩⟩
  | failed made fault =>
    cases hcall
    exact ⟨relay, .inr ⟨fault, hmoment⟩⟩
  | began | sent | noted => cases hcall

/-- Whether every request for a selection that is not kept in step is refused at once, by the next
call. -/
def RefusesAtOnce : History → Prop
  | [] => True
  | moment :: rest =>
    (∀ event, moment.foreign? = some event →
      (calls rest).head? = some (.notifyRequestor event Atom.null)) ∧ RefusesAtOnce rest

theorem RefusesAtOnce.append {first second : History} (hfirst : RefusesAtOnce first)
    (hsecond : RefusesAtOnce second) : RefusesAtOnce (first ++ second) := by
  induction first with
  | nil => exact hsecond
  | cons moment rest ih =>
    refine ⟨fun event hforeign => ?_, ih hfirst.2⟩
    change (calls (rest ++ second)).head? = _
    rw [calls_append, List.head?_append, hfirst.1 event hforeign]
    rfl

theorem refusesAtOnce_of_not_foreign {history : History}
    (h : ∀ moment ∈ history, moment.foreign? = none) : RefusesAtOnce history := by
  induction history with
  | nil => trivial
  | cons moment rest ih =>
    refine ⟨fun event hforeign => ?_, ih fun other hother => h other (List.mem_cons_of_mem _ hother)⟩
    rw [h moment List.mem_cons_self] at hforeign
    cases hforeign

end History

namespace Stage

def Questioned (stage : Stage) (ticket : Ticket) : Prop :=
  if stage.duty.serve then ticket.asked = []
  else
    ∃ selection type, ticket.selection = some selection ∧ ticket.asked = [(selection, type)] ∧
      stage.relay.slots.owner selection = .agent ∧
      ticket.event.target ≠ stage.relay.vocabulary.multiple ∧
      ticket.event.target ≠ stage.relay.vocabulary.targets ∧
      stage.relay.registry.typeFor ticket.event.target = some type

structure Alike (stage next : Stage) : Prop where
  serve : next.duty.serve = stage.duty.serve
  requests : next.relay.requests = stage.relay.requests
  vocabulary : next.relay.vocabulary = stage.relay.vocabulary
  registry : next.relay.registry = stage.relay.registry
  owner : ∀ request ∈ stage.relay.requests.head?,
    next.relay.slots.owner request.selection = stage.relay.slots.owner request.selection

end Stage

/-- The ledger tallies with the queue, and the agent was asked what it should have been. -/
structure Booked (stage : Stage) : Prop extends Tallied stage where
  front : ∀ ticket ∈ stage.ledger.waiting.head?, stage.Questioned ticket
  behind : ∀ ticket ∈ stage.ledger.waiting.tail, ticket.asked = []
  atOnce : stage.history.RefusesAtOnce
  fits : ∀ moment ∈ stage.history, moment.FitsFront

namespace Booked

variable {stage next : Stage} {request : DesktopRequest} {rest : List DesktopRequest}

theorem front_of_ticket (h : Booked stage) {ticket : Ticket}
    (hticket : ticket ∈ stage.ledger.waiting.head?) :
    ∃ request rest, stage.relay.requests = request :: rest ∧
      ticket.selection = some request.selection ∧ ticket.event = request.event := by
  cases front : stage.relay.requests with
  | nil =>
    rw [h.waiting_of_empty front] at hticket
    cases hticket
  | cons request rest =>
    obtain ⟨first, tickets, hwaiting, hselection, hevent, -⟩ := h.exists_ticket front
    rw [hwaiting] at hticket
    obtain rfl := Option.some.inj hticket
    exact ⟨request, rest, rfl, hselection, hevent⟩

theorem front_asked (h : Booked stage) (front : stage.relay.requests = request :: rest)
    (served : stage.duty.serve = false) :
    ∃ type, stage.relay.slots.owner request.selection = .agent ∧
      request.event.target ≠ stage.relay.vocabulary.multiple ∧
      request.event.target ≠ stage.relay.vocabulary.targets ∧
      stage.relay.registry.typeFor request.event.target = some type ∧
      ∃ ticket tickets, stage.ledger.waiting = ticket :: tickets ∧
        ticket.request? = some request ∧ ticket.asked = [(request.selection, type)] ∧
        tickets.map Ticket.request? = rest.map some := by
  obtain ⟨ticket, tickets, hwaiting, hselection, hevent, hrest⟩ := h.exists_ticket front
  have hfits := h.front ticket (by rw [hwaiting]; rfl)
  rw [Stage.Questioned, served] at hfits
  obtain ⟨selection, type, hsame, hasked, howner, hsingle, hcontent, hknown⟩ := hfits
  rw [hselection, Option.some.injEq] at hsame
  rw [← hsame] at howner hasked
  rw [hevent] at hsingle hcontent hknown
  refine ⟨type, howner, hsingle, hcontent, hknown, ticket, tickets, hwaiting, ?_, hasked, hrest⟩
  rw [Ticket.request?, hselection, hevent]
  rfl

theorem owned (h : Booked stage) (front : stage.relay.requests = request :: rest)
    (served : stage.duty.serve = false) :
    stage.relay.slots.owner request.selection = .agent := by
  obtain ⟨type, howner, -⟩ := h.front_asked front served
  exact howner

theorem extend (h : Booked stage) {added : History}
    (hhistory : next.history = stage.history ++ added) (hatOnce : added.RefusesAtOnce)
    (hfits : ∀ moment ∈ added, moment.FitsFront) (htallied : Tallied next)
    (hfront : ∀ ticket ∈ next.ledger.waiting.head?, next.Questioned ticket)
    (hbehind : ∀ ticket ∈ next.ledger.waiting.tail, ticket.asked = []) : Booked next := by
  refine ⟨htallied, hfront, hbehind, ?_, ?_⟩
  · rw [hhistory]
    exact h.atOnce.append hatOnce
  · rw [hhistory]
    intro moment hmoment
    rcases List.mem_append.mp hmoment with hold | hnew
    · exact h.fits moment hold
    · exact hfits moment hnew

theorem alike (h : Booked stage) {relay : Relay} {deeds : List Deed}
    (hhistory : next.history = stage.history ++ deeds.map (Moment.mk relay))
    (same : stage.Alike next) (aside : ∀ deed ∈ deeds, deed.isAside = true)
    (fits : ∀ deed ∈ deeds, (Moment.mk relay deed).StoreFits)
    (htallied : next.ledger = stage.ledger ∧ Tallied next) : Booked next := by
  obtain ⟨hledger, htallied⟩ := htallied
  refine h.extend hhistory ?_ ?_ htallied ?_ ?_
  · refine History.refusesAtOnce_of_not_foreign fun moment hmoment => ?_
    obtain ⟨deed, hdeed, rfl⟩ := List.mem_map.mp hmoment
    exact Moment.not_foreign_of_aside (aside deed hdeed)
  · intro moment hmoment
    obtain ⟨deed, hdeed, rfl⟩ := List.mem_map.mp hmoment
    exact ⟨Moment.askFits_of_aside (aside deed hdeed), fits deed hdeed⟩
  · rw [hledger]
    intro ticket hticket
    have hfront := h.front ticket hticket
    obtain ⟨request, rest, hrequests, hselection, -⟩ := h.front_of_ticket hticket
    have howner := same.owner request (by rw [hrequests]; rfl)
    unfold Stage.Questioned at hfront ⊢
    rw [same.serve, same.vocabulary, same.registry]
    simp only [hselection, Option.some.injEq, exists_and_left, exists_eq_left'] at hfront ⊢
    rw [howner]
    exact hfront
  · rw [hledger]
    exact h.behind

theorem aside (h : Booked stage) {relay : Relay} {deeds : List Deed}
    (hhistory : next.history = stage.history ++ deeds.map (Moment.mk relay))
    (same : stage.Alike next) (hwriter : next.relay.writer = stage.relay.writer)
    (hrelay : relay.writer = stage.relay.writer) (aside : ∀ deed ∈ deeds, deed.isAside = true)
    (fits : ∀ deed ∈ deeds, (Moment.mk relay deed).StoreFits) : Booked next :=
  h.alike hhistory same aside fits (h.did hhistory aside hrelay hwriter same.requests
    same.vocabulary (by rw [same.serve]; exact id))

theorem silently (h : Booked stage) (hhistory : next.history = stage.history)
    (same : stage.Alike next) (hwriter : next.relay.writer = stage.relay.writer) : Booked next :=
  h.aside (show next.history = stage.history ++ [].map (Moment.mk stage.relay) by
    simpa using hhistory) same hwriter rfl (by simp) (by simp)

end Booked

end ClipboardRelay
