import ClipboardRelay.Proofs.History
import Mathlib.Data.List.Perm.Basic
/-!
A ledger of the requests of desktop applications, kept from the history of a relay. Two
requests can look the same, so each gets a ticket with a number of its own when it is polled, and
every answer is entered on the ticket of the request that it is an answer to. Main statement: each
way in which a request moves through the ledger keeps it sound.
-/

namespace ClipboardRelay

structure Ticket where
  number : Nat
  event : SelectionRequest
  /-- The selection that the request is for, if it is one of those kept in step. -/
  selection : Option Selection
  /-- What the application was told: which request was answered, and where the reply is. -/
  told : List (SelectionRequest × Atom) := []
  asked : List (Selection × ContentType) := []
  cut : Bool := false

namespace Ticket

def tell (event : SelectionRequest) (property : Atom) (ticket : Ticket) : Ticket :=
  { ticket with told := ticket.told ++ [(event, property)] }

def ask (selection : Selection) (type : ContentType) (ticket : Ticket) : Ticket :=
  { ticket with asked := ticket.asked ++ [(selection, type)] }

def request? (ticket : Ticket) : Option DesktopRequest :=
  ticket.selection.map fun selection => { selection, event := ticket.event }

def blank (ticket : Ticket) : Ticket :=
  { number := ticket.number, event := ticket.event, selection := ticket.selection }

def entry (ticket : Ticket) : SelectionRequest × Nat :=
  (ticket.event, ticket.number)

def Served (ticket : Ticket) : Prop :=
  ticket.selection.isSome = true ∧ ∃ property, ticket.told = [(ticket.event, property)]

/-- Whether the request was refused once. One that was being sent data was answered before. -/
def Refused (ticket : Ticket) : Prop :=
  (ticket.cut = true → ticket.selection.isSome = true) ∧
    ticket.told = (if ticket.cut then [(ticket.event, ticket.event.replyProperty)] else []) ++
      [(ticket.event, Atom.null)]

end Ticket

structure Ledger where
  arrived : Nat := 0
  waiting : List Ticket := []
  refusing : List Ticket := []
  served : List Ticket := []
  /-- Tickets of requests that were dropped from the queue or never put into it. -/
  refused : List Ticket := []
  strays : Nat := 0

namespace Ledger

def tickets (ledger : Ledger) : List Ticket :=
  ledger.refused ++ ledger.served ++ ledger.refusing ++ ledger.waiting

def accept (event : SelectionRequest) (selection : Option Selection) (ledger : Ledger) : Ledger :=
  let ticket := { number := ledger.arrived, event, selection }
  if selection.isSome then
    { ledger with arrived := ledger.arrived + 1, waiting := ledger.waiting ++ [ticket] }
  else { ledger with arrived := ledger.arrived + 1, refusing := ledger.refusing ++ [ticket] }

def onFront (enter : Ticket → Ticket) (ledger : Ledger) : Ledger :=
  match ledger.waiting with
  | [] => { ledger with strays := ledger.strays + 1 }
  | ticket :: rest => { ledger with waiting := enter ticket :: rest }

/-- Enters an answer. Requests that are to be refused are answered before any others. -/
def answer (event : SelectionRequest) (property : Atom) (ledger : Ledger) : Ledger :=
  match ledger.refusing with
  | [] => ledger.onFront (Ticket.tell event property)
  | ticket :: rest =>
    { ledger with
      refusing := rest
      refused := ledger.refused ++ [ticket.tell event property] }

/-- Tickets, the first one marked if its request is in the middle of a transfer. -/
def marked (sending : Bool) : List Ticket → List Ticket
  | [] => []
  | ticket :: rest => { ticket with cut := sending } :: rest

def drop (selection : Selection) (sending : Bool) (ledger : Ledger) : Ledger :=
  { ledger with
    refusing := ledger.refusing ++
      (marked sending ledger.waiting).filter (·.selection = some selection)
    waiting := ledger.waiting.filter (·.selection ≠ some selection) }

def evict (selection : Selection) (sending : Bool) (ledger : Ledger) : Ledger :=
  { ledger with
    waiting := ledger.waiting.filter (·.selection ≠ some selection)
    refused := ledger.refused ++ ((marked sending ledger.waiting).filter
      (·.selection = some selection)).map fun ticket => ticket.tell ticket.event Atom.null }

/-- Files the ticket at the head of the queue once its request is answered and nothing is being
sent. -/
def file (sending : Bool) (ledger : Ledger) : Ledger :=
  match ledger.waiting with
  | [] => ledger
  | ticket :: rest =>
    if sending = false ∧ ticket.told ≠ [] then
      { ledger with waiting := rest, served := ledger.served ++ [ticket] }
    else ledger

def enter (ledger : Ledger) (moment : Moment) : Ledger :=
  match moment.deed with
  | .called .pollEvent (some (.selectionRequest event)) =>
    ledger.accept event (moment.relay.vocabulary.selection? event.selection)
  | .called (.notifyRequestor event property) _ => ledger.answer event property
  | .sent (.ask selection type) => ledger.onFront (Ticket.ask selection type)
  | .noted (.about selection (.requestsDropped _)) =>
    ledger.drop selection moment.relay.writer.isSome
  | _ => ledger

def record (ledger : Ledger) (moment : Moment) : Ledger :=
  (ledger.file moment.relay.writer.isSome).enter moment

end Ledger

namespace History

def ledger (history : History) : Ledger :=
  history.foldl Ledger.record {}

def polled (history : History) : List SelectionRequest :=
  history.filterMap fun moment =>
    match moment.deed with
    | .called .pollEvent (some (.selectionRequest event)) => some event
    | _ => none

end History

namespace Ledger

variable {ledger : Ledger} {sending : Bool}

theorem onFront_cons {enter : Ticket → Ticket} {ticket : Ticket} {rest : List Ticket}
    (h : ledger.waiting = ticket :: rest) :
    ledger.onFront enter = { ledger with waiting := enter ticket :: rest } := by
  rw [onFront, h]

theorem answer_of_settled (h : ledger.refusing = []) (event : SelectionRequest)
    (property : Atom) :
    ledger.answer event property = ledger.onFront (Ticket.tell event property) := by
  rw [answer, h]

theorem file_cons {ticket : Ticket} {rest : List Ticket} (h : ledger.waiting = ticket :: rest)
    (answered : ticket.told ≠ []) :
    ledger.file false =
      { ledger with waiting := rest, served := ledger.served ++ [ticket] } := by
  simp only [file, h, true_and]
  exact if_pos answered

theorem file_of_sending (ledger : Ledger) : ledger.file true = ledger := by
  unfold file
  split <;> simp

theorem enter_request (ledger : Ledger) (relay : Relay) (event : SelectionRequest) :
    ledger.enter ⟨relay, .called .pollEvent (some (.selectionRequest event))⟩ =
      ledger.accept event (relay.vocabulary.selection? event.selection) :=
  rfl

theorem enter_notify (ledger : Ledger) (relay : Relay) (event : SelectionRequest)
    (property : Atom) :
    ledger.enter ⟨relay, .called (.notifyRequestor event property) ()⟩ =
      ledger.answer event property :=
  rfl

theorem enter_ask (ledger : Ledger) (relay : Relay) (selection : Selection)
    (type : ContentType) :
    ledger.enter ⟨relay, .sent (.ask selection type)⟩ =
      ledger.onFront (Ticket.ask selection type) :=
  rfl

theorem enter_requestsDropped (ledger : Ledger) (relay : Relay) (selection : Selection)
    (count : Nat) :
    ledger.enter ⟨relay, .noted (.about selection (.requestsDropped count))⟩ =
      ledger.drop selection relay.writer.isSome :=
  rfl

def Steady (ledger : Ledger) (sending : Bool) : Prop :=
  ∀ ticket ∈ ledger.waiting.head?, ticket.told = [] ∨ sending = true

theorem file_of_steady (h : ledger.Steady sending) : ledger.file sending = ledger := by
  unfold file
  split
  case h_1 => rfl
  case h_2 ticket rest hwaiting =>
    refine if_neg fun ⟨idle, answered⟩ => ?_
    rcases h ticket (by simp [hwaiting]) with untold | busy
    · exact answered untold
    · rw [idle] at busy
      cases busy

theorem record_of_steady {moment : Moment} (h : ledger.Steady moment.relay.writer.isSome) :
    ledger.record moment = ledger.enter moment := by
  rw [record, file_of_steady h]

theorem answer_accept {event : SelectionRequest} (hrefusing : ledger.refusing = []) :
    (ledger.accept event none).answer event Atom.null =
      { ledger with
        arrived := ledger.arrived + 1
        refused := ledger.refused ++
          [⟨ledger.arrived, event, none, [(event, Atom.null)], [], false⟩] } := by
  simp [accept, answer, hrefusing, Ticket.tell]

theorem map_marked {β : Type} {read : Ticket → β}
    (h : ∀ (ticket : Ticket) (cut : Bool), read { ticket with cut } = read ticket)
    (selection : Selection) (sending : Bool) (tickets : List Ticket) :
    ((marked sending tickets).filter (·.selection = some selection)).map read =
      (tickets.filter (·.selection = some selection)).map read := by
  cases tickets with
  | nil => rfl
  | cons ticket rest =>
    simp only [marked, List.filter_cons]
    split
    case isTrue => rw [List.map_cons, List.map_cons, h]
    case isFalse => rfl

theorem filter_selection_perm (selection : Selection) (tickets : List Ticket) :
    (tickets.filter (·.selection = some selection) ++
      tickets.filter (·.selection ≠ some selection)).Perm tickets := by
  have hother : (fun ticket : Ticket => decide (ticket.selection ≠ some selection)) =
      fun ticket => !decide (ticket.selection = some selection) := by
    funext ticket
    exact decide_not
  rw [hother]
  exact List.filter_append_perm _ _

theorem request?_marked (sending : Bool) (tickets : List Ticket) :
    (marked sending tickets).map Ticket.request? = tickets.map Ticket.request? := by
  cases tickets <;> rfl

theorem request?_filter {tickets : List Ticket} {requests : List DesktopRequest}
    (same : tickets.map Ticket.request? = requests.map some) {picks : Ticket → Bool}
    {chosen : DesktopRequest → Bool}
    (agree : ∀ ticket request, ticket.request? = some request → picks ticket = chosen request) :
    (tickets.filter picks).map Ticket.request? = (requests.filter chosen).map some := by
  induction requests generalizing tickets with
  | nil =>
    rw [List.map_nil, List.map_eq_nil_iff] at same
    rw [same]
    rfl
  | cons request requests ih =>
    obtain ⟨ticket, others, rfl, hticket, hothers⟩ := List.map_eq_cons_iff.mp same
    have hrest := ih hothers
    rw [List.filter_cons, List.filter_cons, agree ticket request hticket]
    split
    case isTrue => rw [List.map_cons, List.map_cons, hticket, hrest]
    case isFalse => exact hrest

theorem foldl_record_refusing {relay : Relay} {tickets : List Ticket}
    {requests : List DesktopRequest}
    (same : tickets.map Ticket.request? = requests.map some)
    (hrefusing : ledger.refusing = tickets) (hsteady : ledger.Steady relay.writer.isSome) :
    (requests.map fun request => Moment.mk relay
      (.called (.notifyRequestor request.event Atom.null) ())).foldl record ledger =
        { ledger with
          refusing := []
          refused := ledger.refused ++
            tickets.map fun ticket => ticket.tell ticket.event Atom.null } := by
  induction requests generalizing tickets ledger with
  | nil =>
    rw [List.map_nil, List.map_eq_nil_iff] at same
    rw [same, List.map_nil, List.map_nil, List.append_nil, ← same, ← hrefusing]
    rfl
  | cons request requests ih =>
    obtain ⟨ticket, others, rfl, hticket, hothers⟩ := List.map_eq_cons_iff.mp same
    obtain ⟨selection, -, rfl⟩ := Option.map_eq_some_iff.mp hticket
    have hanswer : ledger.answer ticket.event Atom.null =
        { ledger with
          refusing := others
          refused := ledger.refused ++ [ticket.tell ticket.event Atom.null] } := by
      rw [answer, hrefusing]
    rw [List.map_cons, List.foldl_cons, record_of_steady hsteady, enter_notify]
    apply (ih hothers (by rw [hanswer]) (by rw [hanswer]; exact hsteady)).trans
    simp [hanswer]

theorem foldl_record_drop (relay : Relay) {selection : Selection} {requests : List DesktopRequest}
    (same : ledger.waiting.map Ticket.request? = requests.map some)
    (hrefusing : ledger.refusing = [])
    (hsteady : (ledger.evict selection relay.writer.isSome).Steady relay.writer.isSome) :
    ((requests.filter (·.selection = selection)).map fun request => Moment.mk relay
      (.called (.notifyRequestor request.event Atom.null) ())).foldl record
        (ledger.drop selection relay.writer.isSome) =
          ledger.evict selection relay.writer.isSome := by
  have hmarked := (request?_marked relay.writer.isSome ledger.waiting).trans same
  have hdropped : ((marked relay.writer.isSome ledger.waiting).filter
      (·.selection = some selection)).map Ticket.request? =
        (requests.filter (·.selection = selection)).map some := by
    refine request?_filter hmarked fun ticket request hrequest => ?_
    obtain ⟨other, hother, rfl⟩ := Option.map_eq_some_iff.mp hrequest
    simp [hother]
  have hrefused : (ledger.drop selection relay.writer.isSome).refusing =
      (marked relay.writer.isSome ledger.waiting).filter (·.selection = some selection) := by
    rw [Ledger.drop, hrefusing, List.nil_append]
  rw [foldl_record_refusing hdropped hrefused hsteady, evict, hrefusing]
  rfl

/-- A ledger in which every request has one ticket, and every ticket of a request that has left the
queue says that it was answered as it should be. -/
structure Sound (ledger : Ledger) (vocabulary : Vocabulary) (polled : List SelectionRequest) :
    Prop where
  complete : (ledger.tickets.map Ticket.entry).Perm polled.zipIdx
  arrived : ledger.arrived = polled.length
  named : ∀ ticket ∈ ledger.tickets,
    ticket.selection = vocabulary.selection? ticket.event.selection
  attributed : ledger.strays = 0
  inOrder : ((ledger.served ++ ledger.waiting).map (·.number)).Pairwise (· < ·)
  served : ∀ ticket ∈ ledger.served, ticket.Served
  refused : ∀ ticket ∈ ledger.refused, ticket.Refused

namespace Sound

variable {vocabulary : Vocabulary} {polled : List SelectionRequest}

theorem empty : Ledger.Sound {} vocabulary [] :=
  ⟨.refl _, rfl, by simp [tickets], rfl, .nil, by simp, by simp⟩

theorem number_lt (h : ledger.Sound vocabulary polled) {ticket : Ticket}
    (hticket : ticket ∈ ledger.tickets) : ticket.number < ledger.arrived := by
  have hentry := (h.complete.mem_iff).mp (List.mem_map_of_mem hticket)
  rw [h.arrived]
  exact List.snd_lt_of_mem_zipIdx hentry

theorem rearrange (h : ledger.Sound vocabulary polled) {next : Ledger}
    (harrived : next.arrived = ledger.arrived) (hstrays : next.strays = ledger.strays)
    (htickets : (next.tickets.map Ticket.blank).Perm (ledger.tickets.map Ticket.blank))
    (hinOrder : ((next.served ++ next.waiting).map (·.number)).Sublist
      ((ledger.served ++ ledger.waiting).map (·.number)))
    (hserved : ∀ ticket ∈ next.served, ticket.Served)
    (hrefused : ∀ ticket ∈ next.refused, ticket.Refused) : next.Sound vocabulary polled := by
  refine ⟨?_, harrived.trans h.arrived, ?_, hstrays.trans h.attributed,
    h.inOrder.sublist hinOrder, hserved, hrefused⟩
  · have hentries := htickets.map Ticket.entry
    rw [List.map_map, List.map_map] at hentries
    exact hentries.trans h.complete
  · intro ticket hticket
    obtain ⟨other, hother, hsame⟩ :=
      List.mem_map.mp (htickets.mem_iff.mp (List.mem_map_of_mem hticket))
    simp only [Ticket.blank, Ticket.mk.injEq] at hsame
    rw [← hsame.2.2.1, ← hsame.2.1]
    exact h.named other hother

theorem onFront (h : ledger.Sound vocabulary polled) {enter : Ticket → Ticket} {ticket : Ticket}
    {rest : List Ticket} (hwaiting : ledger.waiting = ticket :: rest)
    (henter : (enter ticket).blank = ticket.blank) :
    (ledger.onFront enter).Sound vocabulary polled := by
  have hnumber : (enter ticket).number = ticket.number := (congrArg Ticket.number henter :)
  unfold Ledger.onFront
  rw [hwaiting]
  refine h.rearrange rfl rfl ?_ ?_ h.served h.refused
  · simp [tickets, hwaiting, henter]
  · simp [hwaiting, hnumber]

theorem serve (h : ledger.Sound vocabulary polled) {ticket : Ticket} {rest : List Ticket}
    (hwaiting : ledger.waiting = ticket :: rest) (hselection : ticket.selection.isSome = true)
    {property : Atom} (htold : ticket.told = [(ticket.event, property)]) :
    Sound { ledger with waiting := rest, served := ledger.served ++ [ticket] } vocabulary
      polled := by
  refine h.rearrange rfl rfl ?_ ?_ ?_ h.refused
  · apply List.Perm.map _
    simp only [tickets, hwaiting, List.append_assoc, List.singleton_append]
    exact (List.perm_middle.symm.append_left _).append_left _
  · simp [hwaiting]
  · intro other hother
    rcases List.mem_append.mp hother with hold | hnew
    · exact h.served other hold
    · obtain rfl := List.mem_singleton.mp hnew
      exact ⟨hselection, property, htold⟩

theorem extend (h : ledger.Sound vocabulary polled) {next : Ledger} (ticket : Ticket)
    (hnumber : ticket.number = ledger.arrived)
    (hnamed : ticket.selection = vocabulary.selection? ticket.event.selection)
    (harrived : next.arrived = ledger.arrived + 1) (hstrays : next.strays = ledger.strays)
    (htickets : next.tickets.Perm (ledger.tickets ++ [ticket]))
    (hinOrder : ((next.served ++ next.waiting).map (·.number)).Sublist
      ((ledger.served ++ ledger.waiting).map (·.number) ++ [ledger.arrived]))
    (hserved : ∀ ticket ∈ next.served, ticket.Served)
    (hrefused : ∀ ticket ∈ next.refused, ticket.Refused) :
    next.Sound vocabulary (polled ++ [ticket.event]) := by
  refine ⟨?_, ?_, ?_, hstrays.trans h.attributed, ?_, hserved, hrefused⟩
  · have hentry : ticket.entry = (ticket.event, polled.length) := by
      rw [Ticket.entry, hnumber, h.arrived]
    have hentries := htickets.map Ticket.entry
    rw [List.map_append, List.map_singleton, hentry] at hentries
    rw [List.zipIdx_append, List.zipIdx_singleton, Nat.zero_add]
    exact hentries.trans (h.complete.append_right _)
  · rw [harrived, h.arrived, List.length_append, List.length_singleton]
  · intro other hother
    rcases List.mem_append.mp (htickets.mem_iff.mp hother) with hold | hnew
    · exact h.named other hold
    · obtain rfl := List.mem_singleton.mp hnew
      exact hnamed
  · refine List.Pairwise.sublist hinOrder (List.pairwise_append.mpr
      ⟨h.inOrder, List.pairwise_singleton _ _, ?_⟩)
    intro earlier hearlier later hlater
    obtain rfl := List.mem_singleton.mp hlater
    obtain ⟨other, hother, rfl⟩ := List.mem_map.mp hearlier
    apply h.number_lt
    rcases List.mem_append.mp hother with hserved | hwaiting
    · simp [tickets, hserved]
    · simp [tickets, hwaiting]

theorem queue (h : ledger.Sound vocabulary polled) {event : SelectionRequest}
    {selection : Selection} (hnamed : vocabulary.selection? event.selection = some selection) :
    (ledger.accept event (some selection)).Sound vocabulary (polled ++ [event]) := by
  refine h.extend ⟨ledger.arrived, event, some selection, [], [], false⟩ rfl
    hnamed.symm rfl rfl ?_ ?_ h.served h.refused
  · simp [tickets, Ledger.accept]
  · simp [Ledger.accept]

theorem turnAway (h : ledger.Sound vocabulary polled) {event : SelectionRequest}
    (hrefusing : ledger.refusing = [])
    (hnamed : vocabulary.selection? event.selection = none) :
    ((ledger.accept event none).answer event Atom.null).Sound vocabulary (polled ++ [event]) := by
  rw [answer_accept hrefusing]
  refine h.extend ⟨ledger.arrived, event, none, [(event, Atom.null)], [], false⟩ rfl
    hnamed.symm rfl rfl ?_ ?_ h.served ?_
  · have hlast := (List.perm_append_singleton
      (⟨ledger.arrived, event, none, [(event, Atom.null)], [], false⟩ : Ticket)
      (ledger.served ++ ledger.refusing ++ ledger.waiting)).symm.append_left ledger.refused
    simpa only [tickets, List.append_assoc, List.cons_append, List.nil_append] using hlast
  · exact List.sublist_append_left _ _
  · intro ticket hticket
    rcases List.mem_append.mp hticket with hold | hnew
    · exact h.refused ticket hold
    · obtain rfl := List.mem_singleton.mp hnew
      exact ⟨nofun, rfl⟩

theorem evict (h : ledger.Sound vocabulary polled) {selection : Selection} {sending : Bool}
    (htold : ∀ ticket ∈ marked sending ledger.waiting, ticket.told =
      if ticket.cut then [(ticket.event, ticket.event.replyProperty)] else []) :
    (ledger.evict selection sending).Sound vocabulary polled := by
  refine h.rearrange rfl rfl ?_ ?_ h.served ?_
  · have hsplit := (filter_selection_perm selection ledger.waiting).map Ticket.blank
    have hdropped := map_marked (fun _ _ => rfl : ∀ (ticket : Ticket) (cut : Bool),
      Ticket.blank { ticket with cut } = ticket.blank) selection sending ledger.waiting
    have htell : (fun ticket : Ticket => (ticket.tell ticket.event Atom.null).blank) =
      Ticket.blank := rfl
    rw [List.map_append, ← hdropped] at hsplit
    simp only [tickets, Ledger.evict, List.map_append, List.map_map, Function.comp_def, htell]
    simp only [List.append_assoc]
    apply List.Perm.append_left _
    rw [← List.append_assoc (ledger.served.map _), ← List.append_assoc (ledger.served.map _)]
    exact (List.perm_append_comm_assoc _ _ _).trans (hsplit.append_left _)
  · exact (List.filter_sublist.append_left _).map _
  · intro ticket hticket
    rcases List.mem_append.mp hticket with hold | hnew
    · exact h.refused ticket hold
    · obtain ⟨other, hother, rfl⟩ := List.mem_map.mp hnew
      obtain ⟨hmarked, hselection⟩ := List.mem_filter.mp hother
      have hbefore := htold other hmarked
      refine ⟨fun _ => ?_, ?_⟩
      · rw [Ticket.tell, of_decide_eq_true hselection]
        rfl
      · simp only [Ticket.tell, hbefore]

end Sound

end Ledger

end ClipboardRelay
