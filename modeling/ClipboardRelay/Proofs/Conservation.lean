import ClipboardRelay.Proofs.Ledger
/-!
The ledger leaves nothing out. Main statement: unless something went astray, every answer to an
application and every question to the agent in a history is on one ticket of its ledger.
-/

namespace ClipboardRelay

inductive Line where
  | answer (event : SelectionRequest) (property : Atom)
  | question (selection : Selection) (type : ContentType)

namespace Ticket

def lines (ticket : Ticket) : List Line :=
  ticket.told.map (fun (event, property) => .answer event property) ++
    ticket.asked.map fun (selection, type) => .question selection type

theorem lines_tell (event : SelectionRequest) (property : Atom) (ticket : Ticket) :
    (ticket.tell event property).lines.Perm (ticket.lines ++ [.answer event property]) := by
  simp only [lines, tell, List.map_append, List.map_cons, List.map_nil, List.append_assoc]
  exact List.perm_append_comm.append_left _

theorem lines_ask (selection : Selection) (type : ContentType) (ticket : Ticket) :
    (ticket.ask selection type).lines.Perm (ticket.lines ++ [.question selection type]) := by
  simp [lines, ask]

end Ticket

def Moment.line? (moment : Moment) : Option Line :=
  match moment.deed with
  | .called (.notifyRequestor event property) _ => some (.answer event property)
  | .sent (.ask selection type) => some (.question selection type)
  | _ => none

def History.lines (history : History) : List Line :=
  history.filterMap Moment.line?

namespace Ledger

def lines (ledger : Ledger) : List Line :=
  ledger.tickets.flatMap Ticket.lines

/-- What is on the tickets that was not on them before. If something went astray, nothing is said
about them. -/
structure Gains (ledger next : Ledger) (added : List Line) : Prop where
  strays : ledger.strays ≤ next.strays
  lines : next.strays = ledger.strays → next.lines.Perm (ledger.lines ++ added)

namespace Gains

variable {ledger next last : Ledger} {added more : List Line}

theorem trans (first : ledger.Gains next added) (second : next.Gains last more) :
    ledger.Gains last (added ++ more) := by
  refine ⟨Nat.le_trans first.strays second.strays, fun same => ?_⟩
  have hnext : next.strays = ledger.strays :=
    Nat.le_antisymm (same ▸ second.strays) first.strays
  have hlines := (first.lines hnext).append_right more
  rw [List.append_assoc] at hlines
  exact (second.lines (same.trans hnext.symm)).trans hlines

theorem of_perm (hstrays : next.strays = ledger.strays)
    (h : (next.tickets.map Ticket.lines).Perm (ledger.tickets.map Ticket.lines)) :
    ledger.Gains next [] := by
  refine ⟨Nat.le_of_eq hstrays.symm, fun _ => ?_⟩
  rw [List.append_nil, Ledger.lines, Ledger.lines, List.flatMap_def, List.flatMap_def]
  exact h.flatten

theorem of_ticket {ticket after : Ticket} {others : List Ticket}
    (hstrays : next.strays = ledger.strays) (hledger : ledger.tickets.Perm (ticket :: others))
    (hnext : next.tickets.Perm (after :: others))
    (h : after.lines.Perm (ticket.lines ++ added)) : ledger.Gains next added := by
  refine ⟨Nat.le_of_eq hstrays.symm, fun _ => ?_⟩
  have hbefore := (hledger.flatMap_right Ticket.lines).append_right added
  have hafter := hnext.flatMap_right Ticket.lines
  rw [List.flatMap_cons] at hbefore hafter
  refine hafter.trans (((h.append_right _).trans ?_).trans hbefore.symm)
  rw [List.append_assoc, List.append_assoc]
  exact List.perm_append_comm.append_left _

end Gains

theorem onFront_gains (ledger : Ledger) {enter : Ticket → Ticket} {line : Line}
    (h : ∀ ticket, (enter ticket).lines.Perm (ticket.lines ++ [line])) :
    ledger.Gains (ledger.onFront enter) [line] := by
  unfold onFront
  split
  case h_1 => exact ⟨Nat.le_succ _, fun same => absurd same (Nat.succ_ne_self _)⟩
  case h_2 ticket rest hwaiting =>
    refine .of_ticket rfl ?_ List.perm_middle (h ticket)
    rw [tickets, hwaiting]
    exact List.perm_middle

theorem answer_gains (ledger : Ledger) (event : SelectionRequest) (property : Atom) :
    ledger.Gains (ledger.answer event property) [.answer event property] := by
  unfold answer
  split
  case h_1 => exact ledger.onFront_gains (Ticket.lines_tell event property)
  case h_2 ticket rest hrefusing =>
    have hbefore : ledger.tickets.Perm
        (ticket :: (ledger.refused ++ ledger.served ++ (rest ++ ledger.waiting))) := by
      rw [tickets, hrefusing, List.append_assoc _ (ticket :: rest)]
      exact List.perm_middle
    refine .of_ticket rfl hbefore ?_ (Ticket.lines_tell event property ticket)
    simp only [tickets, List.append_assoc, List.cons_append, List.nil_append]
    exact List.perm_middle

theorem accept_gains (ledger : Ledger) (event : SelectionRequest) (selection : Option Selection) :
    ledger.Gains (ledger.accept event selection) [] := by
  unfold accept
  split <;> exact ⟨Nat.le_refl _, fun _ => by simp [lines, tickets, Ticket.lines]⟩

theorem drop_gains (ledger : Ledger) (selection : Selection) (sending : Bool) :
    ledger.Gains (ledger.drop selection sending) [] := by
  have hdropped := map_marked (fun _ _ => rfl : ∀ (ticket : Ticket) (cut : Bool),
    Ticket.lines { ticket with cut } = ticket.lines) selection sending ledger.waiting
  have hsplit := (filter_selection_perm selection ledger.waiting).map Ticket.lines
  refine .of_perm rfl ?_
  rw [List.map_append, ← hdropped] at hsplit
  simp only [tickets, drop, List.map_append, List.append_assoc]
  exact ((hsplit.append_left _).append_left _).append_left _

theorem file_gains (ledger : Ledger) (sending : Bool) : ledger.Gains (ledger.file sending) [] := by
  have htickets : (ledger.file sending).tickets.Perm ledger.tickets := by
    unfold file
    split
    case h_1 => exact .refl _
    case h_2 ticket rest hwaiting =>
      split
      case isFalse => exact .refl _
      case isTrue =>
        simp only [tickets, hwaiting, List.append_assoc, List.singleton_append]
        exact (List.perm_middle.symm.append_left _).append_left _
  refine .of_perm ?_ (htickets.map _)
  unfold file
  split
  case h_1 => rfl
  case h_2 => split <;> rfl

theorem enter_gains (ledger : Ledger) (moment : Moment) :
    ledger.Gains (ledger.enter moment) moment.line?.toList := by
  unfold enter
  split
  case h_1 event _ hdeed =>
    rw [Moment.line?, hdeed]
    exact accept_gains _ _ _
  case h_2 event property _ hdeed =>
    rw [Moment.line?, hdeed]
    exact answer_gains _ _ _
  case h_3 selection type hdeed =>
    rw [Moment.line?, hdeed]
    exact onFront_gains _ (Ticket.lines_ask selection type)
  case h_4 selection count hdeed =>
    rw [Moment.line?, hdeed]
    exact drop_gains _ _ _
  case h_5 _ answers asks _ =>
    have hline : moment.line? = none := by
      unfold Moment.line?
      split
      case h_1 event property _ hdeed => exact absurd hdeed (answers event property _)
      case h_2 selection type hdeed => exact absurd hdeed (asks selection type)
      case h_3 => rfl
    rw [hline]
    exact .of_perm rfl (.refl _)

theorem foldl_record_gains (history : History) (ledger : Ledger) :
    ledger.Gains (history.foldl record ledger) history.lines := by
  induction history generalizing ledger with
  | nil => exact .of_perm rfl (.refl _)
  | cons moment history ih =>
    have hlines : History.lines (moment :: history) =
        moment.line?.toList ++ History.lines history := by
      rw [History.lines, List.filterMap_cons]
      cases moment.line? <;> rfl
    have hrecord := (ledger.file_gains moment.relay.writer.isSome).trans
      (enter_gains _ moment)
    rw [hlines, List.foldl_cons]
    exact hrecord.trans (ih _)

end Ledger

/-- Unless something went astray, the tickets say all that was answered and asked. -/
theorem History.lines_ledger (history : History) (sending : Bool)
    (attributed : (history.ledger.file sending).strays = 0) :
    (history.ledger.file sending).lines.Perm history.lines := by
  have hgains := (Ledger.foldl_record_gains history {}).trans
    (history.ledger.file_gains sending)
  rw [List.append_nil] at hgains
  exact hgains.lines attributed

end ClipboardRelay
