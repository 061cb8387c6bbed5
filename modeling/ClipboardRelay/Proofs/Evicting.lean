import ClipboardRelay.Proofs.Ledger
import ClipboardRelay.Proofs.Operating
import Mathlib.Data.List.Induction
/-!
Why requests and fetches are dropped. Main statements: in every run, whatever the display answers,
what was asked of a selection is dropped only when the selection changes hands, so a request that
had a place in the queue is refused for no other reason, and cut off only in the middle of its
transfer.
-/

namespace ClipboardRelay

def Deed.dropped? : Deed → Option Selection
  | .noted (.about selection (.requestsDropped _))
  | .noted (.about selection (.fetchesDropped _)) => some selection
  | _ => none

namespace Moment

variable {moment : Moment} {selection : Selection}

def evicts (selection : Selection) (moment : Moment) : Bool :=
  match moment.deed with
  | .noted (.about evicted (.requestsDropped _)) => evicted = selection
  | _ => false

def drops (selection : Selection) (moment : Moment) : Bool :=
  match moment.deed with
  | .noted (.about dropped (.fetchesDropped _)) => dropped = selection
  | _ => false

theorem dropped?_of_evicts (h : moment.evicts selection = true) :
    moment.deed.dropped? = some selection := by
  unfold evicts at h
  split at h
  case h_1 hdeed => rw [hdeed, Deed.dropped?, of_decide_eq_true h]
  case h_2 => cases h

theorem dropped?_of_drops (h : moment.drops selection = true) :
    moment.deed.dropped? = some selection := by
  unfold drops at h
  split at h
  case h_1 hdeed => rw [hdeed, Deed.dropped?, of_decide_eq_true h]
  case h_2 => cases h

theorem dropped?_of_plain (h : moment.isPlain = true) : moment.deed.dropped? = none := by
  unfold Deed.dropped?
  split
  case h_3 => rfl
  all_goals
    rename_i hdeed
    simp [isPlain, hdeed] at h

/-- Whether a selection changes hands when something that was asked of it is dropped. -/
def Occasioned (before : History) (moment : Moment) : Prop :=
  ∀ selection, moment.deed.dropped? = some selection → moment.relay.Reassigns selection before

theorem occasioned_of_none (h : moment.deed.dropped? = none) (before : History) :
    moment.Occasioned before := by
  intro selection hdropped
  rw [h] at hdropped
  cases hdropped

end Moment

namespace History.Always

variable {history : History} {relay : Relay} {deeds : List Deed}

theorem quietly (h : history.Always Moment.Occasioned)
    (hdeeds : ∀ deed ∈ deeds, deed.dropped? = none) :
    History.Always Moment.Occasioned (history ++ deeds.map (Moment.mk relay)) := by
  refine h.append fun moment hmoment => Moment.occasioned_of_none ?_
  obtain ⟨deed, hdeed, rfl⟩ := List.mem_map.mp hmoment
  exact hdeeds deed hdeed

theorem dropped (h : history.Always Moment.Occasioned) {selection : Selection} {deed : Deed}
    (hdeed : deed.dropped? = some selection) (change : relay.Reassigns selection history)
    (hdeeds : ∀ deed ∈ deeds, deed.dropped? = none) :
    History.Always Moment.Occasioned (history ++ (deed :: deeds).map (Moment.mk relay)) := by
  have hfirst : Moment.Occasioned history ⟨relay, deed⟩ := by
    intro other hother
    rw [hdeed] at hother
    obtain rfl := Option.some.inj hother
    exact change
  rw [List.map_cons, List.append_cons]
  exact (h.concat hfirst).quietly hdeeds

end History.Always

theorem Step.occasioned {stage next : Stage} (step : Step stage next)
    (h : stage.history.Always Moment.Occasioned) : next.history.Always Moment.Occasioned := by
  cases step with
  | plain deed hplain =>
    exact h.concat (Moment.occasioned_of_none (Moment.dropped?_of_plain hplain) _)
  | dropRequests selection found served change =>
    dsimp only
    split
    all_goals
      refine h.dropped (by rfl) (change.of_slots rfl) ?_
      simp [Deed.dropped?]
  | dropFetches selection active rest front found started change =>
    dsimp only
    split
    all_goals
      refine h.dropped (by rfl) (change.of_slots rfl) ?_
      simp [Deed.dropped?]
  | claim selection property words notices idle current free content known plain =>
    refine h.quietly ?_
    have hplain : ∀ notice ∈ notices, Deed.dropped? (.noted notice) = none := fun notice hnotice =>
      Moment.dropped?_of_plain (plain notice hnotice)
    simpa [or_imp, forall_and, Deed.dropped?] using hplain
  | decline operation selection type remark asks declined plain =>
    have hplain := Moment.dropped?_of_plain plain
    refine h.quietly ?_
    simpa [Deed.dropped?] using hplain
  | finishFetch data fetch =>
    refine h.quietly ?_
    by_cases hunknown : (stage.relay.registry.typeFor fetch.target).isNone = true <;>
      simp [hunknown, Deed.dropped?]
  | rest | skipStart | forget | read | countOff | install => exact h
  | _ => exact h.quietly (by simp [Deed.dropped?])

theorem Break.occasioned {stage next : Stage} (broke : Break stage next)
    (h : stage.history.Always Moment.Occasioned) : next.history.Always Moment.Occasioned := by
  cases broke with
  | dropRequests selection told untold request fault found change =>
    refine h.dropped (by rfl) (change.of_slots rfl) ?_
    simp [or_imp, forall_and, Deed.dropped?]
  | chunk writer notice fault busy plain =>
    have hplain := Moment.dropped?_of_plain plain
    refine h.quietly ?_
    simpa [Deed.dropped?] using hplain
  | _ => exact h.quietly (by simp [Deed.dropped?])

/-- In every run, what was asked of a selection is dropped only when the selection changes hands. -/
theorem Course.always_occasioned {δ : Type} [Display δ] {display : δ} {course : Course δ}
    (hstart : start display = some course) (moves : List (Move δ)) :
    (course.after moves).history.Always Moment.Occasioned :=
  holds_after (fun stage => stage.history.Always Moment.Occasioned) (fun _ => .nil)
    (fun _ _ step => step.occasioned) (fun _ _ broke => broke.occasioned) hstart moves

/-- Whether a request was taken out of the queue because its selection changed hands. Its ticket was
marked then if the request was in the middle of its transfer. -/
def History.Evicted (history : History) (ticket : Ticket) : Prop :=
  ∃ (before : History) (moment : Moment) (since : History) (selection : Selection)
      (told : List (SelectionRequest × Atom)),
    history = before ++ moment :: since ∧ ticket.selection = some selection ∧
      moment.evicts selection = true ∧ moment.relay.Reassigns selection before ∧
      { ticket with told } ∈ Ledger.marked moment.relay.writer.isSome
        (before.ledger.file moment.relay.writer.isSome).waiting

namespace Ledger

variable {ledger : Ledger} {moment : Moment} {ticket : Ticket}

def rejected (ledger : Ledger) : List Ticket :=
  ledger.refusing ++ ledger.refused

@[simp] theorem rejected_file (ledger : Ledger) (sending : Bool) :
    (ledger.file sending).rejected = ledger.rejected := by
  unfold file
  split
  · rfl
  · split <;> rfl

@[simp] theorem rejected_onFront (ledger : Ledger) (enter : Ticket → Ticket) :
    (ledger.onFront enter).rejected = ledger.rejected := by
  unfold onFront
  split <;> rfl

theorem rejected_answer {event : SelectionRequest} {property : Atom}
    (h : ticket ∈ (ledger.answer event property).rejected) :
    ∃ told, { ticket with told } ∈ ledger.rejected := by
  unfold answer at h
  split at h
  case h_1 => exact ⟨ticket.told, by simpa using h⟩
  case h_2 first rest hrefusing =>
    simp only [rejected, List.mem_append, List.mem_singleton] at h
    simp only [rejected, hrefusing, List.mem_append, List.mem_cons]
    rcases h with hrest | hrefused | rfl
    · exact ⟨ticket.told, .inl (.inr hrest)⟩
    · exact ⟨ticket.told, .inr hrefused⟩
    · exact ⟨first.told, .inl (.inl rfl)⟩

theorem rejected_record (h : ticket ∈ (ledger.record moment).rejected)
    (hplaced : ticket.selection.isSome = true) :
    (∃ told, { ticket with told } ∈ ledger.rejected) ∨
      ∃ selection, ticket.selection = some selection ∧ moment.evicts selection = true ∧
        ticket ∈ marked moment.relay.writer.isSome
          (ledger.file moment.relay.writer.isSome).waiting := by
  have kept (hold : ticket ∈ (ledger.file moment.relay.writer.isSome).rejected) :
      ∃ told, { ticket with told } ∈ ledger.rejected :=
    ⟨ticket.told, rejected_file ledger _ ▸ hold⟩
  unfold record enter at h
  split at h
  case h_1 event _ =>
    unfold accept at h
    split at h
    case isTrue => exact .inl (kept h)
    case isFalse foreign =>
      simp only [rejected, List.mem_append, List.mem_singleton] at h
      rcases h with (hrefusing | rfl) | hrefused
      · exact .inl (kept (List.mem_append_left _ hrefusing))
      · exact absurd hplaced foreign
      · exact .inl (kept (List.mem_append_right _ hrefused))
  case h_2 =>
    obtain ⟨told, hold⟩ := rejected_answer h
    exact .inl ⟨told, rejected_file ledger _ ▸ hold⟩
  case h_3 => exact .inl (kept (rejected_onFront _ _ ▸ h))
  case h_4 selection count hdeed =>
    simp only [rejected, drop, List.mem_append, List.mem_filter] at h
    rcases h with (hrefusing | ⟨hmarked, hselection⟩) | hrefused
    · exact .inl (kept (List.mem_append_left _ hrefusing))
    · refine .inr ⟨selection, of_decide_eq_true hselection, ?_, hmarked⟩
      simp [Moment.evicts, hdeed]
    · exact .inl (kept (List.mem_append_right _ hrefused))
  case h_5 => exact .inl (kept h)

/-- Whether only requests that were taken out of the queue are marked as cut off. -/
def Uncut (ledger : Ledger) : Prop :=
  ∀ ticket ∈ ledger.served ++ ledger.waiting, ticket.cut = false

namespace Uncut

theorem file (h : ledger.Uncut) (sending : Bool) : (ledger.file sending).Uncut := by
  unfold Ledger.file
  split
  case h_1 => exact h
  case h_2 first rest hwaiting =>
    split
    · simpa [Uncut, hwaiting] using h
    · exact h

theorem onFront (h : ledger.Uncut) {enter : Ticket → Ticket}
    (henter : ∀ ticket, (enter ticket).cut = ticket.cut) : (ledger.onFront enter).Uncut := by
  unfold Ledger.onFront
  split
  case h_1 => exact h
  case h_2 first rest hwaiting =>
    simp only [Uncut, hwaiting, List.mem_append, List.mem_cons, or_imp, forall_and, forall_eq,
      henter] at h ⊢
    exact h

theorem record (h : ledger.Uncut) (moment : Moment) : (ledger.record moment).Uncut := by
  have filed := h.file moment.relay.writer.isSome
  unfold Ledger.record enter
  split
  case h_1 =>
    unfold accept
    split
    · simpa [Uncut, or_imp, forall_and] using filed
    · exact filed
  case h_2 =>
    unfold answer
    split
    · exact filed.onFront fun _ => rfl
    · exact filed
  case h_3 => exact filed.onFront fun _ => rfl
  case h_4 =>
    refine fun ticket hticket => filed ticket ?_
    exact (List.filter_sublist.append_left _).subset hticket
  case h_5 => exact filed

end Uncut

end Ledger

namespace History

variable {history : History}

theorem ledger_concat (history : History) (moment : Moment) :
    (history ++ [moment]).ledger = history.ledger.record moment := by
  rw [ledger, List.foldl_append]
  rfl

theorem uncut_ledger (history : History) : history.ledger.Uncut := by
  induction history using List.reverseRecOn with
  | nil => simp [Ledger.Uncut, ledger]
  | append_singleton history moment ih =>
    rw [ledger_concat]
    exact ih.record moment

/-- What is refused after a place in the queue was taken out of it when its selection changed
hands. -/
theorem evicted_of_rejected (h : history.Always Moment.Occasioned) {ticket : Ticket}
    (hticket : ticket ∈ history.ledger.rejected) (hplaced : ticket.selection.isSome = true) :
    history.Evicted ticket := by
  induction history using List.reverseRecOn generalizing ticket with
  | nil => simp [ledger, Ledger.rejected] at hticket
  | append_singleton history moment ih =>
    have hbefore : History.Always Moment.Occasioned history := fun before other rest hsplit =>
      h before other (rest ++ [moment]) (by rw [hsplit]; simp)
    rw [ledger_concat] at hticket
    rcases Ledger.rejected_record hticket hplaced with
      ⟨told, hold⟩ | ⟨selection, hselection, hevicts, hmarked⟩
    · obtain ⟨before, drop, since, selection, told, rfl, hselection, hevicts, change, hmarked⟩ :=
        ih hbefore hold hplaced
      exact ⟨before, drop, since ++ [moment], selection, told, by simp, hselection, hevicts,
        change, hmarked⟩
    · have change : moment.relay.Reassigns selection history :=
        h history moment [] rfl selection (Moment.dropped?_of_evicts hevicts)
      exact ⟨history, moment, [], selection, ticket.told, rfl, hselection, hevicts, change, hmarked⟩

end History

end ClipboardRelay
