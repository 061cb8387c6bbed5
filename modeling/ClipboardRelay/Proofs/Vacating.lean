import ClipboardRelay.Proofs.OwnerReports
import ClipboardRelay.Proofs.Releasing
import ClipboardRelay.Proofs.Replying
/-!
Leaving selections to nobody. Vacating the first one may bring requests and fetches of the second
one to the heads of their queues, and vacating the second one turns them away too. Main statements:
when both are vacated nothing is left, and all that was asked is answered exactly once.
-/

namespace ClipboardRelay

def Call.told? : Call → Option SelectionRequest
  | notifyRequestor event _ => some event
  | _ => none

def Call.isHandover : Call → Bool
  | setSelectionOwner .. => true
  | _ => false

def Wire.Message.informs (selection : Selection) : Wire.Message → Bool
  | grab other _ | data other _ _ | release other => other = selection
  | resolution .. | ask .. => false

namespace History

def told (history : History) : List SelectionRequest :=
  history.calls.filterMap Call.told?

def handovers (history : History) : List Call :=
  history.calls.filter Call.isHandover

def informed (selection : Selection) (history : History) : List Wire.Message :=
  history.messages.filter (·.informs selection)

variable {history added : History}

@[simp] theorem told_append (first second : History) :
    (first ++ second).told = first.told ++ second.told := by
  rw [told, calls_append, List.filterMap_append]
  rfl

@[simp] theorem handovers_append (first second : History) :
    (first ++ second).handovers = first.handovers ++ second.handovers := by
  rw [handovers, calls_append, List.filter_append]
  rfl

@[simp] theorem informed_append (selection : Selection) (first second : History) :
    (first ++ second).informed selection =
      first.informed selection ++ second.informed selection := by
  rw [informed, messages_append, List.filter_append]
  rfl

theorem mem_messages {message : Wire.Message} (h : message ∈ history.messages) :
    ∃ relay, ⟨relay, .sent message⟩ ∈ history := by
  obtain ⟨⟨relay, deed⟩, hmoment, hsent⟩ := List.mem_filterMap.mp h
  cases deed with
  | sent other =>
    cases hsent
    exact ⟨relay, hmoment⟩
  | began | called | failed | noted => cases hsent

theorem handovers_of_serving (h : ∀ moment ∈ added, moment.deed.isServing = true) :
    added.handovers = [] := by
  refine List.filter_eq_nil_iff.mpr fun asked hasked hgiven => ?_
  obtain ⟨relay, ⟨answer, hmoment⟩ | ⟨fault, hmoment⟩⟩ := mem_calls hasked
  all_goals
    have hserving := h _ hmoment
    cases asked <;> cases hgiven
    cases hserving

theorem informed_of_serving (h : ∀ moment ∈ added, moment.deed.isServing = true)
    (selection : Selection) : added.informed selection = [] := by
  refine List.filter_eq_nil_iff.mpr fun message hmessage hinforms => ?_
  obtain ⟨relay, hmoment⟩ := mem_messages hmessage
  have hserving := h _ hmoment
  cases message with
  | ask | resolution => cases hinforms
  | grab | data | release => cases hserving

theorem unasked_of_advancing (h : ∀ moment ∈ added, moment.deed.isAdvancing = true) :
    added.handovers = [] ∧ added.told = [] := by
  have hconverts {asked : Call} (hasked : asked ∈ added.calls) :
      ∃ selection target property, asked = .convertSelection selection target property := by
    obtain ⟨relay, ⟨answer, hmoment⟩ | ⟨fault, hmoment⟩⟩ := mem_calls hasked
    · have hadvancing := h _ hmoment
      cases asked with
      | convertSelection selection target property => exact ⟨selection, target, property, rfl⟩
      | _ => cases hadvancing
    · cases h _ hmoment
  refine ⟨List.filter_eq_nil_iff.mpr fun asked hasked hgiven => ?_,
    List.filterMap_eq_nil_iff.mpr fun asked hasked => ?_⟩
  · obtain ⟨_, _, _, rfl⟩ := hconverts hasked
    cases hgiven
  · obtain ⟨_, _, _, rfl⟩ := hconverts hasked
    rfl

end History

namespace Relay

open ClipboardRelay.Action (Yields)

variable {δ : Type} {relay : Relay} {history : History} {selection : Selection}

theorem sendTargets_told (selection : Selection) (event : SelectionRequest) :
    (sendTargets selection event : Action δ Unit).Yields (fun _ after later => after = relay ∧
      later.told = history.told ++ [event]) relay history := by
  refine .current_bind (ensures_call_bind (fun _ => ?_) fun _ => trivial)
  rw [Action.ensures_bind, remarkTargets, ensures_noteAll]
  refine ⟨fun _ => ⟨rfl, ?_⟩, fun _ => trivial⟩
  have hnoted (notices : List Notice) :
      History.told (notices.map fun notice => ⟨relay, .noted notice⟩) = [] := by
    simp [History.told, History.calls]
  rw [History.told_append, History.told_append, History.told_append, hnoted, List.append_nil]
  exact congrArg (· ++ _) (List.append_nil _)

theorem serve_told (request : DesktopRequest) :
    (serve request : Action δ Progress).Yields (fun progress after later => after = relay ∧
      later.told = history.told ++
        match progress with
        | .answered => [request.event]
        | .waiting => []) relay history := by
  have refused (what : Remark) : (do
      remark request.selection what
      refuse request.event
      return .answered : Action δ Progress).Yields (fun progress after later => after = relay ∧
      later.told = history.told ++
        match progress with
        | .answered => [request.event]
        | .waiting => []) relay history := by
    rw [Yields, Action.ensures_bind, ensures_remark]
    refine ensures_call_bind (fun _ => ⟨rfl, ?_⟩) fun _ => trivial
    rw [History.told_append, History.told_append]
    exact congrArg (· ++ _) (List.append_nil _)
  refine .current_bind ?_
  dsimp only
  split
  · exact refused _
  split
  · exact refused _
  split
  · refine Yields.bind (sendTargets_told request.selection request.event) ?_
    rintro _ after later ⟨rfl, htold⟩
    exact ⟨rfl, htold⟩
  split
  · exact refused _
  · rw [Yields, Action.ensures_bind, ensures_send]
    refine ⟨rfl, ?_⟩
    rw [History.told_append]
    rfl

theorem serveFrom_told (queue : List DesktopRequest) (front : relay.requests = queue) :
    (serveFrom queue : Action δ Unit).Yields (fun _ after later =>
      after = relay.withRequests after.requests ∧ ∃ served, queue = served ++ after.requests ∧
        later.told = history.told ++ served.map (·.event)) relay history := by
  induction queue generalizing relay history with
  | nil => exact ⟨rfl, [], front.symm, (List.append_nil _).symm⟩
  | cons request rest ih =>
    refine Yields.bind (serve_told request) fun progress after later => ?_
    rintro ⟨rfl, htold⟩
    cases progress with
    | waiting => exact ⟨rfl, [], front.symm, htold⟩
    | answered =>
      refine .update_bind ((ih rfl).mono fun _ last later => ?_)
      rintro ⟨hlast, served, hrest, hserved⟩
      refine ⟨hlast, request :: served, congrArg (request :: ·) hrest, ?_⟩
      rw [hserved, htold, List.append_assoc]
      rfl

structure Turned (relay : Relay) (selection : Selection) (history : History) (after : Relay)
    (later : History) : Prop where
  writer : after.writer = if relay.front? = some selection then none else relay.writer
  requests : ∃ served, relay.requests.filter (·.selection ≠ selection) = served ++ after.requests ∧
    (relay.front? ≠ some selection → served = []) ∧
    later.told = history.told ++ (relay.requestsOf selection ++ served).map (·.event)

theorem dropRequests_turned (selection : Selection) :
    (dropRequests selection : Action δ Unit).Yields (fun _ => Turned relay selection history)
      relay history := by
  have hof : relay.requests.filter (·.selection = selection) = relay.requestsOf selection := rfl
  refine .current_bind ?_
  dsimp only
  rw [hof]
  split
  case isTrue none =>
    have hnone : relay.requestsOf selection = [] := List.isEmpty_iff.mp none
    have hother : ∀ request ∈ relay.requests, request.selection ≠ selection := by
      simpa [requestsOf, List.filter_eq_nil_iff] using hnone
    have hfront : relay.front? ≠ some selection := by
      intro hsame
      obtain ⟨request, hrequest, hselection⟩ := Option.map_eq_some_iff.mp hsame
      exact hother request (List.mem_of_mem_head? hrequest) hselection
    have hstay : relay.requests.filter (·.selection ≠ selection) = relay.requests :=
      List.filter_eq_self.mpr (by simpa using hother)
    exact ⟨(if_neg hfront).symm, [], hstay, fun _ => rfl, by simp [hnone]⟩
  case isFalse found =>
    rw [Yields, Action.ensures_bind, ensures_update, Action.ensures_bind, ensures_remark,
      Action.ensures_bind]
    refine refuseAll_ensures (relay.requestsOf selection) ?_ fun _ _ _ _ _ => trivial
    have hrefused (told : Relay) (notice : Notice) :
        History.told (history ++ [⟨told, .noted notice⟩] ++
          (relay.requestsOf selection).map fun request =>
            ⟨told, .called (.notifyRequestor request.event Atom.null) ()⟩) =
        history.told ++ (relay.requestsOf selection).map (·.event) := by
      simp [History.told, History.calls, List.filterMap_map, Function.comp_def, Call.told?]
    split
    case isTrue active =>
      have hfront : relay.front? = some selection := active
      refine Yields.update_bind (.current_bind ((serveFrom_told _ rfl).mono ?_))
      rintro _ after later ⟨hafter, served, hserved, htold⟩
      refine ⟨?_, served, hserved, fun hother => absurd hfront hother, ?_⟩
      · rw [if_pos hfront, hafter]
        rfl
      · rw [htold, hrefused, List.map_append, List.append_assoc]
    case isFalse other =>
      have hfront : relay.front? ≠ some selection := other
      refine ⟨(if_neg hfront).symm, [], (List.nil_append _).symm, fun _ => rfl, ?_⟩
      rw [hrefused, List.append_nil]

theorem dropFetches_yields (selection : Selection) :
    (dropFetches selection : Action δ Unit).Yields (fun _ after later =>
      after.fetches = relay.fetches.filter (·.selection ≠ selection) ∧
      later.messages = history.messages ++
        List.replicate (relay.fetchesOf selection).length (.noData selection)) relay history := by
  have hsaid : (history ++ relay.dropping selection).messages = history.messages ++
      List.replicate (relay.fetchesOf selection).length (.noData selection) := by
    have hsame : ∀ fetch ∈ relay.fetchesOf selection,
        Wire.Message.noData fetch.selection = .noData selection := by
      intro fetch hfetch
      rw [show fetch.selection = selection by simpa using (List.mem_filter.mp hfetch).2]
    have hdropped : (relay.dropping selection).messages =
        (relay.fetchesOf selection).map fun fetch => .noData fetch.selection := by
      simp [dropping, History.messages, List.filterMap_map, Function.comp_def]
    rw [History.messages_append, hdropped, List.map_congr_left hsame, List.map_const']
  refine dropFetches_ensures_of selection (fun none => ?_) (fun active rest _ _ _ => ?_)
    fun active rest _ _ _ => ⟨rfl, hsaid⟩
  · refine ⟨(List.filter_eq_self.mpr ?_).symm, by simp [none]⟩
    simpa [fetchesOf, List.filter_eq_nil_iff] using none
  · refine (startFetch_yields .refl).mono ?_
    rintro _ _ _ ⟨hfetches, silently⟩
    exact ⟨hfetches, silently.messages.trans hsaid⟩

structure Emptied (relay : Relay) (selection : Selection) (history : History) (after : Relay)
    (later : History) : Prop extends Turned relay selection history after later where
  setting : after.setting = relay.setting
  slots : after.slots = relay.slots
  fetches : after.fetches = relay.fetches.filter (·.selection ≠ selection)
  handovers : later.handovers = history.handovers
  informed : ∀ other, later.informed other = history.informed other ++
    if other = selection then
      List.replicate (relay.fetchesOf selection).length (.noData selection)
    else []

theorem dropFetches_emptied {middle : Relay} {served : History}
    (turned : Turned relay selection history middle (history ++ served))
    (hspared : middle.besidesRequests = relay.besidesRequests)
    (hserving : ∀ moment ∈ served, moment.deed.isServing = true) :
    (dropFetches selection : Action δ Unit).Yields (fun _ => Emptied relay selection history)
      middle (history ++ served) := by
  have hdropped : (dropFetches selection : Action δ Unit).Yields (fun _ after later =>
      (after.fetches = middle.fetches.filter (·.selection ≠ selection) ∧
        later.messages = (history ++ served).messages ++
          List.replicate (middle.fetchesOf selection).length (.noData selection)) ∧
        Spared besidesFetches Deed.isAdvancing middle (history ++ served) after later)
      middle (history ++ served) :=
    (dropFetches_yields selection).and ((dropFetches_spares selection).yields_spared .refl)
  refine hdropped.mono ?_
  rintro _ last _ ⟨⟨hfetches, hmessages⟩, hspares⟩
  have hkept := hspares.kept
  obtain ⟨dropped, rfl, hadvancing⟩ := hspares.deeds
  have hqueue : middle.fetches = relay.fetches := (congrArg Relay.fetches hspared :)
  have hwriter : last.writer = middle.writer := (congrArg Relay.writer hkept :)
  have hrequests : last.requests = middle.requests := (congrArg Relay.requests hkept :)
  obtain ⟨hgiven, huntold⟩ := History.unasked_of_advancing hadvancing
  refine { writer := hwriter.trans turned.writer, requests := ?_, setting := ?_, slots := ?_,
           fetches := hqueue ▸ hfetches, handovers := ?_, informed := fun other => ?_ }
  · rw [hrequests, History.told_append, huntold, List.append_nil]
    exact turned.requests
  · exact Eq.trans (congrArg Relay.setting hkept :) (congrArg Relay.setting hspared :)
  · exact Eq.trans (congrArg Relay.slots hkept :) (congrArg Relay.slots hspared :)
  · rw [History.handovers_append, History.handovers_append, hgiven,
      History.handovers_of_serving hserving, List.append_nil, List.append_nil]
  · have hserved : (history ++ served).informed other = history.informed other := by
      rw [History.informed_append, History.informed_of_serving hserving, List.append_nil]
    have hsame : middle.fetchesOf selection = relay.fetchesOf selection :=
      congrArg (List.filter _) hqueue
    have hinforms : (Wire.Message.noData selection).informs other = decide (other = selection) :=
      decide_eq_decide.mpr eq_comm
    rw [History.informed, hmessages, List.filter_append, List.filter_replicate, hsame, hinforms]
    simp only [decide_eq_true_eq]
    exact congrArg (· ++ _) hserved

/-- What the agent is told when nobody holds a selection any more. -/
def farewell (relay : Relay) (selection : Selection) : List Wire.Message :=
  List.replicate (relay.fetchesOf selection).length (.noData selection) ++
    if relay.slots.owner selection = .desktop then [.release selection] else []

/-- What is known when nobody holds a selection any more. -/
structure Vacated (relay : Relay) (selection : Selection) (history : History) (after : Relay)
    (later : History) : Prop extends Turned relay selection history after later where
  setting : after.setting = relay.setting
  slots : after.slots = relay.slots.setHolder selection .nobody
  fetches : after.fetches = relay.fetches.filter (·.selection ≠ selection)
  informed : ∀ other, later.informed other = history.informed other ++
    if other = selection then relay.farewell selection else []

theorem Emptied.vacated {middle : Relay} {later added : History}
    (h : Emptied relay selection history middle later) (hcalls : added.calls = [])
    (hsaid : ∀ other, added.informed other =
      if other = selection ∧ relay.slots.owner selection = .desktop then [.release selection]
      else []) :
    Vacated relay selection history
        { middle with slots := middle.slots.setHolder selection .nobody } (later ++ added) ∧
      (later ++ added).handovers = history.handovers := by
  have hadded : added.told = [] ∧ added.handovers = [] := by
    simp [History.told, History.handovers, hcalls]
  refine ⟨{ h with requests := ?_, slots := ?_, informed := fun other => ?_ }, ?_⟩
  · rw [History.told_append, hadded.1, List.append_nil]
    exact h.requests
  · exact congrArg (Slots.setHolder · selection .nobody) h.slots
  · rw [History.informed_append, h.informed, hsaid, List.append_assoc, farewell]
    by_cases hsame : other = selection <;> simp [hsame]
  · rw [History.handovers_append, hadded.2, List.append_nil, h.handovers]

theorem changeHolder_vacated (selection : Selection) :
    (changeHolder selection .nobody : Action δ Unit).Yields (fun _ after later =>
      Vacated relay selection history after later ∧ later.handovers = history.handovers)
      relay history := by
  have hturned : (dropRequests selection : Action δ Unit).Yields (fun _ after later =>
      Turned relay selection history after later ∧
        Spared besidesRequests Deed.isServing relay history after later) relay history :=
    (dropRequests_turned selection).and ((dropRequests_spares selection).yields_spared .refl)
  refine hturned.bind fun _ middle between => ?_
  rintro ⟨turned, hspares⟩
  obtain ⟨served, rfl, hserving⟩ := hspares.deeds
  refine (dropFetches_emptied turned hspares.kept hserving).bind fun _ last later emptied => ?_
  refine .current_bind (.update_bind ?_)
  split
  case isTrue gone =>
    have hdesktop : relay.slots.owner selection = .desktop := emptied.slots ▸ gone.2
    refine emptied.vacated rfl fun other => ?_
    by_cases hsame : other = selection
    · subst hsame
      simp [hdesktop, History.informed, History.messages, Wire.Message.informs]
    · simp [hsame, Ne.symm hsame, History.informed, History.messages, Wire.Message.informs]
  case isFalse stays =>
    have hother : relay.slots.owner selection ≠ .desktop :=
      fun howner => stays ⟨rfl, emptied.slots ▸ howner⟩
    have hnothing := emptied.vacated (show History.calls [] = [] from rfl)
      fun other => (if_neg fun hboth => hother hboth.2).symm
    rwa [List.append_nil] at hnothing

def surrender (relay : Relay) (selection : Selection) : List Call :=
  if relay.slots.owner selection = .agent then
    (relay.vocabulary.atom? selection).toList.map (.setSelectionOwner · Window.null)
  else []

theorem vacate_vacated (selection : Selection) :
    (vacate selection : Action δ Unit).Yields (fun _ after later =>
      Vacated relay selection history after later ∧
        later.handovers = history.handovers ++ relay.surrender selection) relay history := by
  refine .current_bind ?_
  dsimp only
  split
  case h_1 atom owned bridged =>
    refine ensures_call_bind (fun _ => (changeHolder_vacated selection).mono ?_) fun _ => trivial
    rintro _ after later ⟨vacated, hgiven⟩
    have htold : History.told (history ++
        [⟨relay, .called (.setSelectionOwner atom Window.null) ()⟩]) = history.told := by
      simp [History.told, History.calls, Call.told?]
    have hinformed (other : Selection) : History.informed other (history ++
        [⟨relay, .called (.setSelectionOwner atom Window.null) ()⟩]) = history.informed other := by
      simp [History.informed, History.messages]
    refine ⟨{ vacated with requests := ?_, informed := ?_ }, ?_⟩
    · exact htold ▸ vacated.requests
    · exact fun other => hinformed other ▸ vacated.informed other
    · rw [hgiven, surrender, if_pos owned, bridged, History.handovers_append]
      rfl
  case h_2 unowned =>
    refine (changeHolder_vacated selection).mono ?_
    rintro _ after later ⟨vacated, hgiven⟩
    refine ⟨vacated, ?_⟩
    have hnothing : relay.surrender selection = [] := by
      rw [surrender]
      split
      case isTrue owned =>
        cases bridged : relay.vocabulary.atom? selection with
        | none => rfl
        | some atom => exact absurd bridged (unowned atom owned)
      case isFalse => rfl
    rw [hgiven, hnothing, List.append_nil]

/-- Whether nobody holds a selection, and nothing waits. -/
structure Vacant (relay : Relay) : Prop where
  holders : ∀ selection, relay.slots.holder selection = .nobody
  fetches : relay.fetches = []
  requests : relay.requests = []

namespace Vacated

variable {middle last : Relay} {between later : History}

theorem requests_primary (h : relay.WellFormed)
    (first : Vacated relay .clipboard [] middle between) :
    ∀ request ∈ middle.requests, request.selection = .primary := by
  obtain ⟨served, hserved, -⟩ := first.requests
  intro request hrequest
  have hwaiting : request ∈ relay.requests.filter (·.selection ≠ .clipboard) := by
    rw [hserved]
    exact List.mem_append_right _ hrequest
  obtain ⟨hqueued, hother⟩ := List.mem_filter.mp hwaiting
  have hbridged := h.requested request hqueued
  cases hselection : request.selection with
  | clipboard => simp [hselection] at hother
  | primary => rfl
  | secondary => exact absurd hselection hbridged

theorem vacant (h : relay.WellFormed) (first : Vacated relay .clipboard [] middle between)
    (second : Vacated middle .primary [] last later) : last.Vacant where
  holders selection := by
    rw [second.slots, first.slots, Slots.holder_setHolder, Slots.holder_setHolder]
    cases selection with
    | clipboard | primary => rfl
    | secondary =>
      rw [Slots.holder, Slots.get, h.secondary]
      rfl
  fetches := by
    rw [second.fetches, first.fetches, List.filter_filter, List.filter_eq_nil_iff]
    intro fetch hfetch
    have hbridged := h.bridged fetch (List.mem_append_left _ hfetch)
    cases hselection : fetch.selection with
    | clipboard | primary => simp
    | secondary => exact absurd hselection hbridged
  requests := by
    obtain ⟨served, hserved, -⟩ := second.requests
    have hnone : middle.requests.filter (·.selection ≠ .primary) = [] :=
      List.filter_eq_nil_iff.mpr (by simpa using first.requests_primary h)
    rw [hnone] at hserved
    exact (List.append_eq_nil_iff.mp hserved.symm).2

theorem told_perm (h : relay.WellFormed) (first : Vacated relay .clipboard [] middle between)
    (second : Vacated middle .primary [] last later) :
    (between.told ++ later.told).Perm (relay.requests.map (·.event)) := by
  obtain ⟨served, hserved, -, hbetween⟩ := first.requests
  obtain ⟨others, hothers, -, hlater⟩ := second.requests
  have hprimary := first.requests_primary h
  have hnone : middle.requests.filter (·.selection ≠ .primary) = [] :=
    List.filter_eq_nil_iff.mpr (by simpa using hprimary)
  have hall : middle.requestsOf .primary = middle.requests :=
    List.filter_eq_self.mpr (by simpa using hprimary)
  rw [hnone] at hothers
  obtain rfl : others = [] := (List.append_eq_nil_iff.mp hothers.symm).1
  have htold : between.told ++ later.told =
      (relay.requestsOf .clipboard ++
        relay.requests.filter (·.selection ≠ .clipboard)).map (·.event) := by
    rw [hbetween, hlater, hall, hserved, List.append_nil]
    simp [History.told, History.calls]
  have hsplit := List.filter_append_perm (·.selection = .clipboard) relay.requests
  simp only [← decide_not] at hsplit
  rw [htold]
  exact hsplit.map _

theorem writer_eq (h : relay.WellFormed) (first : Vacated relay .clipboard [] middle between)
    (second : Vacated middle .primary [] last later) :
    last.writer = if relay.requests = [] then relay.writer else none := by
  rw [second.writer, first.writer]
  obtain ⟨served, hserved, hbehind, -⟩ := first.requests
  cases hrequests : relay.requests with
  | nil =>
    rw [hrequests] at hserved
    have hnone : middle.requests = [] := (List.append_eq_nil_iff.mp hserved.symm).2
    simp [front?, hrequests, hnone]
  | cons request rest =>
    have hbridged := h.requested request (by rw [hrequests]; exact List.mem_cons_self)
    cases hselection : request.selection with
    | clipboard => simp [front?, hrequests, hselection]
    | primary =>
      have hfront : relay.front? ≠ some .clipboard := by simp [front?, hrequests, hselection]
      have hmiddle : middle.requests = request :: rest.filter (·.selection ≠ .clipboard) := by
        rw [hbehind hfront, hrequests, List.filter_cons_of_pos (by simp [hselection])] at hserved
        exact hserved.symm
      simp [front?, hmiddle, hselection]
    | secondary => exact absurd hselection hbridged

theorem informed_eq (h : relay.WellFormed) (first : Vacated relay .clipboard [] middle between)
    (second : Vacated middle .primary [] last later) (selection : Selection) :
    between.informed selection ++ later.informed selection = relay.farewell selection := by
  have hprimary : middle.farewell .primary = relay.farewell .primary := by
    have howner : middle.slots.owner .primary = relay.slots.owner .primary := by
      rw [first.slots, Slots.owner_setHolder]
      rfl
    rw [farewell, farewell, howner, fetchesOf_of_dropped first.fetches (by decide)]
  rw [first.informed, second.informed]
  cases selection with
  | clipboard => exact List.append_nil _
  | primary => exact hprimary
  | secondary =>
    have hnone : relay.fetchesOf .secondary = [] := by
      refine List.filter_eq_nil_iff.mpr fun fetch hfetch => ?_
      simpa using h.bridged fetch (List.mem_append_left _ hfetch)
    have hnobody : relay.slots.owner .secondary = .nobody := by
      rw [Slots.owner, Slots.holder, Slots.get, h.secondary]
      rfl
    have hfarewell : relay.farewell .secondary = [] := by
      rw [farewell, hnone, hnobody]
      rfl
    exact hfarewell.symm

theorem surrender_primary (first : Vacated relay .clipboard [] middle between) :
    middle.surrender .primary = relay.surrender .primary := by
  have howner : middle.slots.owner .primary = relay.slots.owner .primary := by
    rw [first.slots, Slots.owner_setHolder]
    rfl
  have hvocabulary : middle.vocabulary = relay.vocabulary := congrArg Prod.snd first.setting
  rw [surrender, surrender, howner, hvocabulary]

end Vacated

end Relay

end ClipboardRelay
