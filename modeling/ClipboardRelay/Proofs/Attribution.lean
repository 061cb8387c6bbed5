import ClipboardRelay.Memory.Display
import ClipboardRelay.Proofs.Requests
import ClipboardRelay.Proofs.Upholding
/-!
Which request the agent's data is handed to. The agent is asked for the request at the head of the
queue, and what it sends goes to the request that is at the head then. Main statement: if the agent
answers in the order of the questions, the answer to the last question goes to the request that it
was asked for, and an answer that comes while no request waits for data changes nothing.
-/

namespace ClipboardRelay

def Operation.supply? : Operation → Option (Selection × ContentType × Bytes)
  | supply selection type data | fulfil (.data selection type data) => some (selection, type, data)
  | _ => none

namespace Moment

def inquiry? (moment : Moment) : Option (Selection × ContentType) :=
  match moment.deed with
  | .sent (.ask selection type) => some (selection, type)
  | _ => none

def supply? (moment : Moment) : Option (Selection × ContentType × Bytes) :=
  match moment.deed with
  | .began operation => operation.supply?
  | _ => none

def arrival? (moment : Moment) : Option DesktopRequest :=
  match moment.deed with
  | .called .pollEvent (some (.selectionRequest event)) =>
    (moment.relay.vocabulary.selection? event.selection).map fun selection => { selection, event }
  | _ => none

end Moment

namespace History

def inquiries (history : History) : List (Selection × ContentType) :=
  history.filterMap Moment.inquiry?

def supplies (history : History) : List (Selection × ContentType × Bytes) :=
  history.filterMap Moment.supply?

def arrivals (history : History) : List DesktopRequest :=
  history.filterMap Moment.arrival?

/-- Whether the agent answers the questions in their order, each at most once and with what was
asked for. -/
def AnswersInTurn (history : History) : Prop :=
  history.Always fun before moment => moment.supply?.all (fun (selection, type, _) =>
    before.inquiries[before.supplies.length]? = some (selection, type)) = true

end History

/-- Whether the agent was last asked for a request that was at the head of the queue then. No request
for its selection has left the queue since. -/
def AskedLast (relay : Relay) (history : History) (request : DesktopRequest) : Prop :=
  ∃ (before : History) (asking : Moment) (since : History) (type : ContentType),
    history = before ++ asking :: since ∧ asking.deed = .sent (.ask request.selection type) ∧
    asking.relay.requests.head? = some request ∧ (∀ moment ∈ since, moment.inquiry? = none) ∧
    (relay.requestsOf request.selection).length =
      (asking.relay.requestsOf request.selection).length +
        (since.arrivals.filter (·.selection = request.selection)).length ∧
    relay.registry.typeFor request.event.target = some type

theorem AskedLast.extend {relay after : Relay} {history added : History} {request : DesktopRequest}
    (h : AskedLast relay history request) (hinquiry : ∀ moment ∈ added, moment.inquiry? = none)
    (hcount : (after.requestsOf request.selection).length =
      (relay.requestsOf request.selection).length +
        (added.arrivals.filter (·.selection = request.selection)).length)
    (hregistry : after.registry = relay.registry) : AskedLast after (history ++ added) request := by
  obtain ⟨before, asking, since, type, rfl, hasking, hhead, hsince, hstay, hknown⟩ := h
  refine ⟨before, asking, since ++ added, type, by simp, hasking, hhead, ?_, ?_, ?_⟩
  · simpa [or_imp, forall_and] using ⟨hsince, hinquiry⟩
  · rw [History.arrivals, List.filterMap_append, List.filter_append, List.length_append, hcount,
      hstay, Nat.add_assoc]
    rfl
  · rw [hregistry, hknown]

theorem Moment.not_inquiry_of_aside {moment : Moment} (h : moment.deed.isAside = true) :
    moment.inquiry? = none := by
  unfold inquiry?
  split
  case h_1 hdeed =>
    rw [hdeed] at h
    cases h
  case h_2 => rfl

theorem Moment.not_arrival_of_aside {moment : Moment} (h : moment.deed.isAside = true) :
    moment.arrival? = none := by
  unfold arrival?
  split
  case h_1 hdeed =>
    rw [hdeed] at h
    cases h
  case h_2 => rfl

theorem Relay.requestsOf_withoutRequests (relay : Relay) {selection other : Selection}
    (h : other ≠ selection) :
    (relay.withoutRequests selection).requestsOf other = relay.requestsOf other := by
  simp only [requestsOf, withoutRequests, withRequests, List.filter_filter]
  refine List.filter_congr fun request _ => ?_
  by_cases hsame : request.selection = other <;> simp [hsame, h]

namespace Stage

/-- The agent was last asked for the request at the head of the queue, unless that request was not
looked at yet. -/
def FrontAsked (stage : Stage) : Prop :=
  stage.duty.serve = false → ∀ request ∈ stage.relay.requests.head?,
    AskedLast stage.relay stage.history request

namespace FrontAsked

variable {stage next : Stage}

theorem keep (h : stage.FrontAsked) {added : History}
    (hhistory : next.history = stage.history ++ added)
    (hserve : next.duty.serve = stage.duty.serve)
    (hrequests : next.relay.requests = stage.relay.requests)
    (hregistry : next.relay.registry = stage.relay.registry)
    (hinquiry : ∀ moment ∈ added, moment.inquiry? = none)
    (harrival : ∀ moment ∈ added, moment.arrival? = none) : next.FrontAsked := by
  intro served request hrequest
  rw [hserve] at served
  rw [hrequests] at hrequest
  rw [hhistory]
  refine (h served request hrequest).extend hinquiry ?_ hregistry
  rw [History.arrivals, List.filterMap_eq_nil_iff.mpr harrival]
  simp [Relay.requestsOf, hrequests]

theorem aside (h : stage.FrontAsked) {relay : Relay} {deeds : List Deed}
    (hhistory : next.history = stage.history ++ deeds.map (Moment.mk relay))
    (hserve : next.duty.serve = stage.duty.serve)
    (hrequests : next.relay.requests = stage.relay.requests)
    (hregistry : next.relay.registry = stage.relay.registry)
    (hdeeds : ∀ deed ∈ deeds, deed.isAside = true) : next.FrontAsked :=
  h.keep hhistory hserve hrequests hregistry
    (List.forall_mem_map.mpr fun deed hdeed => Moment.not_inquiry_of_aside (hdeeds deed hdeed))
    (List.forall_mem_map.mpr fun deed hdeed => Moment.not_arrival_of_aside (hdeeds deed hdeed))

theorem silently (h : stage.FrontAsked) (hhistory : next.history = stage.history)
    (hserve : next.duty.serve = stage.duty.serve)
    (hrequests : next.relay.requests = stage.relay.requests)
    (hregistry : next.relay.registry = stage.relay.registry) : next.FrontAsked :=
  h.keep (hhistory.trans (List.append_nil _).symm) hserve hrequests hregistry (by simp) (by simp)

theorem arrived (h : stage.FrontAsked) (idle : stage.duty.serve = false) {event : SelectionRequest}
    {selection : Selection}
    (bridged : stage.relay.vocabulary.selection? event.selection = some selection)
    (hhistory : next.history = stage.history ++
      [⟨stage.relay, .called .pollEvent (some (.selectionRequest event))⟩])
    (hserve : next.duty.serve = stage.relay.requests.isEmpty)
    (hrequests : next.relay.requests = stage.relay.requests ++ [⟨selection, event⟩])
    (hregistry : next.relay.registry = stage.relay.registry) : next.FrontAsked := by
  intro served request hrequest
  rw [hserve] at served
  have hfront : request ∈ stage.relay.requests.head? := by
    cases hqueue : stage.relay.requests with
    | nil =>
      rw [hqueue] at served
      cases served
    | cons first rest =>
      rw [hrequests, hqueue] at hrequest
      exact hrequest
  rw [hhistory]
  refine (h idle request hfront).extend (List.forall_mem_singleton.mpr rfl) ?_ hregistry
  simp [Relay.requestsOf, hrequests, History.arrivals, Moment.arrival?, bridged]

theorem droppedBehind (h : stage.FrontAsked) {selection : Selection}
    {added : History} (hhistory : next.history = stage.history ++ added)
    (hserve : next.duty.serve = stage.duty.serve)
    (hrelay : next.relay = stage.relay.withoutRequests selection)
    (behind : stage.relay.requests.head?.map (·.selection) ≠ some selection)
    (hinquiry : ∀ moment ∈ added, moment.inquiry? = none)
    (harrival : ∀ moment ∈ added, moment.arrival? = none) : next.FrontAsked := by
  intro served request hrequest
  rw [hserve] at served
  cases hqueue : stage.relay.requests with
  | nil => simp [hrelay, Relay.withoutRequests, Relay.withRequests, hqueue] at hrequest
  | cons first rest =>
    have hfront : stage.relay.requests.head? = some first := by rw [hqueue]; rfl
    have hother : first.selection ≠ selection := by simpa [hfront] using behind
    have hfirst : next.relay.requests.head? = some first := by
      simp [hrelay, Relay.withoutRequests, Relay.withRequests, hqueue, hother]
    obtain rfl := Option.some.inj (hfirst.symm.trans hrequest)
    rw [hhistory]
    refine (h served first hfront).extend hinquiry ?_ (by rw [hrelay]; rfl)
    rw [History.arrivals, List.filterMap_eq_nil_iff.mpr harrival, hrelay,
      Relay.requestsOf_withoutRequests _ hother]
    rfl

end FrontAsked

end Stage

theorem Step.frontAsked {stage next : Stage} (step : Step stage next) (h : stage.FrontAsked) :
    next.FrontAsked := by
  cases step with
  | plain deed plain =>
    exact h.aside rfl rfl rfl rfl (by simpa using Moment.isAside_of_plain plain)
  | report | queueFetch | startFetch | promise | await | store | chunk =>
    exact h.aside rfl rfl rfl rfl (by simp [Deed.isAside])
  | decline operation selection type remark asks declined plain =>
    have haside := Moment.isAside_of_plain plain
    exact h.aside rfl rfl rfl rfl (by simpa [Deed.isAside, Wire.Message.noData] using haside)
  | announce =>
    exact h.keep rfl rfl rfl rfl (by simp [Moment.inquiry?]) (by simp [Moment.arrival?])
  | turnAway event foreign =>
    exact h.keep rfl rfl rfl rfl (by simp [Moment.inquiry?]) (by simp [Moment.arrival?, foreign])
  | claim selection property words notices idle current free content known plain =>
    exact h.aside rfl rfl rfl rfl (Deed.isAside_claiming plain)
  | skipStart | forget | read | countOff => exact h.silently rfl rfl rfl rfl
  | install selection holder clear owed => exact h.silently rfl (by rw [owed]; rfl) rfl rfl
  | dropFetches =>
    dsimp only
    split <;> exact h.aside rfl rfl rfl rfl
      (by simp [Deed.isAside, Wire.Message.noData, or_imp, forall_and])
  | finishFetch data fetch rest front started =>
    exact h.aside rfl rfl rfl rfl (Relay.isAside_finishing _ fetch data)
  | surrender selection clear idle =>
    refine h.aside rfl rfl rfl rfl ?_
    split <;> simp [Deed.isAside]
  | arrive event selection bridged idle => exact h.arrived (by rw [idle]) bridged rfl rfl rfl rfl
  | ask request rest type due front owned single content known =>
    intro _ other hother
    have hfront : stage.relay.requests.head? = some request := by rw [front]; rfl
    obtain rfl := Option.some.inj (hfront.symm.trans hother)
    exact ⟨stage.history, _, [], type, rfl, rfl, hfront, by simp, rfl, known⟩
  | settle | lastChunk =>
    intro served
    cases served
  | dropRequests selection found served =>
    dsimp only
    split
    case isTrue =>
      intro served
      cases served
    case isFalse behind =>
      exact h.droppedBehind rfl rfl rfl behind (by simp [Moment.inquiry?, or_imp, forall_and])
        (by simp [Moment.arrival?, or_imp, forall_and])
  | rest due empty =>
    rintro - request hrequest
    change request ∈ stage.relay.requests.head? at hrequest
    rw [empty] at hrequest
    cases hrequest

section Delivering

open Relay

variable {δ : Type} [Display δ]

/-- Data goes to the request at the head of the queue, if it is what the agent was asked for. -/
theorem Relay.deliver_front {session : Session δ} {request : DesktopRequest}
    {rest : List DesktopRequest} (free : session.relay.writer = none)
    (front : session.relay.requests = request :: rest) {type : ContentType}
    (known : session.relay.registry.typeFor request.event.target = some type) (data : Bytes) :
    (deliver request.selection type data : Action δ Unit).run session =
      (if data.length > session.relay.propertyLimit then
        startSending request.selection request.event data
      else sendWhole request.event data : Action δ Unit).run session := by
  unfold deliver
  rw [Action.run_bind]
  simp only [current, Action.perform, Action.run, Effect.perform, free, front, known,
    Option.getD_some, and_self, if_true]

/-- Data that no request waits for changes nothing. -/
theorem Relay.deliver_aside {session : Session δ}
    (aside : session.relay.requests = [] ∨ session.relay.writer.isSome = true)
    (selection : Selection) (type : ContentType) (data : Bytes) :
    ∃ notices, (deliver selection type data : Action δ Unit).run session =
      (.ok (), { session with notices }) := by
  unfold deliver
  rw [Action.run_bind]
  rcases session with ⟨display, relay, outbox, notices⟩
  cases busy : relay.writer with
  | some writer =>
    simp only [current, Action.perform, Action.run, Effect.perform, busy]
    split
    · exact ⟨_, rfl⟩
    · exact ⟨_, rfl⟩
  | none =>
    have empty : relay.requests = [] := aside.resolve_right (by simp [busy])
    simp only [current, Action.perform, Action.run, Effect.perform, busy, empty]
    split
    · exact ⟨_, rfl⟩
    · exact ⟨_, rfl⟩

theorem Operation.action_of_supply? {operation : Operation} {selection : Selection}
    {type : ContentType} {data : Bytes}
    (h : operation.supply? = some (selection, type, data)) :
    (operation.action : Action δ Unit) = (do deliver selection type data; Relay.dispatch) := by
  unfold supply? at h
  split at h
  case h_3 => cases h
  all_goals
    obtain ⟨rfl, rfl, rfl⟩ := h
    rfl

end Delivering

namespace Course

variable {δ : Type} [Display δ]

theorem front_asked_after {display : δ} {course : Course δ} (hstart : start display = some course)
    {moves : List (Move δ)} (hfaultless : (course.after moves).history.faultless = true) :
    ∀ request ∈ (course.after moves).relay.requests.head?,
      AskedLast (course.after moves).relay (course.after moves).history request :=
  holds_after_of_faultless Stage.FrontAsked (fun _ => nofun) (fun _ _ step => step.frontAsked)
    hstart hfaultless rfl

open Relay in
/-- As long as no call fails and the agent answers in turn, the answer to the last question goes to
the request that the agent was asked for, if that still waits for data, and an answer changes
nothing if no request does. -/
theorem answer_reaches_asker {display : δ} {course : Course δ} (hstart : start display = some course)
    {moves : List (Move δ)} (hfaultless : (course.after moves).history.faultless = true)
    {operation : Operation} {selection : Selection} {type : ContentType} {data : Bytes}
    (hsupply : operation.supply? = some (selection, type, data))
    (hinTurn : ((course.after moves).move (.operate operation)).history.AnswersInTurn) :
    (operation.action : Action δ Unit) = (do deliver selection type data; dispatch) ∧
    ((course.after moves).relay.requests = [] ∨ (course.after moves).relay.writer.isSome = true →
      ∃ notices, (deliver selection type data).run (course.after moves).session =
        (.ok (), { (course.after moves).session with notices })) ∧
    ((course.after moves).history.inquiries.length =
        (course.after moves).history.supplies.length + 1 →
      ∀ request rest, (course.after moves).relay.requests = request :: rest →
        (course.after moves).relay.writer = none →
        AskedLast (course.after moves).relay (course.after moves).history request ∧
        (deliver selection type data).run (course.after moves).session =
          (if data.length > (course.after moves).relay.propertyLimit then
            startSending selection request.event data
          else sendWhole request.event data).run (course.after moves).session) := by
  refine ⟨Operation.action_of_supply? hsupply, fun aside => deliver_aside aside _ _ _, ?_⟩
  intro hlast request rest front free
  have askedLast := front_asked_after hstart hfaultless request (by rw [front]; rfl)
  refine ⟨askedLast, ?_⟩
  obtain ⟨before, asking, since, asked, hsplit, hasking, -, hsince, -, known⟩ := askedLast
  have hinquiries : (course.after moves).history.inquiries =
      before.inquiries ++ [(request.selection, asked)] := by
    have hnone : since.filterMap Moment.inquiry? = [] := List.filterMap_eq_nil_iff.mpr hsince
    have hasked : asking.inquiry? = some (request.selection, asked) := by
      rw [Moment.inquiry?, hasking]
    rw [hsplit, History.inquiries, List.filterMap_append, List.filterMap_cons_some hasked, hnone]
    rfl
  have hthis := hinTurn (course.after moves).history _ _ rfl
  simp only [Moment.supply?, hsupply, Option.all_some, decide_eq_true_eq] at hthis
  rw [hinquiries, List.length_append, List.length_singleton, Nat.add_right_cancel_iff] at hlast
  rw [hinquiries, ← hlast, List.getElem?_concat_length, Option.some.injEq, Prod.mk.injEq] at hthis
  obtain ⟨rfl, rfl⟩ := hthis
  exact deliver_front free front known data

/-- An application takes the clipboard from the agent before the agent has sent what another
application requested. The agent answers late, takes the clipboard back and is asked again. -/
def answeringLate : List (Move Memory.Display) :=
  [.operate (.grab .clipboard [.utf8Text]),
    .elapse { events := [.selectionRequest ⟨0, ⟨7⟩, ⟨100⟩, ⟨105⟩, ⟨50⟩⟩] }, .operate .dispatch,
    .elapse { events := [.ownerChanged ⟨100⟩ ⟨9⟩] }, .operate .dispatch,
    .operate (.supply .clipboard .utf8Text [1]), .operate (.grab .clipboard [.utf8Text]),
    .elapse { events := [.selectionRequest ⟨0, ⟨8⟩, ⟨100⟩, ⟨105⟩, ⟨51⟩⟩] }, .operate .dispatch]

open History Relay in
theorem answer_reaches_asker_answeringLate : ∃ course, start ({} : Memory.Display) = some course ∧
    (course.after answeringLate).history.faultless = true ∧
    ((course.after answeringLate).move
      (.operate (.supply .clipboard .utf8Text [2]))).history.AnswersInTurn ∧
    (course.after answeringLate).history.supplies.length = 1 ∧
    AskedLast (course.after answeringLate).relay (course.after answeringLate).history
      ⟨.clipboard, ⟨0, ⟨8⟩, ⟨100⟩, ⟨105⟩, ⟨51⟩⟩⟩ ∧
    (deliver .clipboard .utf8Text [2]).run (course.after answeringLate).session =
      (sendWhole ⟨0, ⟨8⟩, ⟨100⟩, ⟨105⟩, ⟨51⟩⟩ [2]).run (course.after answeringLate).session := by
  have hstart : start ({} : Memory.Display) =
      some ((start {}).get (by decide +kernel)) := (Option.some_get _).symm
  have hfaultless : (((start ({} : Memory.Display)).get (by decide +kernel)).after
      answeringLate).history.faultless = true := by decide +kernel
  have hinTurn : ((((start ({} : Memory.Display)).get (by decide +kernel)).after
      answeringLate).move (.operate (.supply .clipboard .utf8Text [2]))).history.AnswersInTurn := by
    unfold AnswersInTurn
    decide +kernel
  have hfits : ¬ ([2] : Bytes).length > (((start ({} : Memory.Display)).get
      (by decide +kernel)).after answeringLate).relay.propertyLimit := by decide +kernel
  have reaches := (answer_reaches_asker hstart hfaultless
    (show (Operation.supply .clipboard .utf8Text [2]).supply? =
      some (.clipboard, .utf8Text, [2]) from rfl) hinTurn).2.2 (by decide +kernel)
    ⟨.clipboard, ⟨0, ⟨8⟩, ⟨100⟩, ⟨105⟩, ⟨51⟩⟩⟩ [] (by decide +kernel) (by decide +kernel)
  rw [if_neg hfits] at reaches
  exact ⟨_, hstart, hfaultless, hinTurn, by decide +kernel, reaches⟩

def answeringLater : List (Move Memory.Display) :=
  [.operate (.grab .clipboard [.utf8Text]),
    .elapse { events := [.selectionRequest ⟨0, ⟨7⟩, ⟨100⟩, ⟨105⟩, ⟨50⟩⟩] }, .operate .dispatch,
    .elapse { events := [.ownerChanged ⟨100⟩ ⟨9⟩] }, .operate .dispatch,
    .operate (.grab .clipboard [.utf8Text]),
    .elapse { events := [.selectionRequest ⟨0, ⟨8⟩, ⟨100⟩, ⟨105⟩, ⟨51⟩⟩] }, .operate .dispatch,
    .operate (.supply .clipboard .utf8Text [1])]

def answeringMeanwhile : List (Move Memory.Display) :=
  [.operate (.grab .clipboard [.utf8Text]), .operate (.grab .primary [.utf8Text]),
    .elapse { events := [.selectionRequest ⟨0, ⟨7⟩, ⟨100⟩, ⟨105⟩, ⟨50⟩⟩,
      .selectionRequest ⟨0, ⟨8⟩, ⟨101⟩, ⟨105⟩, ⟨51⟩⟩] }, .operate .dispatch,
    .elapse { events := [.ownerChanged ⟨100⟩ ⟨9⟩] }, .operate .dispatch,
    .operate (.supply .clipboard .utf8Text [1])]

open History in
/-- What happens to a late answer while a request waits: the answer to the question for the first
request is stored for the second one, or makes the relay refuse the second one. -/
theorem late_answer_misattributed : ∃ course, start ({} : Memory.Display) = some course ∧
    ((course.after answeringLater).history.faultless = true ∧
      (course.after answeringLater).history.AnswersInTurn ∧
      (course.after answeringLater).history.inquiries =
        [(.clipboard, .utf8Text), (.clipboard, .utf8Text)] ∧
      (course.after answeringLater).history.supplies = [(.clipboard, .utf8Text, [1])] ∧
      .notifyRequestor ⟨0, ⟨7⟩, ⟨100⟩, ⟨105⟩, ⟨50⟩⟩ Atom.null ∈
        (course.after answeringLater).history.calls ∧
      .changeProperty ⟨8⟩ ⟨51⟩ ⟨105⟩ (.bytes [1]) ∈ (course.after answeringLater).history.calls) ∧
    (course.after answeringMeanwhile).history.faultless = true ∧
    (course.after answeringMeanwhile).history.AnswersInTurn ∧
    (course.after answeringMeanwhile).history.inquiries =
      [(.clipboard, .utf8Text), (.primary, .utf8Text)] ∧
    (course.after answeringMeanwhile).history.supplies = [(.clipboard, .utf8Text, [1])] ∧
    .notifyRequestor ⟨0, ⟨8⟩, ⟨101⟩, ⟨105⟩, ⟨51⟩⟩ Atom.null ∈
      (course.after answeringMeanwhile).history.calls := by
  have hstart : start ({} : Memory.Display) =
      some ((start {}).get (by decide +kernel)) := (Option.some_get _).symm
  refine ⟨_, hstart, ⟨by decide +kernel, ?later, by decide +kernel, by decide +kernel,
    by decide +kernel, by decide +kernel⟩, by decide +kernel, ?meanwhile, by decide +kernel,
    by decide +kernel, by decide +kernel⟩
  all_goals
    unfold AnswersInTurn
    decide +kernel

end Course

end ClipboardRelay
