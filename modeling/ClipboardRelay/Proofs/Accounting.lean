import ClipboardRelay.Memory.Display
import ClipboardRelay.Proofs.Operating
import Mathlib.Data.List.Infix
/-!
The account of the agent's questions. Each question for data is answered once or waits among the
fetches, also when calls fail halfway, and the fetches are the questions that were accepted last.
-/

namespace ClipboardRelay

def Wire.Message.answers (selection : Selection) : Wire.Message → Bool
  | .data asked _ _ => asked = selection
  | _ => false

def Operation.asks (selection : Selection) (operation : Operation) : Bool :=
  operation.question?.any (·.1 = selection)

def Move.asks {δ : Type} (selection : Selection) : Move δ → Bool
  | .operate operation => operation.asks selection
  | .collect | .elapse _ => false

namespace Deed

def asks (selection : Selection) : Deed → Bool
  | began operation => operation.asks selection
  | _ => false

def isQuiet : Deed → Bool
  | began operation => operation.question?.isNone
  | sent (.data ..) => false
  | _ => true

@[simp] theorem isQuiet_called (call : Call) (answer : call.Answer) :
    (called call answer).isQuiet = true := rfl

@[simp] theorem isQuiet_failed (call : Call) (fault : Fault) :
    (failed call fault).isQuiet = true := rfl

@[simp] theorem isQuiet_noted (notice : Notice) : (noted notice).isQuiet = true := rfl

end Deed

def Moment.accepted? (moment : Moment) : Option Fetch :=
  match moment.deed with
  | .began operation =>
    operation.question?.bind fun (selection, type) => moment.relay.fetch? selection type
  | _ => none

namespace History

def answers (selection : Selection) (history : History) : Nat :=
  history.messages.countP (·.answers selection)

def questions (selection : Selection) (history : History) : Nat :=
  history.countP (·.deed.asks selection)

def accepted (history : History) : List Fetch :=
  history.filterMap Moment.accepted?

variable (first second : History) (selection : Selection)

@[simp] theorem answers_append :
    (first ++ second).answers selection = first.answers selection + second.answers selection := by
  simp [answers]

@[simp] theorem questions_append :
    (first ++ second).questions selection =
      first.questions selection + second.questions selection := by
  simp [questions]

@[simp] theorem accepted_append : (first ++ second).accepted = first.accepted ++ second.accepted :=
  List.filterMap_append

section Quiet

variable {deeds : List Deed} (quiet : ∀ deed ∈ deeds, deed.isQuiet = true) (relay : Relay)
include quiet

theorem answers_quiet : History.answers selection (deeds.map (Moment.mk relay)) = 0 := by
  simp only [answers, messages, List.filterMap_map, List.countP_eq_zero, List.mem_filterMap]
  rintro message ⟨deed, hdeed, hsent⟩
  have hquiet := quiet deed hdeed
  cases deed with
  | sent said =>
    obtain rfl := Option.some.inj hsent
    cases said with
    | data => cases hquiet
    | _ => simp [Wire.Message.answers]
  | _ => cases hsent

theorem questions_quiet : History.questions selection (deeds.map (Moment.mk relay)) = 0 := by
  simp only [questions, List.countP_map, List.countP_eq_zero]
  intro deed hdeed
  have hquiet := quiet deed hdeed
  cases deed with
  | began operation =>
    have hnone : operation.question? = none := by simpa [Deed.isQuiet] using hquiet
    simp [Deed.asks, Operation.asks, hnone]
  | _ => simp [Deed.asks]

theorem accepted_quiet : History.accepted (deeds.map (Moment.mk relay)) = [] := by
  simp only [accepted, List.filterMap_map, List.filterMap_eq_nil_iff]
  intro deed hdeed
  have hquiet := quiet deed hdeed
  cases deed with
  | began operation =>
    have hnone : operation.question? = none := by simpa [Deed.isQuiet] using hquiet
    simp [Moment.accepted?, hnone]
  | _ => rfl

end Quiet

end History

theorem Relay.selection_of_fetch? {relay : Relay} {selection : Selection} {type : ContentType}
    {fetch : Fetch} (h : relay.fetch? selection type = some fetch) :
    fetch.selection = selection := by
  unfold Relay.fetch? at h
  split at h
  · obtain ⟨target, -, rfl⟩ := Option.map_eq_some_iff.mp h
    rfl
  · cases h

theorem Relay.answers_answer (relay : Relay) (fetch : Fetch) (data : Option Bytes)
    (selection : Selection) :
    (relay.answer fetch data).answers selection = (fetch.selection = selection : Bool) := by
  unfold Relay.answer
  split
  · split <;> rfl
  · rfl

/-- The books at a stage: they balance, and the queue holds accepted questions in their order, of
each selection the last ones. -/
structure Accounted (stage : Stage) : Prop where
  balance : ∀ selection, stage.history.answers selection +
    (stage.relay.fetchesOf selection).length = stage.history.questions selection
  inOrder : stage.relay.fetches.Sublist stage.history.accepted
  latest : ∀ selection, stage.relay.fetchesOf selection <:+
    stage.history.accepted.filter (·.selection = selection)

namespace Accounted

variable {stage next : Stage}

theorem extend (h : Accounted stage) {added : History}
    (hhistory : next.history = stage.history ++ added)
    (hbalance : ∀ selection, added.answers selection + (next.relay.fetchesOf selection).length =
      added.questions selection + (stage.relay.fetchesOf selection).length)
    (hinOrder : next.relay.fetches.Sublist (stage.relay.fetches ++ added.accepted))
    (hlatest : ∀ selection, next.relay.fetchesOf selection <:+
      stage.relay.fetchesOf selection ++ added.accepted.filter (·.selection = selection)) :
    Accounted next := by
  refine ⟨fun selection => ?_, ?_, fun selection => ?_⟩
  · have hbefore := h.balance selection
    have hadded := hbalance selection
    rw [hhistory, History.answers_append, History.questions_append]
    omega
  · rw [hhistory, History.accepted_append]
    exact hinOrder.trans (h.inOrder.append_right added.accepted)
  · obtain ⟨earlier, hearlier⟩ := h.latest selection
    rw [hhistory, History.accepted_append, List.filter_append, ← hearlier, List.append_assoc]
    exact (hlatest selection).trans (List.suffix_append earlier _)

theorem quietly (h : Accounted stage) {relay : Relay} {deeds : List Deed}
    (hfetches : next.relay.fetches = stage.relay.fetches)
    (hhistory : next.history = stage.history ++ deeds.map (Moment.mk relay))
    (quiet : ∀ deed ∈ deeds, deed.isQuiet = true) : Accounted next := by
  have hof (selection : Selection) : next.relay.fetchesOf selection =
      stage.relay.fetchesOf selection := by
    simp only [Relay.fetchesOf, hfetches]
  refine h.extend hhistory (fun selection => ?_) ?_ fun selection => ?_
  · rw [History.answers_quiet selection quiet, History.questions_quiet selection quiet, hof]
  · rw [History.accepted_quiet quiet, hfetches, List.append_nil]
  · rw [History.accepted_quiet quiet, hof, List.filter_nil, List.append_nil]

theorem silently (h : Accounted stage) (hfetches : next.relay.fetches = stage.relay.fetches)
    (hhistory : next.history = stage.history) : Accounted next :=
  h.quietly hfetches (show next.history = stage.history ++ [].map (Moment.mk stage.relay) by
    simpa using hhistory) (by simp)

theorem queued (h : Accounted stage) {operation : Operation} {selection : Selection}
    {type : ContentType} {fetch : Fetch} {duty : Duty}
    (asks : operation.question? = some (selection, type))
    (accepted : stage.relay.fetch? selection type = some fetch) :
    Accounted (((stage.did [.began operation]).become
      (stage.relay.withFetches (stage.relay.fetches ++ [fetch]))).due duty) := by
  have hselection : fetch.selection = selection := Relay.selection_of_fetch? accepted
  have haccepted : History.accepted [⟨stage.relay, .began operation⟩] = [fetch] := by
    simp [History.accepted, Moment.accepted?, asks, accepted]
  refine h.extend rfl (fun other => ?_) ?_ fun other => ?_
  · simp [Stage.become, Stage.due, Relay.fetchesOf, Relay.withFetches, History.answers,
      History.questions, History.messages, Deed.asks, Operation.asks, asks, List.filter_cons,
      hselection]
    split <;> simp [Nat.add_comm]
  · simp [haccepted, Stage.become, Stage.due, Relay.withFetches]
  · simp [haccepted, Stage.become, Stage.due, Relay.withFetches, Relay.fetchesOf]

theorem declined (h : Accounted stage) {operation : Operation} {selection : Selection}
    {type : ContentType} {remark : Remark}
    (asks : operation.question? = some (selection, type))
    (declined : stage.relay.fetch? selection type = none) :
    Accounted (stage.did [.began operation, .noted (.about selection remark),
      .sent (.noData selection)]) := by
  refine h.extend rfl (fun other => ?_) ?_ fun other => ?_
  · simp [Stage.did, History.answers, History.questions, History.messages, Deed.asks,
      Operation.asks, asks, List.countP_cons, Wire.Message.answers, Wire.Message.noData]
  · simp [Stage.did]
  · have hnone : History.accepted ([Deed.began operation, .noted (.about selection remark),
        .sent (.noData selection)].map (Moment.mk stage.relay)) = [] := by
      simp [History.accepted, List.filterMap_cons, Moment.accepted?, asks, declined]
    rw [hnone, List.filter_nil, List.append_nil]
    exact List.suffix_rfl

theorem dropped (h : Accounted stage) (selection : Selection) {relay : Relay} {notice : Notice}
    (hfetches : next.relay.fetches = stage.relay.fetches.filter (·.selection ≠ selection))
    (hhistory : next.history = stage.history ++ (Deed.noted notice ::
      (stage.relay.fetchesOf selection).map fun fetch => .sent (.noData fetch.selection)).map
        (Moment.mk relay)) : Accounted next := by
  have hsame (other : Selection) (hother : other ≠ selection) :
      next.relay.fetchesOf other = stage.relay.fetchesOf other :=
    Relay.fetchesOf_of_dropped hfetches hother
  have hnone : next.relay.fetchesOf selection = [] := by
    simp [Relay.fetchesOf, hfetches]
  have hquestions (other : Selection) : History.questions other ((Deed.noted notice ::
      (stage.relay.fetchesOf selection).map fun fetch => .sent (.noData fetch.selection)).map
        (Moment.mk relay)) = 0 := by
    simp [History.questions, Deed.asks]
  have haccepted : History.accepted ((Deed.noted notice ::
      (stage.relay.fetchesOf selection).map fun fetch => .sent (.noData fetch.selection)).map
        (Moment.mk relay)) = [] := by
    simp [History.accepted, Moment.accepted?, List.filterMap_cons, Function.comp_def]
  have hanswers (other : Selection) : History.answers other ((Deed.noted notice ::
      (stage.relay.fetchesOf selection).map fun fetch => .sent (.noData fetch.selection)).map
        (Moment.mk relay)) =
      (stage.relay.fetchesOf selection).countP (·.selection = other) := by
    simp [History.answers, History.messages, Function.comp_def, List.countP_map,
      Wire.Message.answers, Wire.Message.noData]
  refine h.extend hhistory (fun other => ?_) ?_ fun other => ?_
  · rw [hquestions, hanswers, Nat.zero_add]
    by_cases hother : other = selection
    · subst hother
      rw [hnone, List.countP_eq_length.mpr (by simp [Relay.fetchesOf]), List.length_nil,
        Nat.add_zero]
    · rw [hsame other hother, List.countP_eq_zero.mpr, Nat.zero_add]
      intro fetch hfetch
      rw [Relay.fetchesOf, List.mem_filter, decide_eq_true_eq] at hfetch
      simpa [hfetch.2] using fun h => hother h.symm
  · rw [hfetches]
    exact List.filter_sublist.trans (List.sublist_append_left _ _)
  · by_cases hother : other = selection
    · rw [hother, hnone]
      exact List.nil_suffix
    · rw [hsame other hother, haccepted, List.filter_nil, List.append_nil]

theorem finished (h : Accounted stage) (data : Option Bytes) {fetch : Fetch} {rest : List Fetch}
    (front : stage.relay.fetches = fetch :: rest) {relay : Relay} {deeds : List Deed}
    (quiet : ∀ deed ∈ deeds, deed.isQuiet = true)
    (hfetches : next.relay.fetches = rest)
    (hhistory : next.history = stage.history ++
      (deeds ++ [Deed.sent (stage.relay.answer fetch data)]).map (Moment.mk relay)) :
    Accounted next := by
  have hquestions (other : Selection) : History.questions other
      ((deeds ++ [Deed.sent (stage.relay.answer fetch data)]).map (Moment.mk relay)) = 0 := by
    rw [List.map_append, History.questions_append, History.questions_quiet other quiet]
    simp [History.questions, Deed.asks]
  have hanswers (other : Selection) : History.answers other
      ((deeds ++ [Deed.sent (stage.relay.answer fetch data)]).map (Moment.mk relay)) =
        if fetch.selection = other then 1 else 0 := by
    rw [List.map_append, History.answers_append, History.answers_quiet other quiet]
    simp [History.answers, History.messages, Relay.answers_answer, List.countP_cons]
  have haccepted : History.accepted
      ((deeds ++ [Deed.sent (stage.relay.answer fetch data)]).map (Moment.mk relay)) = [] := by
    rw [List.map_append, History.accepted_append, History.accepted_quiet quiet]
    rfl
  have hof (other : Selection) : stage.relay.fetchesOf other =
      (if fetch.selection = other then [fetch] else []) ++ next.relay.fetchesOf other := by
    simp only [Relay.fetchesOf, front, hfetches, List.filter_cons, decide_eq_true_eq]
    split <;> rfl
  refine h.extend hhistory (fun other => ?_) ?_ fun other => ?_
  · rw [hquestions, hanswers, hof, List.length_append]
    split <;> simp
  · rw [hfetches, front]
    exact (List.sublist_cons_self fetch rest).trans (List.sublist_append_left _ _)
  · rw [haccepted, List.filter_nil, List.append_nil, hof]
    exact List.suffix_append _ _

end Accounted

theorem Step.accounted {stage next : Stage} (step : Step stage next) (h : Accounted stage) :
    Accounted next := by
  cases step with
  | plain deed plain =>
    refine h.quietly rfl rfl fun other hother => ?_
    rw [List.mem_singleton] at hother
    subst hother
    cases other with
    | began operation =>
      simp only [Moment.isPlain, Bool.and_eq_true] at plain
      exact plain.1
    | sent message => cases plain
    | _ => rfl
  | queueFetch operation selection type fetch asks accepted idle => exact h.queued asks accepted
  | decline operation selection type remark asks declined plain => exact h.declined asks declined
  | dropFetches selection active rest front found started =>
    dsimp only
    split <;> exact h.dropped selection rfl rfl
  | finishFetch data fetch rest front started =>
    refine h.finished data front ?_ rfl rfl
    split <;> simp
  | surrender =>
    refine h.quietly rfl rfl ?_
    split <;> simp [Deed.isQuiet]
  | promise operation selection types taken idle =>
    exact h.quietly rfl rfl (by simp [Deed.isQuiet, Relay.question?_of_taken? taken])
  | dropRequests =>
    dsimp only
    split <;> exact h.quietly rfl rfl (by simp [or_imp, forall_and])
  | claim => exact h.quietly rfl rfl (by simp [Deed.isQuiet, or_imp, forall_and])
  | rest | skipStart | forget | read | countOff | install => exact h.silently rfl rfl
  | turnAway | store | ask | arrive | settle | announce | await | chunk | report | lastChunk
  | startFetch => exact h.quietly rfl rfl (by simp [Deed.isQuiet])

theorem Break.accounted {stage next : Stage} (broke : Break stage next) (h : Accounted stage) :
    Accounted next := by
  cases broke with
  | dropRequests => exact h.quietly rfl rfl (by simp [or_imp, forall_and])
  | call | turnAway | chunk | startFetch => exact h.quietly rfl rfl (by simp)

namespace Course

variable {δ : Type} [Display δ]

theorem questions_after {display : δ} {course : Course δ} (hstart : start display = some course)
    (moves : List (Move δ)) (selection : Selection) :
    (course.after moves).history.questions selection = moves.countP (·.asks selection) := by
  have hhistory {action : Action δ Unit} {session : Session δ} :
      History.questions selection (action.history session) = 0 := by
    rw [History.questions, List.countP_eq_zero]
    intro moment hmoment
    have hdeed := action.not_began_history session moment hmoment
    cases hd : moment.deed with
    | began operation => exact absurd hd (hdeed operation)
    | _ => simp [Deed.asks]
  have hafter (moves : List (Move δ)) (course : Course δ) :
      (course.after moves).history.questions selection =
        course.history.questions selection + moves.countP (·.asks selection) := by
    induction moves generalizing course with
    | nil => rfl
    | cons next moves ih =>
      have hmoves : course.after (next :: moves) = (course.move next).after moves := rfl
      rw [hmoves, ih, List.countP_cons]
      cases next with
      | collect | elapse => rfl
      | operate operation =>
        have hmove : (course.move (.operate operation)).history = course.history ++
            ([⟨course.relay, .began operation⟩] ++ operation.action.history course.session) := rfl
        have hbegan : History.questions selection [⟨course.relay, .began operation⟩] =
            if (Move.operate (δ := δ) operation).asks selection then 1 else 0 :=
          List.countP_singleton
        rw [hmove, History.questions_append, History.questions_append, hhistory, hbegan]
        omega
  obtain ⟨relay, after, -, -, -, hbegun⟩ := exists_of_start hstart
  rw [hafter, hbegun, hhistory, Nat.zero_add]

/-- However calls fail, every question of the agent was answered once or waits, and those that wait
are of each selection the ones accepted last, in the order in which they were accepted. -/
theorem questions_answered_once {display : δ} {course : Course δ}
    (hstart : start display = some course) (moves : List (Move δ)) :
    (∀ selection, ((course.after moves).collected ++
        (course.after moves).session.outbox).countP (·.answers selection) +
      ((course.after moves).relay.fetchesOf selection).length = moves.countP (·.asks selection)) ∧
    (course.after moves).relay.fetches.Sublist (course.after moves).history.accepted ∧
    ∀ selection, (course.after moves).relay.fetchesOf selection <:+
      (course.after moves).history.accepted.filter (·.selection = selection) := by
  have books := holds_after Accounted (fun relay => ⟨fun selection => rfl, .refl _,
    fun selection => List.suffix_rfl⟩) (fun _ _ step => step.accounted)
    (fun _ _ broke => broke.accounted) hstart moves
  refine ⟨fun selection => ?_, books.inOrder, books.latest⟩
  rw [← messages_after hstart, ← questions_after hstart]
  exact books.balance selection

/-- An application takes the clipboard and offers text. It is asked for it three times, and the
display fails when its first reply has come and the next question is put to it. -/
def brokenFetching : List (Move Memory.Display) :=
  [.elapse { events := [.ownerChanged ⟨100⟩ ⟨7⟩] }, .operate .dispatch,
    .elapse {
      properties := { entries := [⟨⟨1⟩, ⟨102⟩, (Content.words [105]).toProperty Atom.atomType⟩] }
      events := [.selectionNotify ⟨0, ⟨1⟩, ⟨100⟩, ⟨102⟩, ⟨102⟩⟩] },
    .operate .dispatch, .operate (.ask .clipboard .utf8Text),
    .operate (.fulfil (.ask .clipboard .utf8Text)), .collect,
    .elapse {
      properties := { entries := [⟨⟨1⟩, ⟨100⟩, (Content.bytes [104, 105]).toProperty ⟨105⟩⟩] }
      rules := [{ kind := .convertSelection, failure := .connection }]
      events := [.selectionNotify ⟨0, ⟨1⟩, ⟨100⟩, ⟨105⟩, ⟨100⟩⟩] },
    .operate .dispatch, .operate (.ask .clipboard .utf8Text)]

theorem questions_answered_once_brokenFetching : ∃ course, start {} = some course ∧
    (course.after brokenFetching).history.faultless = false ∧
    ((course.after brokenFetching).relay.fetchesOf .clipboard).length = 2 ∧
    ((course.after brokenFetching).collected ++
        (course.after brokenFetching).session.outbox).countP (·.answers .clipboard) +
      ((course.after brokenFetching).relay.fetchesOf .clipboard).length = 3 := by
  have hstart : start ({} : Memory.Display) =
      some ((start {}).get (by decide +kernel)) := (Option.some_get _).symm
  refine ⟨_, hstart, by decide +kernel, by decide +kernel, ?_⟩
  exact (questions_answered_once hstart brokenFetching).1 .clipboard

end Course

end ClipboardRelay
