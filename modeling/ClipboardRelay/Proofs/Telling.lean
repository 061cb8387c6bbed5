import ClipboardRelay.Proofs.FetchQueue
import ClipboardRelay.Proofs.Upholding
/-!
What holds of every single thing that is done, whichever calls fail. What every part of an operation
does as long as no call fails is shown once; a call that fails finds nothing done but what came
before it. Main statement: in every run the data that the agent is sent is empty exactly if it is
word that there is none.
-/

namespace ClipboardRelay

instance (asked : Call) : Nonempty asked.Answer := by
  cases asked with
  | internAtom => exact ⟨Atom.null⟩
  | getProperty | pollEvent => exact ⟨none⟩
  | rootSize => exact ⟨⟨0, 0⟩⟩
  | screenSizes => exact ⟨[]⟩
  | _ => exact ⟨()⟩

def History.Each (fits : Moment → Prop) (history : History) : Prop :=
  ∀ moment ∈ history, fits moment

namespace History.Each

variable {fits : Moment → Prop} {history : History}

theorem did (h : history.Each fits) {relay : Relay} {deeds : List Deed}
    (hdeeds : ∀ deed ∈ deeds, fits ⟨relay, deed⟩) :
    History.Each fits (history ++ deeds.map (Moment.mk relay)) :=
  List.forall_mem_append.mpr ⟨h, List.forall_mem_map.mpr hdeeds⟩

theorem concat (h : history.Each fits) {moment : Moment} (hmoment : fits moment) :
    History.Each fits (history ++ [moment]) :=
  List.forall_mem_append.mpr ⟨h, List.forall_mem_singleton.mpr hmoment⟩

end History.Each

namespace Action

variable {δ α : Type} {fits : Moment → Prop} {relay : Relay} {history : History}

theorem Yields.each_before [Nonempty δ] {action : Action δ α}
    (h : action.Yields (fun _ _ later => later.Each fits) relay history) : history.Each fits := by
  induction action generalizing relay history with
  | done value => exact h
  | step effect next ih =>
    cases effect with
    | current => exact ih relay h
    | display =>
      obtain ⟨display⟩ : Nonempty δ := inferInstance
      exact ih display (h display)
    | update change => exact ih () h
    | call asked =>
      obtain ⟨answer⟩ : Nonempty asked.Answer := inferInstance
      exact (List.forall_mem_append.mp (ih answer (h.1 answer))).1
    | send messages => exact (List.forall_mem_append.mp (ih () h)).1
    | note notices => exact (List.forall_mem_append.mp (ih () h)).1

theorem Yields.ensures_each [Nonempty δ] {action : Action δ α}
    (hfailed : ∀ relay asked fault, fits ⟨relay, .failed asked fault⟩)
    (h : action.Yields (fun _ _ later => later.Each fits) relay history) :
    action.Ensures (fun _ _ later => later.Each fits) (fun _ later => later.Each fits)
      relay history := by
  induction action generalizing relay history with
  | done value => exact h
  | step effect next ih =>
    cases effect with
    | current => exact ih relay h
    | display => exact fun display => ih display (h display)
    | update change => exact ih () h
    | call asked =>
      have hbefore : history.Each fits := by
        obtain ⟨answer⟩ : Nonempty asked.Answer := inferInstance
        have hanswered : (next answer).Yields (fun _ _ later => later.Each fits) relay
            (history ++ [⟨relay, .called asked answer⟩]) := h.1 answer
        exact (List.forall_mem_append.mp hanswered.each_before).1
      exact ⟨fun answer => ih answer (h.1 answer), fun fault => hbefore.concat (hfailed _ _ _)⟩
    | send messages => exact ih () h
    | note notices => exact ih () h

theorem Spares.each {σ : Type} {kept : Relay → σ} {apart : Deed → Bool} {action : Action δ α}
    (hspares : action.Spares kept apart)
    (hapart : ∀ relay deed, apart deed = true → fits ⟨relay, deed⟩) (h : history.Each fits) :
    action.Yields (fun _ _ later => later.Each fits) relay history :=
  hspares.yields fun _ _ _ _ hadded => List.forall_mem_append.mpr
    ⟨h, fun moment hmoment => hapart moment.relay moment.deed (hadded moment hmoment)⟩

end Action

/-- What holds of all that every part of an operation does, and of every call that fails, holds of
all that is ever done. -/
theorem Upheld.each_after {δ : Type} [Display δ] {fits : Moment → Prop}
    (h : Upheld δ (fun _ => False) fun _ history => history.Each fits)
    (hfailed : ∀ relay asked fault, fits ⟨relay, .failed asked fault⟩) {display : δ}
    {course : Course δ} (hstart : Course.start display = some course) (moves : List (Move δ)) :
    (course.after moves).history.Each fits := by
  have hnonempty : Nonempty δ := ⟨display⟩
  have hnothing : History.Each fits [] := by simp [History.Each]
  exact h.kept.after_faults (Action.Yields.ensures_each hfailed) (fun _ => hnothing) hstart moves

/-- Whether data that the agent is sent is empty exactly if it is word that there is none. -/
def Moment.Honest (moment : Moment) : Prop :=
  ∀ selection type data, moment.deed = .sent (.data selection type data) →
    (type = .none ↔ data = [])

def Deed.isData : Deed → Bool
  | sent (.data ..) => true
  | _ => false

theorem Moment.honest_of_not_data {moment : Moment} (h : moment.deed.isData = false) :
    moment.Honest := by
  intro selection type data hdeed
  rw [hdeed] at h
  cases h

theorem History.Each.aside {history : History} (h : history.Each Moment.Honest) {relay : Relay}
    {deed : Deed} (hdeed : deed.isData = false) :
    History.Each Moment.Honest (history ++ [⟨relay, deed⟩]) :=
  h.concat (Moment.honest_of_not_data hdeed)

namespace Relay

open ClipboardRelay.Action (Spares Yields)

variable {δ σ α : Type} {relay : Relay} {history : History}

abbrev Honest (action : Action δ α) (relay : Relay) (history : History) : Prop :=
  action.Yields (fun _ _ later => later.Each Moment.Honest) relay history

theorem honest_of_serving {kept : Relay → σ} {action : Action δ α}
    (hspares : action.Spares kept Deed.isServing) (h : history.Each Moment.Honest) :
    Honest action relay history := by
  refine hspares.each ?_ h
  intro relay deed hserving selection type data hdeed
  dsimp only at hdeed
  rw [hdeed] at hserving
  cases hserving

theorem honest_of_reading {kept : Relay → σ} {action : Action δ α}
    (hspares : action.Spares kept Deed.isReading) (h : history.Each Moment.Honest) :
    Honest action relay history := by
  refine hspares.each ?_ h
  intro relay deed hreading selection type data hdeed
  dsimp only at hdeed
  rw [hdeed] at hreading
  cases hreading

theorem honest_noData (relay : Relay) (selection : Selection) :
    (Moment.mk relay (.sent (.noData selection))).Honest := by
  intro _ _ _ hdeed
  cases hdeed
  simp

theorem honest_answer (relay now : Relay) (fetch : Fetch) {data : Option Bytes}
    (hdata : data ≠ some []) : (Moment.mk now (.sent (relay.answer fetch data))).Honest := by
  unfold answer
  split
  case h_1 type bytes _ =>
    split
    case isTrue => exact honest_noData now fetch.selection
    case isFalse meaningful =>
      intro _ _ _ hdeed
      cases hdeed
      exact iff_of_false meaningful fun hempty => hdata (congrArg some hempty)
  case h_2 => exact honest_noData now fetch.selection

theorem startFetch_honest (h : history.Each Moment.Honest) :
    Honest (startFetch : Action δ Unit) relay history := by
  refine startFetch_ensures_of (fun _ => h) fun fetch rest atom _ _ => ⟨?_, fun _ => trivial⟩
  exact (h.aside rfl).aside rfl

theorem queueFetch_honest (fetch : Fetch) (h : history.Each Moment.Honest) :
    Honest (queueFetch fetch : Action δ Unit) relay history :=
  queueFetch_ensures_of fetch (fun _ => startFetch_honest h) fun _ => h

theorem dropFetches_honest (selection : Selection) (h : history.Each Moment.Honest) :
    Honest (dropFetches selection : Action δ Unit) relay history := by
  have hdropping : History.Each Moment.Honest (history ++ relay.dropping selection) := by
    refine h.did fun deed hdeed => ?_
    rcases List.mem_cons.mp hdeed with rfl | hsent
    · exact Moment.honest_of_not_data rfl
    · obtain ⟨fetch, -, rfl⟩ := List.mem_map.mp hsent
      exact honest_noData _ _
  exact dropFetches_ensures_of selection (fun _ => h) (fun _ _ _ _ _ => startFetch_honest hdropping)
    fun _ _ _ _ _ => hdropping

theorem finishFetch_honest {data : Option Bytes} (hdata : data ≠ some [])
    (h : history.Each Moment.Honest) :
    Honest (finishFetch data : Action δ Unit) relay history := by
  refine finishFetch_ensures_of data (fun _ => h) fun fetch rest _ => startFetch_honest (h.did ?_)
  intro deed hdeed
  rcases List.mem_append.mp hdeed with hnoted | hsent
  · split at hnoted
    · rw [List.mem_singleton.mp hnoted]
      exact Moment.honest_of_not_data rfl
    · cases hnoted
  · rw [List.mem_singleton.mp hsent]
    exact honest_answer _ _ fetch hdata

theorem changeHolder_honest (selection : Selection) (holder : Holder)
    (h : history.Each Moment.Honest) :
    Honest (changeHolder selection holder : Action δ Unit) relay history := by
  have hdropped : Honest (dropRequests selection : Action δ Unit) relay history :=
    honest_of_serving (dropRequests_spares selection) h
  refine Yields.bind hdropped fun _ relay history h => ?_
  refine Yields.bind (dropFetches_honest selection h) fun _ relay history h => ?_
  refine .current_bind (.update_bind ?_)
  split
  · exact h.aside rfl
  · exact h

theorem readReply_nonempty (fetch : Fetch) (notify : SelectionNotify) :
    (readReply fetch notify : Action δ Reply).Yields (fun reply _ _ => reply ≠ .data [])
      relay history := by
  refine .current_bind ?_
  dsimp only
  split
  · nofun
  split
  · nofun
  refine ensures_call_bind (fun found => ?_) fun _ => trivial
  split
  · nofun
  split
  · split
    · exact ⟨fun _ => nofun, fun _ => trivial⟩
    · exact ⟨fun _ => ⟨fun _ => nofun, fun _ => trivial⟩, fun _ => trivial⟩
  · refine ensures_call_bind (fun _ => ?_) fun _ => trivial
    have hchecked {property : Property} {relay : Relay} {history : History} :
        (checkProperty fetch.selection fetch.target property : Action δ Bool).Yields
          (fun _ _ _ => True) relay history :=
      (checkProperty_spares _ _ _).yields fun _ _ _ _ _ => trivial
    refine hchecked.bind fun fits _ _ _ => ?_
    split
    · split
      case isTrue => nofun
      case isFalse hsome =>
        intro hdata
        exact hsome (List.isEmpty_iff.mpr (Reply.data.inj hdata))
    · nofun

theorem receiveReply_honest (notify : SelectionNotify) (h : history.Each Moment.Honest) :
    Honest (receiveReply notify : Action δ Unit) relay history := by
  refine .current_bind ?_
  split
  · exact h.aside rfl
  case h_2 fetch _ _ =>
    refine Yields.bind (honest_of_reading (reading_of_looking (checkReply_spares _ notify)) h) ?_
    intro fits relay history h
    split
    · have hread : (readReply fetch notify : Action δ Reply).Yields (fun reply _ later =>
          later.Each Moment.Honest ∧ reply ≠ .data []) relay history :=
        (honest_of_reading (readReply_spares fetch notify) h).and (readReply_nonempty fetch notify)
      refine Yields.bind hread ?_
      rintro reply relay history ⟨h, hsome⟩
      cases reply with
      | pending => exact h
      | data bytes =>
        refine finishFetch_honest (fun hempty => hsome ?_) h
        rw [Option.some.inj hempty]
      | failed => exact finishFetch_honest (by decide) h
    · exact finishFetch_honest (by decide) h

theorem handleConversion_honest (notify : SelectionNotify) (h : history.Each Moment.Honest) :
    Honest (handleConversion notify : Action δ Unit) relay history := by
  refine .current_bind ?_
  split
  · exact receiveReply_honest notify h
  refine .update_bind ?_
  split
  · exact receiveReply_honest notify h
  · have hlate (fetch : Fetch) : (do
        remark fetch.selection .lateReply
        if notify.property ≠ Atom.null ∧ notify.requestor = relay.window then
          call (.deleteProperty notify.requestor notify.property)
        else pure () : Action δ Unit).Spares (fun relay => relay) Deed.isReading := by
      refine .bind (spares_remark rfl) fun _ => ?_
      split
      · exact spares_call fun _ => rfl
      · exact .pure
    exact honest_of_reading (hlate _) h

theorem readChunk_honest (fetch : Fetch) (property : Atom) (h : history.Each Moment.Honest) :
    Honest (readChunk fetch property : Action δ Unit) relay history := by
  refine .current_bind (ensures_call_bind (fun found => ?_) fun _ => trivial)
  have hread : History.Each Moment.Honest
      (history ++ [⟨relay, .called (.getProperty relay.window property true) found⟩]) :=
    h.aside rfl
  have hfailed {relay : Relay} {history : History} (what : Remark)
      (h : history.Each Moment.Honest) :
      Honest (do
        remark fetch.selection what
        finishFetch none : Action δ Unit) relay history := by
    rw [Honest, Yields, Action.ensures_bind, ensures_remark]
    exact finishFetch_honest (by decide) (h.aside rfl)
  split
  · exact hfailed _ hread
  refine Yields.bind
    (honest_of_reading (reading_of_looking (checkProperty_spares _ _ _)) hread) ?_
  intro fits relay history h
  split
  · split
    · refine .current_bind (.update_bind ?_)
      split
      · exact hfailed _ h
      · rw [Yields, Action.ensures_bind, ensures_remark]
        rename_i hsome
        refine finishFetch_honest (fun hempty => hsome ?_) (h.aside rfl)
        exact List.isEmpty_iff.mpr (Option.some.inj hempty)
    · exact .update_bind (.current_bind (h.aside rfl))
  · exact finishFetch_honest (by decide) h

theorem handleStored_honest (window : Window) (property : Atom) (h : history.Each Moment.Honest) :
    Honest (handleStored window property : Action δ Unit) relay history := by
  refine .current_bind ?_
  split
  · split
    · exact h
    split
    · exact readChunk_honest _ _ h
    · exact h
  · exact h

theorem handleOwner_honest (selection : Atom) (owner : Window) (h : history.Each Moment.Honest) :
    Honest (handleOwner selection owner : Action δ Unit) relay history := by
  refine .current_bind ?_
  split
  · exact h
  case h_2 slot _ =>
    rw [Yields, Action.ensures_bind, ensures_remark]
    have hnoted : History.Each Moment.Honest
        (history ++ [⟨relay, .noted (.about slot (.newOwner owner))⟩]) := h.aside rfl
    split
    · exact hnoted
    refine Yields.bind (changeHolder_honest slot .nobody hnoted) fun _ relay history h => ?_
    split
    · exact h
    · exact ensures_call_bind (fun _ => h.aside rfl) fun _ => trivial

theorem acceptTargets_honest (selection : Selection) (offered : List Atom)
    (h : history.Each Moment.Honest) :
    Honest (acceptTargets selection offered : Action δ Unit) relay history := by
  have hlisted : (remarkTargets selection .targetsReceived offered : Action δ Unit).Spares
      (fun relay => relay) Deed.isReading :=
    spares_remarkTargets (fun _ => rfl) fun _ => rfl
  refine Yields.bind (honest_of_reading hlisted h) fun _ relay history h => .current_bind ?_
  split
  · exact h.aside rfl
  · rw [Yields, Action.ensures_bind, ensures_send]
    exact changeHolder_honest selection _ (h.aside rfl)

theorem handleTargets_honest (notify : SelectionNotify) (h : history.Each Moment.Honest) :
    Honest (handleTargets notify : Action δ Unit) relay history := by
  have hdiscarded {relay : Relay} {history : History} {notice : Notice}
      (h : history.Each Moment.Honest) :
      Honest (do
        note notice
        discardTargets notify : Action δ Unit) relay history := by
    rw [Honest, Yields, Action.ensures_bind, ensures_note]
    exact honest_of_reading (reading_of_looking (discardTargets_spares notify)) (h.aside rfl)
  refine .current_bind ?_
  split
  case h_1 => exact hdiscarded h
  case h_2 selection _ =>
    rcases relay.slots.arrive selection with ⟨arrival, slots⟩
    refine .update_bind ?_
    cases arrival with
    | unexpected | stale => exact hdiscarded h
    | current =>
      dsimp only
      split
      · exact hdiscarded h
      have hread : (readTargets selection notify : Action δ (Option (List Atom))).Spares
          besidesReader Deed.isReading := reading_of_looking (readTargets_spares selection notify)
      refine Yields.bind (honest_of_reading hread h) fun offered relay history h => ?_
      split
      · exact h
      · exact acceptTargets_honest _ _ h

theorem handle_honest (event : Event) (h : history.Each Moment.Honest) :
    Honest (handle event : Action δ Unit) relay history := by
  cases event with
  | ownerChanged selection owner => exact handleOwner_honest selection owner h
  | selectionNotify notify =>
    refine .current_bind ?_
    split
    · exact handleTargets_honest notify h
    · exact handleConversion_honest notify h
  | selectionRequest request => exact honest_of_serving (queueRequest_spares request) h
  | propertyStored window property => exact handleStored_honest window property h
  | propertyDeleted window property =>
    exact honest_of_serving (handleDeleted_spares window property) h
  | rootResized size =>
    refine .current_bind ?_
    split
    · exact h
    · exact .update_bind (.current_bind (h.aside rfl))
  | protocolError text => exact h.aside rfl
  | other kind => exact h.aside rfl
  | selectionCleared selection => exact h
  | mappingChanged => exact h

theorem upheld_honest [Display δ] :
    Upheld δ (fun _ => False) fun _ history => history.Each Moment.Honest where
  lasting _ := id
  fresh _ := by simp [History.Each]
  idle {relay history deed} hidle h := by
    refine h.concat ?_
    rintro selection type data rfl
    cases type with
    | none =>
      cases data with
      | nil => simp
      | cons => cases hidle
    | _ => cases hidle
  resized _ h := h
  queues {relay history operation fetch} haccepted h := by
    have hbegan : History.Each Moment.Honest (history ++ [⟨relay, .began operation⟩]) :=
      h.aside rfl
    exact (queueFetch_honest fetch hbegan).mono fun _ _ _ => .inr
  changes selection holder h := (changeHolder_honest selection holder h).mono fun _ _ _ => .inr
  delivers selection type data h :=
    (honest_of_serving (deliver_spares selection type data) h).mono fun _ _ _ => .inr
  handles {relay history event} _ h := by
    have hpolled : History.Each Moment.Honest
        (history ++ [⟨relay, .called .pollEvent (some event)⟩]) := h.aside rfl
    exact (handle_honest event hpolled).mono fun _ _ _ => .inr

end Relay

/-- Whatever the display does, the agent is sent empty data exactly if it is told that there is
none. -/
theorem Course.honest_after {δ : Type} [Display δ] {display : δ} {course : Course δ}
    (hstart : start display = some course) (moves : List (Move δ)) {selection : Selection}
    {type : ContentType} {data : Bytes}
    (h : .data selection type data ∈ (course.after moves).history.messages) :
    type = .none ↔ data = [] := by
  have heach : (course.after moves).history.Each Moment.Honest :=
    Relay.upheld_honest.each_after (fun _ _ _ => nofun) hstart moves
  obtain ⟨moment, hmoment, hsent⟩ := List.mem_filterMap.mp h
  refine heach moment hmoment selection type data ?_
  split at hsent
  case h_1 hdeed =>
    rw [hdeed, Option.some.inj hsent]
  case h_2 => cases hsent

end ClipboardRelay
