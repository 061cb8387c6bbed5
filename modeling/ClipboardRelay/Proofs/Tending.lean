import ClipboardRelay.Proofs.FetchQueue
import ClipboardRelay.Proofs.Upholding
/-!
Tending the queue of fetches. Three actions change it: a question is put into it, the fetches for a
selection are dropped, and the one at its head ends. Main statement: what these three keep, and what
outlasts all that is done aside, is kept by every part of an operation.
-/

namespace ClipboardRelay

variable {δ σ α : Type}

theorem History.keep_deeds {holds : Relay → History → Prop} {relay : Relay} {history : History}
    {deeds : List Deed} (hdid : ∀ deed ∈ deeds, ∀ history, holds relay history →
      holds relay (history ++ [⟨relay, deed⟩])) (h : holds relay history) :
    holds relay (history ++ deeds.map (Moment.mk relay)) := by
  induction deeds generalizing history with
  | nil => rwa [List.map_nil, List.append_nil]
  | cons deed deeds ih =>
    rw [List.map_cons, List.append_cons]
    apply ih fun other hother => hdid other (List.mem_cons_of_mem _ hother)
    exact hdid deed List.mem_cons_self history h

theorem Action.Spares.keeps {kept : Relay → σ} {apart : Deed → Bool}
    {holds : Relay → History → Prop} {action : Action δ α} (h : action.Spares kept apart)
    (hchanged : ∀ relay after history, kept after = kept relay → holds relay history →
      holds after history)
    (hdid : ∀ relay history deed, apart deed = true → holds relay history →
      holds relay (history ++ [⟨relay, deed⟩]))
    {relay : Relay} {history : History} (hholds : holds relay history) :
    action.Yields (fun _ => holds) relay history := by
  induction action generalizing relay history with
  | done value => exact hholds
  | step effect next ih =>
    have heffect := h.1
    cases effect with
    | current => exact ih relay (h.2 relay) hholds
    | display => exact fun display => ih display (h.2 display) hholds
    | update change => exact ih () (h.2 ()) (hchanged _ _ _ (heffect relay) hholds)
    | call asked =>
      refine ⟨fun answer => ?_, fun _ => trivial⟩
      exact ih answer (h.2 answer) (hdid _ _ _ (heffect answer) hholds)
    | send messages =>
      apply ih () (h.2 ())
      have hsent : ∀ deed ∈ messages.map Deed.sent, apart deed = true :=
        List.forall_mem_map.mpr heffect
      have hlater := History.keep_deeds (fun deed hdeed _ => hdid _ _ _ (hsent deed hdeed)) hholds
      rwa [List.map_map] at hlater
    | note notices =>
      apply ih () (h.2 ())
      have hnoted : ∀ deed ∈ notices.map Deed.noted, apart deed = true :=
        List.forall_mem_map.mpr heffect
      have hlater := History.keep_deeds (fun deed hdeed _ => hdid _ _ _ (hnoted deed hdeed)) hholds
      rwa [List.map_map] at hlater

def Deed.keepsLine : Deed → Bool
  | began operation => operation.question?.isNone
  | called (.convertSelection ..) _ | sent (.data ..)
  | noted (.about _ (.fetchesDropped _)) => false
  | _ => true

theorem Moment.aside_of_still {moment : Moment} (h : moment.isStill = true) :
    moment.deed.keepsLine = true := by
  unfold isStill isIdle at h
  split at h
  case h_1 operation hdeed => rwa [hdeed]
  case h_2 => cases h
  case h_3 hbegan hsent =>
    split at h
    case h_1 operation hdeed => exact absurd hdeed (hbegan operation)
    case h_9 hdeed => exact absurd hdeed (hsent _ _ _)
    all_goals simp_all [Deed.keepsLine]

namespace Relay

open ClipboardRelay.Action (Spares)

def fetchLine (relay : Relay) : Vocabulary × List Fetch :=
  (relay.vocabulary, relay.fetches)

def fetchRecord (relay : Relay) : (Vocabulary × List Fetch) × List Fetch :=
  (relay.fetchLine, relay.abandoned)

theorem fetchRecord_spares_of_serving {action : Action δ α}
    (h : action.Spares besidesRequests Deed.isServing) : action.Spares fetchRecord Deed.keepsLine :=
  h.mono (fun relay => relay.fetchRecord) (fun _ => rfl) fun deed hserving => by
    unfold Deed.isServing at hserving
    split at hserving <;> simp_all [Deed.keepsLine]

theorem fetchRecord_spares_of_reading {action : Action δ α}
    (h : action.Spares besidesReader Deed.isReading) : action.Spares fetchRecord Deed.keepsLine :=
  h.mono (fun relay => relay.fetchRecord) (fun _ => rfl) fun deed hreading => by
    unfold Deed.isReading at hreading
    split at hreading
    case h_1 | h_2 => rfl
    case h_3 =>
      unfold Deed.isLooking at hreading
      split at hreading <;> simp_all [Deed.keepsLine]

theorem fetchRecord_spares_of_looking {action : Action δ α}
    (h : action.Spares (fun relay => relay) Deed.isLooking) :
    action.Spares fetchRecord Deed.keepsLine :=
  fetchRecord_spares_of_reading (reading_of_looking h)

/-- An owner's answer is looked at, and ends in a change of the holder at most. `holds` is kept
until then, and `ended` is what comes of it. -/
theorem handleTargets_yields {holds ended : Relay → History → Prop} {relay : Relay}
    {history : History} (h : holds relay history) {notify : SelectionNotify}
    (hlooked : ∀ {α : Type} {action : Action δ α} {relay history},
      action.Spares (fun relay => relay) Deed.isLooking → holds relay history →
        action.Yields (fun _ => holds) relay history)
    (harrived : ∀ selection, relay.vocabulary.selection? notify.selection = some selection →
      holds (relay.withSlots (relay.slots.arrive selection).2) history)
    (hgrabbed : ∀ selection types relay history, holds relay history →
      holds relay (history ++ [⟨relay, .sent (.grab selection types)⟩]))
    (hchanged : ∀ selection holder after later,
      relay.vocabulary.selection? notify.selection = some selection → holds after later →
        (changeHolder selection holder : Action δ Unit).Yields (fun _ => ended) after later)
    (hended : ∀ relay history, holds relay history → ended relay history) :
    (handleTargets notify : Action δ Unit).Yields (fun _ => ended) relay history := by
  have looked {action : Action δ Unit} {relay : Relay} {history : History}
      (hspares : action.Spares (fun relay => relay) Deed.isLooking) (h : holds relay history) :
      action.Yields (fun _ => ended) relay history :=
    (hlooked hspares h).mono fun _ => hended
  apply Action.Yields.current_bind
  split
  case h_1 => exact looked (.bind (spares_note rfl) fun _ => discardTargets_spares notify) h
  case h_2 selection named =>
    have arrived := harrived selection named
    rcases harrive : relay.slots.arrive selection with ⟨arrival, slots⟩
    rw [harrive] at arrived
    apply Action.Yields.update_bind
    cases arrival with
    | unexpected | stale =>
      exact looked (.bind (spares_remark rfl) fun _ => discardTargets_spares notify) arrived
    | current =>
      dsimp only
      split
      · exact looked (.bind (spares_remark rfl) fun _ => discardTargets_spares notify) arrived
      apply Action.Yields.bind (hlooked (readTargets_spares selection notify) arrived)
      intro offered middle later h
      split
      · exact hended _ _ h
      apply Action.Yields.bind (hlooked (spares_remarkTargets (fun _ => rfl) fun _ => rfl) h)
      intro _ middle later h
      apply Action.Yields.current_bind
      split
      · exact looked (spares_remark rfl) h
      · rw [Action.Yields, Action.ensures_bind, ensures_send]
        exact hchanged selection _ _ _ named (hgrabbed _ _ _ _ h)

end Relay

open Relay

/-- What is kept by the actions that change the queue of fetches, and by all that is done aside. -/
structure Tended (δ : Type) [Display δ] (excused : History → Prop)
    (holds : Relay → History → Prop) : Prop where
  lasting : ∀ {history} added, excused history → excused (history ++ added)
  changed : ∀ {relay after history}, after.fetchLine = relay.fetchLine →
    after.abandoned.Sublist relay.abandoned → holds relay history → holds after history
  aside : ∀ {relay history deed}, deed.keepsLine = true → holds relay history →
    holds relay (history ++ [⟨relay, deed⟩])
  discovers : ∀ {relay history} atom property, holds relay history → holds relay (history ++
    [⟨relay, .called (.convertSelection atom relay.vocabulary.targets property) ()⟩])
  declines : ∀ {relay history operation selection type what},
    operation.question? = some (selection, type) → relay.fetch? selection type = none →
    (Deed.noted (.about selection what)).keepsLine = true → holds relay history →
    holds relay (history ++ [⟨relay, .began operation⟩, ⟨relay, .noted (.about selection what)⟩,
      ⟨relay, .sent (.noData selection)⟩])
  queues : ∀ {relay history operation fetch},
    (Moment.mk relay (.began operation)).accepted? = some fetch → holds relay history →
    (queueFetch fetch : Action δ Unit).Upholds excused holds relay
      (history ++ [⟨relay, .began operation⟩])
  drops : ∀ {relay history} selection, holds relay history →
    (dropFetches selection : Action δ Unit).Yields (fun _ => holds) relay history
  finishes : ∀ {relay history} data, holds relay history →
    (finishFetch data : Action δ Unit).Yields (fun _ => holds) relay history

namespace Tended

variable [Display δ] {excused : History → Prop} {holds : Relay → History → Prop}
  {relay : Relay} {history : History}

theorem yields (h : Tended δ excused holds) (hholds : holds relay history) {action : Action δ α}
    (hspares : action.Spares fetchRecord Deed.keepsLine) :
    action.Yields (fun _ => holds) relay history := by
  refine hspares.keeps ?_ ?_ hholds
  · intro relay after history hrecord
    obtain ⟨hline, habandoned⟩ := Prod.mk.inj hrecord
    exact h.changed hline (habandoned ▸ List.Sublist.refl _)
  · exact fun _ _ _ => h.aside

theorem changeHolder (h : Tended δ excused holds) (hholds : holds relay history)
    (selection : Selection) (holder : Holder) :
    (Relay.changeHolder selection holder : Action δ Unit).Yields (fun _ => holds) relay
      history := by
  apply Action.Yields.bind
    (h.yields hholds (fetchRecord_spares_of_serving (dropRequests_spares selection)))
  intro _ relay history hholds
  apply Action.Yields.bind (h.drops selection hholds)
  intro _ relay history hholds
  apply h.yields hholds
  refine .bind spares_current fun relay => .bind (spares_update fun _ => rfl) fun _ => ?_
  split
  · exact spares_send rfl
  · exact .pure

theorem handleOwner (h : Tended δ excused holds) (hholds : holds relay history) (atom : Atom)
    (owner : Window) :
    (Relay.handleOwner atom owner : Action δ Unit).Yields (fun _ => holds) relay history := by
  apply Action.Yields.current_bind
  split
  case h_1 => exact hholds
  case h_2 slot named =>
    have noted : holds relay (history ++ [⟨relay, .noted (.about slot (.newOwner owner))⟩]) :=
      h.aside rfl hholds
    rw [Action.Yields, Action.ensures_bind, ensures_remark]
    split
    · exact noted
    have hchanged := (h.changeHolder noted slot .nobody).and
      ((changeHolder_spares slot .nobody).yields_spared .refl)
    apply Action.Yields.bind hchanged
    rintro _ later history ⟨hholds, hspared⟩
    split
    · exact hholds
    -- The owner is asked by the name that was known when the event came.
    have hsame : later.vocabulary = relay.vocabulary := congrArg (·.1.2) hspared.kept
    rw [← hsame]
    apply ensures_call_bind _ fun _ => trivial
    exact fun _ => h.yields (h.discovers _ _ hholds) (spares_update fun _ => rfl)

theorem handleTargets (h : Tended δ excused holds) (hholds : holds relay history)
    (notify : SelectionNotify) :
    (Relay.handleTargets notify : Action δ Unit).Yields (fun _ => holds) relay history := by
  apply handleTargets_yields hholds
  · intro _ _ relay history hspares hholds
    exact h.yields hholds (fetchRecord_spares_of_looking hspares)
  · intro selection _
    have hline : (relay.withSlots (relay.slots.arrive selection).2).fetchLine = relay.fetchLine :=
      rfl
    exact h.changed hline (List.Sublist.refl _) hholds
  · intro _ _ relay history hholds
    exact h.aside rfl hholds
  · intro selection holder relay history _ hholds
    exact h.changeHolder hholds selection holder
  · exact fun _ _ hholds => hholds

theorem receiveReply (h : Tended δ excused holds) (hholds : holds relay history)
    (notify : SelectionNotify) :
    (Relay.receiveReply notify : Action δ Unit).Yields (fun _ => holds) relay history := by
  apply Action.Yields.current_bind
  split
  · exact h.yields hholds (spares_note rfl)
  apply Action.Yields.bind
    (h.yields hholds (fetchRecord_spares_of_looking (checkReply_spares _ notify)))
  intro fits relay history hholds
  split
  · apply Action.Yields.bind
      (h.yields hholds (fetchRecord_spares_of_reading (readReply_spares _ notify)))
    intro reply relay history hholds
    cases reply with
    | pending => exact hholds
    | data | failed => exact h.finishes _ hholds
  · exact h.finishes _ hholds

theorem handleConversion (h : Tended δ excused holds) (hholds : holds relay history)
    (notify : SelectionNotify) :
    (Relay.handleConversion notify : Action δ Unit).Yields (fun _ => holds) relay history := by
  apply Action.Yields.current_bind
  split
  · exact h.receiveReply hholds notify
  case h_2 found _ =>
    have forgotten : holds (relay.withAbandoned (relay.abandoned.eraseP
        (answers relay.vocabulary notify))) history :=
      h.changed (Eq.refl relay.fetchLine) List.eraseP_sublist hholds
    apply Action.Yields.update_bind
    split
    · exact h.receiveReply forgotten notify
    apply h.yields forgotten
    refine .bind (spares_remark rfl) fun _ => ?_
    split
    · exact spares_call fun _ => rfl
    · exact .pure

theorem readChunk (h : Tended δ excused holds) (hholds : holds relay history) (fetch : Fetch)
    (property : Atom) :
    (Relay.readChunk fetch property : Action δ Unit).Yields (fun _ => holds) relay history := by
  apply Action.Yields.current_bind
  refine .bind (h.yields hholds (spares_call fun _ => rfl)) ?_
  intro found relay history hholds
  split
  · exact .bind (h.yields hholds (spares_remark rfl)) fun _ _ _ => h.finishes _
  apply Action.Yields.bind
    (h.yields hholds (fetchRecord_spares_of_looking (checkProperty_spares _ _ _)))
  intro fits relay history hholds
  split
  · split
    · refine .current_bind (.bind (h.yields hholds (spares_update fun _ => rfl)) ?_)
      intro _ relay history hholds
      split
      · exact .bind (h.yields hholds (spares_remark rfl)) fun _ _ _ => h.finishes _
      · exact .bind (h.yields hholds (spares_remark rfl)) fun _ _ _ => h.finishes _
    · apply h.yields hholds
      refine .bind (spares_update fun _ => rfl) fun _ => .bind spares_current fun _ => ?_
      exact spares_remark rfl
  · exact h.finishes _ hholds

theorem handleStored (h : Tended δ excused holds) (hholds : holds relay history)
    (window : Window) (property : Atom) :
    (Relay.handleStored window property : Action δ Unit).Yields (fun _ => holds) relay history := by
  apply Action.Yields.current_bind
  split
  · split
    · exact hholds
    split
    · exact h.readChunk hholds _ _
    · exact hholds
  · exact hholds

theorem handle (h : Tended δ excused holds) (hholds : holds relay history) {event : Event}
    (hevent : event.isIdle = false) :
    (Relay.handle event : Action δ Unit).Yields (fun _ => holds) relay history := by
  cases event with
  | ownerChanged atom owner => exact h.handleOwner hholds atom owner
  | selectionNotify notify =>
    apply Action.Yields.current_bind
    split
    · exact h.handleTargets hholds notify
    · exact h.handleConversion hholds notify
  | selectionRequest request =>
    exact h.yields hholds (fetchRecord_spares_of_serving (queueRequest_spares request))
  | propertyStored window property => exact h.handleStored hholds window property
  | propertyDeleted window property =>
    exact h.yields hholds (fetchRecord_spares_of_serving (handleDeleted_spares window property))
  | rootResized | protocolError | other | selectionCleared | mappingChanged => cases hevent

/-- What is kept by the actions that change the queue of fetches is kept by every part of an
operation. -/
theorem kept (h : Tended δ excused holds) : Kept δ (fun _ _ => True) excused holds where
  lasting := h.lasting
  waits _ _ := .inr trivial
  resumes _ _ _ := .inr trivial
  seizes _ _ := .inr trivial
  still hstill := h.aside (Moment.aside_of_still hstill)
  resized _ := h.changed rfl (List.Sublist.refl _)
  declines {relay history operation selection type what} asks hnone hstill :=
    h.declines asks hnone (Moment.aside_of_still hstill)
  queues := h.queues
  changes holder _ hholds := (h.changeHolder hholds _ holder).mono fun _ _ _ => .inr
  supplies {relay history operation selection type data} hsupplies hholds := by
    have haside : (Deed.began operation).keepsLine = true := by
      rcases hsupplies with rfl | rfl <;> rfl
    have delivered := h.yields (h.aside haside hholds)
      (fetchRecord_spares_of_serving (deliver_spares selection type data))
    exact delivered.mono fun _ _ _ => .inr
  handles {relay history event} hevent hholds := by
    have polled : holds relay (history ++ [⟨relay, .called .pollEvent (some event)⟩]) :=
      h.aside rfl hholds
    exact (h.handle polled hevent).mono fun _ _ _ => .inr

end Tended

end ClipboardRelay
