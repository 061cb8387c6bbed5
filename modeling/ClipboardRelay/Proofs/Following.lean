import ClipboardRelay.Proofs.Grabbing
/-!
Following the owners of selections while something else is under way. Main statements: what outlasts
a change of the holders that may change, and looking at what an owner offers, outlasts every report
of a new owner and every answer of one.
-/

namespace ClipboardRelay

/-- Whether a selection may get another holder at some moment: an owner was reported, or an
operation began that takes it or gives it up. -/
def Moment.Unsettles (selection : Selection) (moment : Moment) : Prop :=
  moment.displaces selection = true ∨
    ∃ operation : Operation, moment.deed = .began operation ∧ operation.Changes selection

def Moment.isSurvey (moment : Moment) : Bool :=
  match moment.deed with
  | .called (.getProperty window property true) _ =>
    window = moment.relay.window ∧ property = moment.relay.vocabulary.targets
  | .called (.deleteProperty ..) _ | .called (.convertSelection ..) _ | .sent (.grab ..) => true
  | .noted (.about _ (.fetchesDropped _)) => false
  | .noted _ => true
  | _ => false

theorem Relay.changeHolder_outlasts {δ : Type} {holds : Relay → History → Prop} {relay : Relay}
    {history : History} {selection : Selection} {holder : Holder}
    (hrequests : (dropRequests selection : Action δ Unit).Yields (fun _ => holds) relay history)
    (hfetches : ∀ {relay history}, holds relay history →
      (dropFetches selection : Action δ Unit).Yields (fun _ => holds) relay history)
    (hset : ∀ {relay : Relay} {history}, holds relay history →
      holds { relay with slots := relay.slots.setHolder selection holder } history)
    (hreleased : ∀ {relay history}, holds relay history →
      holds relay (history ++ [⟨relay, .sent (.release selection)⟩])) :
    (changeHolder selection holder : Action δ Unit).Yields (fun _ => holds) relay history := by
  refine Action.Yields.bind hrequests fun _ _ _ hdropped => ?_
  refine Action.Yields.bind (hfetches hdropped) fun _ _ _ hdropped =>
    .current_bind (.update_bind ?_)
  split
  · exact hreleased (hset hdropped)
  · exact hset hdropped

/-- What outlasts the surveys of owners and the changes of selections that `may` change. -/
structure Following (δ : Type) (may : Selection → Prop) (holds : Relay → History → Prop) :
    Prop where
  surveys : ∀ {relay history deed}, (Moment.mk relay deed).isSurvey = true → holds relay history →
    holds relay (history ++ [⟨relay, deed⟩])
  counts : ∀ {relay history} slots, (∀ selection, slots.holder selection =
    relay.slots.holder selection) → holds relay history → holds { relay with slots } history
  changes : ∀ {relay history selection} holder, may selection → holds relay history →
    (Relay.changeHolder selection holder : Action δ Unit).Yields (fun _ => holds) relay history

namespace Following

open ClipboardRelay.Action (Yields)

variable {δ : Type} {may : Selection → Prop} {holds : Relay → History → Prop} {relay : Relay}
  {history : History} {selection : Selection}

theorem handleOwner (h : Following δ may holds) {atom : Atom} {owner : Window}
    (hmay : ∀ selection, relay.vocabulary.selection? atom = some selection →
      owner ≠ relay.window → may selection) (hholds : holds relay history) :
    (Relay.handleOwner atom owner : Action δ Unit).Yields (fun _ => holds) relay history := by
  refine .current_bind ?_
  split
  case h_1 => exact hholds
  case h_2 selection named =>
    rw [Yields, Action.ensures_bind, Relay.ensures_remark]
    have noted : holds relay (history ++
      [⟨relay, .noted (.about selection (.newOwner owner))⟩]) := h.surveys rfl hholds
    split
    case isTrue => exact noted
    case isFalse other =>
      refine Yields.bind (h.changes .nobody (hmay selection named other) noted)
        fun _ after later changed => ?_
      split
      · exact changed
      · refine Relay.ensures_call_bind (fun _ => ?_) fun _ => trivial
        exact h.counts _ (fun other => Slots.holder_await _ _ other) (h.surveys rfl changed)

theorem handleOwner_of_settled (h : Following δ (· ≠ selection) holds) {atom : Atom}
    {owner : Window} (hsettled : (Moment.mk relay (.called .pollEvent
      (some (.ownerChanged atom owner)))).displaces selection ≠ true)
    (hholds : holds relay history) :
    (Relay.handleOwner atom owner : Action δ Unit).Yields (fun _ => holds) relay history := by
  refine h.handleOwner ?_ hholds
  rintro selection named other rfl
  exact hsettled (decide_eq_true ⟨named, other⟩)

theorem discardTargets (h : Following δ may holds) (notify : SelectionNotify)
    (hholds : holds relay history) :
    (Relay.discardTargets notify : Action δ Unit).Yields (fun _ => holds) relay history := by
  refine .current_bind ?_
  split
  · exact hholds
  · exact ⟨fun _ => h.surveys rfl hholds, fun _ => trivial⟩

theorem readTargets (h : Following δ may holds) (selection : Selection) (notify : SelectionNotify)
    (hholds : holds relay history) :
    (Relay.readTargets selection notify : Action δ (Option (List Atom))).Yields (fun _ => holds)
      relay history := by
  have noted {history : History} (what : Remark) (offered : Option (List Atom))
      (hsurvey : (Moment.mk relay (.noted (.about selection what))).isSurvey = true)
      (hholds : holds relay history) :
      (do Relay.remark selection what; return offered : Action δ (Option (List Atom))).Yields
        (fun _ => holds) relay history :=
    h.surveys hsurvey hholds
  refine .current_bind ?_
  dsimp only
  split
  · exact noted _ _ rfl hholds
  split
  · exact noted _ _ rfl hholds
  refine Relay.ensures_call_bind (fun found => ?_) fun _ => trivial
  have hread : holds relay (history ++ [⟨relay, .called (.getProperty relay.window
    relay.vocabulary.targets true) found⟩]) := h.surveys (by simp [Moment.isSurvey]) hholds
  split
  · exact noted _ _ rfl hread
  split
  · exact noted _ _ rfl hread
  split
  · exact noted _ _ rfl hread
  · exact noted _ _ rfl hread
  · exact hread

theorem acceptTargets (h : Following δ may holds) (offered : List Atom) (hmay : may selection)
    (hholds : holds relay history) :
    (Relay.acceptTargets selection offered : Action δ Unit).Yields (fun _ => holds) relay
      history := by
  have listed (notices : List Notice) (hnotices : ∀ notice ∈ notices,
      (Moment.mk relay (.noted notice)).isSurvey = true) {history : History}
      (hholds : holds relay history) :
      holds relay (history ++ notices.map fun notice => ⟨relay, .noted notice⟩) := by
    induction notices generalizing history with
    | nil => simpa using hholds
    | cons notice notices ih =>
      rw [List.forall_mem_cons] at hnotices
      rw [List.map_cons, List.append_cons]
      exact ih hnotices.2 (h.surveys hnotices.1 hholds)
  have hlisted := listed (.about selection (.targetsReceived offered.length) ::
    offered.map fun target => .about selection (.listed target)) (by simp [Moment.isSurvey]) hholds
  unfold Relay.acceptTargets
  rw [Yields, Action.ensures_bind, Relay.remarkTargets, Relay.ensures_noteAll,
    Action.ensures_bind, Relay.ensures_current]
  split
  · exact h.surveys rfl hlisted
  · rw [Action.ensures_bind, Relay.ensures_send]
    exact h.changes _ hmay (h.surveys rfl hlisted)

theorem handleTargets (h : Following δ may holds) {notify : SelectionNotify}
    (hmay : ∀ selection, relay.vocabulary.selection? notify.selection = some selection →
      relay.slots.owner selection ≠ .agent → may selection) (hholds : holds relay history) :
    (Relay.handleTargets notify : Action δ Unit).Yields (fun _ => holds) relay history := by
  have discarded {relay : Relay} (notice : Notice) (hholds : holds relay history)
      (hsurvey : (Moment.mk relay (.noted notice)).isSurvey = true) :
      (do Relay.note notice; Relay.discardTargets notify : Action δ Unit).Yields (fun _ => holds)
        relay history :=
    h.discardTargets notify (h.surveys hsurvey hholds)
  refine .current_bind ?_
  split
  case h_1 => exact discarded _ hholds rfl
  case h_2 selection named =>
    have hcounted := h.counts (relay.slots.arrive selection).2
      (fun other => Slots.holder_arrive _ _ other) hholds
    have howner : (relay.slots.arrive selection).2.owner selection = relay.slots.owner selection :=
      congrArg Holder.owner (Slots.holder_arrive ..)
    rcases harrive : relay.slots.arrive selection with ⟨arrival, slots⟩
    rw [harrive] at hcounted howner
    refine .update_bind ?_
    cases arrival with
    | unexpected | stale => exact discarded _ hcounted rfl
    | current =>
      dsimp only at howner ⊢
      split
      case isTrue => exact discarded _ hcounted rfl
      case isFalse other =>
        refine .bind (h.readTargets selection notify hcounted) fun offered after later hholds => ?_
        split
        · exact hholds
        · exact h.acceptTargets _ (hmay selection named (howner ▸ other)) hholds

end Following

end ClipboardRelay
