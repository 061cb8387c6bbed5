import ClipboardRelay.Proofs.FetchQueue
import ClipboardRelay.Proofs.Following
/-!
A selection from which nothing is fetched. Main statement: whatever is done, the agent is answered
nothing for it before it asks for something again.
-/

namespace ClipboardRelay

open ClipboardRelay.Action (Yields)

def Deed.answers (selection : Selection) : Deed → Bool
  | sent message => message.answers selection
  | _ => false

theorem Moment.not_answers_of_plain {moment : Moment} (h : moment.isPlain = true)
    (selection : Selection) : moment.deed.answers selection = false := by
  unfold Deed.answers
  split
  case h_1 hdeed => simp [isPlain, hdeed] at h
  case h_2 => rfl

theorem Moment.not_answers_of_still {moment : Moment} (h : moment.isStill = true)
    (selection : Selection) : moment.deed.answers selection = false := by
  unfold Deed.answers
  split
  case h_1 message hdeed =>
    cases message with
    | data => simp [isStill, hdeed] at h
    | _ => rfl
  case h_2 => rfl

theorem Deed.not_answers_of_serving {deed : Deed} (h : deed.isServing = true)
    (selection : Selection) : deed.answers selection = false := by
  unfold isServing at h
  split at h
  all_goals first | rfl | cases h

theorem Relay.answers_of_answer {relay : Relay} {fetch : Fetch} {data : Option Bytes}
    {selection : Selection} (h : (relay.answer fetch data).answers selection = true) :
    fetch.selection = selection := by
  unfold Relay.answer at h
  split at h
  · split at h <;> exact of_decide_eq_true h
  · exact of_decide_eq_true h

def History.Prompted (selection : Selection) (history : History) : Prop :=
  history.Always fun before moment => moment.deed.answers selection = true →
    ∃ asking ∈ before, asking.deed.asks selection = true

/-- As long as the agent does not ask for it, nothing is fetched from a selection. -/
structure Resting (selection : Selection) (relay : Relay) (since : History) : Prop where
  idle : (∀ moment ∈ since, moment.deed.asks selection = false) →
    ∀ fetch ∈ relay.fetches, fetch.selection ≠ selection
  prompted : since.Prompted selection

namespace Resting

variable {δ α : Type} {selection : Selection} {relay after : Relay} {since added : History}

theorem asked (h : Resting selection relay since) {fetch : Fetch} (hfetch : fetch ∈ relay.fetches)
    (same : fetch.selection = selection) :
    ∃ asking ∈ since, asking.deed.asks selection = true := by
  by_contra hnone
  refine h.idle (fun moment hmoment => Bool.eq_false_iff.mpr fun hasks => ?_) fetch hfetch same
  exact hnone ⟨moment, hmoment, hasks⟩

theorem extend (h : Resting selection relay since) (hfetches : after.fetches ⊆ relay.fetches)
    (hadded : ∀ moment ∈ added, moment.deed.answers selection = true →
      ∃ fetch ∈ relay.fetches, fetch.selection = selection) :
    Resting selection after (since ++ added) where
  idle hunasked fetch hfetch := h.idle
    (fun moment hmoment => hunasked moment (List.mem_append_left _ hmoment)) fetch
    (hfetches hfetch)
  prompted := h.prompted.extend fun middle moment hmoment hanswers => by
    obtain ⟨fetch, hfetch, same⟩ := hadded moment hmoment hanswers
    obtain ⟨asking, hasking, hasks⟩ := h.asked hfetch same
    exact ⟨asking, List.mem_append_left _ hasking, hasks⟩

theorem quietly (h : Resting selection relay since) (hfetches : after.fetches ⊆ relay.fetches)
    (hadded : ∀ moment ∈ added, moment.deed.answers selection = false) :
    Resting selection after (since ++ added) :=
  h.extend hfetches fun moment hmoment hanswers => by
    rw [hadded moment hmoment] at hanswers
    cases hanswers

theorem ask (h : Resting selection relay since) {operation : Operation} {asked : Selection}
    {type : ContentType} (asks : operation.question? = some (asked, type))
    (hfetches : ∀ fetch ∈ after.fetches, fetch ∈ relay.fetches ∨ fetch.selection = asked)
    (hadded : ∀ moment ∈ added, moment.deed.answers selection = true → asked = selection) :
    Resting selection after (since ++ ⟨relay, .began operation⟩ :: added) := by
  have hasked : (Deed.began operation).asks selection = decide (asked = selection) := by
    simp [Deed.asks, Operation.asks, asks]
  constructor
  · intro hunasked fetch hfetch
    rcases hfetches fetch hfetch with hold | hnew
    · exact h.idle (fun moment hmoment => hunasked moment (List.mem_append_left _ hmoment)) fetch hold
    · have hother := hunasked ⟨relay, .began operation⟩ (by simp)
      rw [hasked] at hother
      exact hnew ▸ of_decide_eq_false hother
  · rw [List.append_cons]
    refine History.Always.extend (h.prompted.concat fun hanswers => by cases hanswers)
      fun middle moment hmoment hanswers => ?_
    refine ⟨⟨relay, .began operation⟩, by simp, ?_⟩
    rw [hasked]
    exact decide_eq_true (hadded moment hmoment hanswers)

theorem dropping (h : Resting selection relay since) (dropped : Selection) :
    Resting selection (relay.withoutFetches dropped) (since ++ relay.dropping dropped) := by
  refine h.extend List.filter_sublist.subset fun moment hmoment hanswers => ?_
  obtain ⟨deed, hdeed, rfl⟩ := List.mem_map.mp hmoment
  rcases List.mem_cons.mp hdeed with rfl | hsent
  · cases hanswers
  · obtain ⟨fetch, hfetch, rfl⟩ := List.mem_map.mp hsent
    exact ⟨fetch, List.mem_of_mem_filter hfetch, of_decide_eq_true hanswers⟩

theorem finishing (h : Resting selection relay since) (data : Option Bytes) {fetch : Fetch}
    {rest : List Fetch} (front : relay.fetches = fetch :: rest) :
    Resting selection (relay.finished data rest)
      (since ++ relay.finishing fetch data rest) := by
  refine h.extend (front ▸ List.subset_cons_self fetch rest) fun moment hmoment hanswers => ?_
  obtain ⟨deed, hdeed, rfl⟩ := List.mem_map.mp hmoment
  refine ⟨fetch, by simp [front], ?_⟩
  rcases List.mem_append.mp hdeed with hnoted | hsent
  · split at hnoted <;> simp_all [Deed.answers]
  · rw [List.mem_singleton.mp hsent] at hanswers
    exact Relay.answers_of_answer hanswers

end Resting

theorem Step.resting {selection : Selection} {stage next : Stage} (step : Step stage next)
    (h : Resting selection stage.relay stage.history) :
    Resting selection next.relay next.history := by
  have same {relay : Relay} (hfetches : relay.fetches = stage.relay.fetches) :
      relay.fetches ⊆ stage.relay.fetches := hfetches ▸ List.Subset.refl _
  cases step with
  | plain deed hplain =>
    exact h.quietly (same rfl) (by simpa using Moment.not_answers_of_plain hplain selection)
  | queueFetch operation asked type fetch asks accepted idle =>
    refine h.ask asks (fun other hother => ?_) (by simp)
    refine (List.mem_append.mp hother).imp id fun hnew => ?_
    rw [List.mem_singleton.mp hnew, Relay.selection_of_fetch? accepted]
  | decline operation asked type remark asks declined plain =>
    refine h.ask asks (fun _ => .inl) ?_
    simp [Deed.answers, Wire.Message.noData, Wire.Message.answers]
  | dropRequests =>
    dsimp only
    split <;> exact h.quietly (same rfl) (by simp [Deed.answers])
  | dropFetches dropped =>
    have hdropped := h.dropping dropped
    dsimp only
    split <;> exact ⟨hdropped.idle, hdropped.prompted⟩
  | finishFetch data fetch rest front started => exact h.finishing data front
  | claim claimed property words notices =>
    exact h.quietly (same rfl) (by simp [Deed.answers, Wire.Message.answers, or_imp, forall_and])
  | surrender =>
    refine h.quietly (same rfl) ?_
    split <;> simp [Deed.answers, Wire.Message.answers]
  | rest | skipStart | forget | read | countOff | install => exact ⟨h.idle, h.prompted⟩
  | _ => exact h.quietly (same rfl) (by simp [Deed.answers, Wire.Message.answers])

namespace Resting

variable {δ : Type} {selection : Selection} {relay : Relay} {since : History}

theorem did (h : Resting selection relay since) {deed : Deed}
    (hdeed : deed.answers selection = false) :
    Resting selection relay (since ++ [⟨relay, deed⟩]) :=
  h.quietly (List.Subset.refl _) (List.forall_mem_singleton.mpr hdeed)

theorem serves (h : Resting selection relay since) {action : Action δ Unit}
    (hspares : action.Spares Relay.besidesRequests Deed.isServing) :
    action.Yields (fun _ => Resting selection) relay since := by
  refine hspares.yields fun _ after added hkept hadded => h.quietly ?_ fun moment hmoment =>
    Deed.not_answers_of_serving (hadded moment hmoment) selection
  rw [show after.fetches = relay.fetches from (congrArg Relay.fetches hkept :)]
  exact List.Subset.refl _

theorem startFetch (h : Resting selection relay since) :
    (Relay.startFetch : Action δ Unit).Yields (fun _ => Resting selection) relay since := by
  refine Relay.startFetch_ensures_of (fun _ => h) fun fetch rest atom _ _ =>
    ⟨?_, fun _ => trivial⟩
  rw [List.append_assoc]
  exact h.quietly (List.Subset.refl _) (by simp [Deed.answers])

theorem queueFetch (h : Resting selection relay since) {operation : Operation} {fetch : Fetch}
    (accepted : (Moment.mk relay (.began operation)).accepted? = some fetch) :
    (Relay.queueFetch fetch : Action δ Unit).Yields (fun _ => Resting selection) relay
      (since ++ [⟨relay, .began operation⟩]) := by
  obtain ⟨⟨asked, type⟩, asks, hfetch⟩ := Option.bind_eq_some_iff.mp accepted
  have queued {fetches : List Fetch} (hfetches : fetches ⊆ relay.fetches ++ [fetch]) :
      Resting selection (relay.withFetches fetches) (since ++ [⟨relay, .began operation⟩]) := by
    refine h.ask asks (fun other hother => ?_) (by simp)
    refine (List.mem_append.mp (hfetches hother)).imp id fun hnew => ?_
    rw [List.mem_singleton.mp hnew, Relay.selection_of_fetch? hfetch]
  refine Relay.queueFetch_ensures_of fetch (fun empty => ?_) fun _ => ?_
  · exact (queued (List.subset_append_right _ _)).startFetch
  · exact queued (List.Subset.refl _)

theorem changeHolder (h : Resting selection relay since) (changed : Selection) (holder : Holder) :
    (Relay.changeHolder changed holder : Action δ Unit).Yields (fun _ => Resting selection) relay
      since := by
  refine Relay.changeHolder_outlasts (h.serves (Relay.dropRequests_spares changed)) (fun h => ?_)
    (fun h => ⟨h.idle, h.prompted⟩) fun h => h.did rfl
  refine Relay.dropFetches_ensures_of changed (fun _ => h) (fun _ _ _ _ _ => ?_) fun _ _ _ _ _ => ?_
  · have hdropped := h.dropping changed
    exact startFetch ⟨hdropped.idle, hdropped.prompted⟩
  · exact h.dropping changed

/-- Whatever is done, there is no answer before a question. -/
theorem kept [Display δ] : Kept δ (fun _ _ => True) (fun _ => False) (Resting selection) where
  lasting _ h := h.elim
  waits _ _ := .inr trivial
  resumes _ _ _ := .inr trivial
  seizes _ _ := .inr trivial
  still hstill h := h.did (Moment.not_answers_of_still hstill selection)
  resized _ h := ⟨h.idle, h.prompted⟩
  declines asks _ _ h := h.ask asks (fun _ => .inl)
    (by simp [Deed.answers, Wire.Message.noData, Wire.Message.answers])
  queues accepted h := (h.queueFetch accepted).mono fun _ _ _ => .inr
  changes holder _ h := (h.changeHolder _ holder).mono fun _ _ _ => .inr
  supplies _ h := ((h.did rfl).serves (Relay.deliver_spares _ _ _)).mono fun _ _ _ => .inr
  handles {relay history event} _ h := by
    have hhandled := Relay.handle_ensures (δ := δ) ⟨relay, {}, history⟩ event rfl
    refine hhandled.mono ?_ fun _ _ _ => trivial
    rintro - after later ⟨duty, path, -⟩
    exact .inr (path.keeps (fun _ _ step => step.resting) h)

end Resting

end ClipboardRelay
