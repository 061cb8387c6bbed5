import ClipboardRelay.Memory.Display
import ClipboardRelay.Proofs.LateReplies
import ClipboardRelay.Proofs.Tending
/-!
What a change of hands of one selection leaves as it is for the others. All selections share the
queues, the reader and the writer, so what is dropped for one selection may start the next fetch or
serve the next request for another. Main statement: nothing that is kept for another selection is
lost or answered, except that its requests are served once they have come to the head of the queue.
-/

namespace ClipboardRelay

variable {δ α σ : Type}

/-- Whether an event says that a selection has a new owner, or answers a question for the targets
of its owner. -/
def Event.isAbout (vocabulary : Vocabulary) (selection : Selection) : Event → Bool
  | ownerChanged atom _ => vocabulary.atom? selection = some atom
  | selectionNotify notify =>
    notify.target = vocabulary.targets ∧ vocabulary.atom? selection = some notify.selection
  | _ => false

def Moment.served? (moment : Moment) : Option DesktopRequest :=
  match moment.deed with
  | .called (.notifyRequestor event _) _ => moment.relay.requests.head?.filter (·.event = event)
  | _ => none

def History.servings (history : History) : List DesktopRequest :=
  history.filterMap Moment.served?

@[simp] theorem History.servings_append (first second : History) :
    (first ++ second).servings = first.servings ++ second.servings :=
  List.filterMap_append

/-- What was kept for a selection in an earlier relay is kept for it still, after some history. -/
structure Unmoved (selection : Selection) (before after : Relay) (done : History) : Prop where
  vocabulary : after.vocabulary = before.vocabulary
  slot : after.slots.get selection = before.slots.get selection
  fetches : after.fetchesOf selection = before.fetchesOf selection
  unanswered : done.answers selection = 0
  /-- A fetch at the head of the queue stays there, and so does what was read for it. -/
  reading : ∀ fetch ∈ before.fetches.head?, fetch.selection = selection →
    after.fetches.head? = some fetch ∧ after.reader = before.reader
  sending : ∀ request ∈ before.requests.head?, request.selection = selection →
    after.requests.head? = some request ∧ after.writer = before.writer
  /-- Only the first requests leave the queue, each answered when it was at the head. -/
  requests : ∃ served, before.requestsOf selection = served ++ after.requestsOf selection ∧
    served.Sublist done.servings

def Deed.leavesOpen (selection : Selection) : Deed → Bool
  | sent message => !message.answers selection
  | _ => true

theorem Vocabulary.selection?_of_atom? {vocabulary : Vocabulary} {selection : Selection}
    {atom : Atom} (hdistinct : vocabulary.clipboard ≠ vocabulary.primary)
    (h : vocabulary.atom? selection = some atom) :
    vocabulary.selection? atom = some selection := by
  cases selection with
  | clipboard =>
    cases h
    rw [selection?, if_pos rfl]
  | primary =>
    cases h
    rw [selection?, if_neg hdistinct.symm, if_pos rfl]
  | secondary => cases h

namespace Relay

open ClipboardRelay.Action (Spares)

/-- All of a relay that has to do with one selection, and the queues that it shares with others. -/
def share (selection : Selection) (relay : Relay) : (Vocabulary × Slot) ×
    (List Fetch × Incremental.Reader) × List DesktopRequest × Option Incremental.Writer :=
  ((relay.vocabulary, relay.slots.get selection), (relay.fetches, relay.reader),
    relay.requests, relay.writer)

variable {selection : Selection}

theorem spares_share_of_serving {action : Action δ α}
    (h : action.Spares (share selection) Deed.isServing) :
    action.Spares (share selection) (Deed.leavesOpen selection) :=
  h.mono (fun share => share) (fun _ => rfl) fun deed hserving => by
    unfold Deed.isServing at hserving
    split at hserving <;> simp_all [Deed.leavesOpen, Wire.Message.answers]

theorem spares_share_of_looking {action : Action δ α}
    (h : action.Spares (fun relay => relay) Deed.isLooking) :
    action.Spares (share selection) (Deed.leavesOpen selection) :=
  h.mono (fun relay => relay.share selection) (fun _ => rfl) fun deed hlooking => by
    unfold Deed.isLooking at hlooking
    split at hlooking <;> simp_all [Deed.leavesOpen]

theorem startFetch_spares_share :
    Spares (share selection) (Deed.leavesOpen selection) (startFetch : Action δ Unit) := by
  refine .bind spares_current fun relay => ?_
  split
  · exact .pure
  split
  · exact .pure
  · refine .bind (spares_update fun _ => rfl) fun _ => .bind (spares_remark rfl) fun _ => ?_
    exact spares_call fun _ => rfl

theorem served?_notified {relay : Relay} {request : DesktopRequest} {rest : List DesktopRequest}
    (hqueue : relay.requests = request :: rest) (property : Atom) :
    (Moment.mk relay (.called (.notifyRequestor request.event property) ())).served? =
      some request := by
  simp [Moment.served?, hqueue, Option.filter]

theorem serve_yields {relay : Relay} {history : History} {request : DesktopRequest}
    {rest : List DesktopRequest} (hqueue : relay.requests = request :: rest) :
    (serve request : Action δ Progress).Yields (fun progress after later => after = relay ∧
      ∃ added, later = history ++ added ∧ (progress = .answered → request ∈ added.servings))
      relay history := by
  have refused (what : Remark) : (do
      remark request.selection what
      refuse request.event
      return .answered : Action δ Progress).Yields (fun progress after later => after = relay ∧
        ∃ added, later = history ++ added ∧ (progress = .answered → request ∈ added.servings))
        relay history := by
    refine ⟨fun _ => ⟨rfl, _, List.append_assoc .., fun _ => ?_⟩, fun _ => trivial⟩
    simp [History.servings, served?_notified hqueue]
  apply Action.Yields.current_bind
  dsimp only
  split
  · exact refused _
  split
  · exact refused _
  split
  · have listed : (sendTargets request.selection request.event : Action δ Unit).Yields
        (fun _ after later => after = relay ∧
          ∃ added, later = history ++ added ∧ request ∈ added.servings) relay history := by
      apply Action.Yields.current_bind
      refine ⟨fun _ => ⟨fun _ => ?_, fun _ => trivial⟩, fun _ => trivial⟩
      rw [List.append_assoc, List.append_assoc]
      exact ⟨rfl, _, rfl, by simp [History.servings, served?_notified hqueue]⟩
    apply listed.bind
    rintro _ _ _ ⟨rfl, added, rfl, hserved⟩
    exact ⟨rfl, added, rfl, fun _ => hserved⟩
  split
  · exact refused _
  · exact ⟨rfl, _, rfl, nofun⟩

end Relay

namespace Unmoved

open Relay

variable {selection changed : Selection} {origin relay after : Relay} {history : History}

theorem refl : Unmoved selection relay relay [] where
  vocabulary := rfl
  slot := rfl
  fetches := rfl
  unanswered := rfl
  reading _ hfetch _ := ⟨hfetch, rfl⟩
  sending _ hrequest _ := ⟨hrequest, rfl⟩
  requests := ⟨[], rfl, .slnil⟩

theorem congr (h : Unmoved selection origin relay history)
    (hshare : after.share selection = relay.share selection) :
    Unmoved selection origin after history := by
  simp only [share, Prod.mk.injEq] at hshare
  obtain ⟨⟨hvocabulary, hslot⟩, ⟨hfetches, hreader⟩, hrequests, hwriter⟩ := hshare
  constructor
  · exact hvocabulary.trans h.vocabulary
  · exact hslot.trans h.slot
  · rw [fetchesOf, hfetches]
    exact h.fetches
  · exact h.unanswered
  · rw [hfetches, hreader]
    exact h.reading
  · rw [hrequests, hwriter]
    exact h.sending
  · have hsame : after.requestsOf selection = relay.requestsOf selection := by
      rw [requestsOf, hrequests]
      rfl
    rw [hsame]
    exact h.requests

theorem did (h : Unmoved selection origin relay history) {deed : Deed}
    (hopen : deed.leavesOpen selection = true) :
    Unmoved selection origin relay (history ++ [⟨relay, deed⟩]) where
  vocabulary := h.vocabulary
  slot := h.slot
  fetches := h.fetches
  unanswered := by
    have hnone : History.answers selection [⟨relay, deed⟩] = 0 := by
      cases deed with
      | sent message => simpa [History.answers, History.messages, Deed.leavesOpen] using hopen
      | _ => rfl
    rw [History.answers_append, h.unanswered, hnone]
  reading := h.reading
  sending := h.sending
  requests := by
    obtain ⟨served, hqueue, hserved⟩ := h.requests
    refine ⟨served, hqueue, hserved.trans ?_⟩
    rw [History.servings_append]
    exact List.sublist_append_left ..

theorem spared (h : Unmoved selection origin relay history) {action : Action δ α}
    (hspares : action.Spares (share selection) (Deed.leavesOpen selection)) :
    action.Yields (fun _ => Unmoved selection origin) relay history := by
  refine hspares.keeps ?_ ?_ h
  · exact fun _ _ _ hshare hunmoved => hunmoved.congr hshare
  · exact fun _ _ _ hopen hunmoved => hunmoved.did hopen

theorem withoutRequests (h : Unmoved selection origin relay history)
    (hother : selection ≠ changed) :
    Unmoved selection origin (relay.withoutRequests changed) history where
  vocabulary := h.vocabulary
  slot := h.slot
  fetches := h.fetches
  unanswered := h.unanswered
  reading := h.reading
  sending request hrequest hsame := by
    obtain ⟨hhead, hwriter⟩ := h.sending request hrequest hsame
    obtain ⟨rest, hrequests⟩ := List.head?_eq_some_iff.mp hhead
    constructor
    · simp [Relay.withoutRequests, withRequests, hrequests, hsame, hother]
    · exact hwriter
  requests := by
    have hsame : (relay.withoutRequests changed).requestsOf selection =
        relay.requestsOf selection := by
      rw [requestsOf, Relay.withoutRequests, withRequests, List.filter_filter]
      apply List.filter_congr
      intro request _
      by_cases hselection : request.selection = selection <;> simp [hselection, hother]
    rw [hsame]
    exact h.requests

theorem withWriter (h : Unmoved selection origin relay history)
    (hfree : ∀ request ∈ origin.requests.head?, request.selection ≠ selection)
    (writer : Option Incremental.Writer) :
    Unmoved selection origin (relay.withWriter writer) history where
  vocabulary := h.vocabulary
  slot := h.slot
  fetches := h.fetches
  unanswered := h.unanswered
  reading := h.reading
  sending request hrequest hsame := absurd hsame (hfree request hrequest)
  requests := h.requests

theorem advanced {request : DesktopRequest} {rest : List DesktopRequest} {added : History}
    (h : Unmoved selection origin relay history)
    (hfree : ∀ request ∈ origin.requests.head?, request.selection ≠ selection)
    (hlater : Unmoved selection origin relay (history ++ added))
    (hqueue : relay.requests = request :: rest) (hserved : request ∈ added.servings) :
    Unmoved selection origin (relay.withRequests rest) (history ++ added) where
  vocabulary := hlater.vocabulary
  slot := hlater.slot
  fetches := hlater.fetches
  unanswered := hlater.unanswered
  reading := hlater.reading
  sending request hrequest hsame := absurd hsame (hfree request hrequest)
  requests := by
    obtain ⟨served, hprefix, hservings⟩ := h.requests
    rw [requestsOf, requestsOf, hqueue, List.filter_cons] at hprefix
    rw [History.servings_append]
    split at hprefix
    case isTrue same =>
      refine ⟨served ++ [request], ?_, ?_⟩
      · rw [List.append_assoc]
        exact hprefix
      · exact hservings.append (List.singleton_sublist.mpr hserved)
    case isFalse other =>
      exact ⟨served, hprefix, hservings.trans (List.sublist_append_left ..)⟩

theorem serveFrom (hfree : ∀ request ∈ origin.requests.head?, request.selection ≠ selection)
    (queue : List DesktopRequest) {relay : Relay} {history : History}
    (h : Unmoved selection origin relay history) (hqueue : relay.requests = queue) :
    (Relay.serveFrom queue : Action δ Unit).Yields (fun _ => Unmoved selection origin) relay
      history := by
  induction queue generalizing relay history with
  | nil => exact h
  | cons request rest ih =>
    have hserved := (h.spared (δ := δ) (spares_share_of_serving (serve_spares request))).and
      (serve_yields hqueue)
    apply Action.Yields.bind hserved
    rintro progress _ _ ⟨hlater, rfl, added, rfl, hanswered⟩
    cases progress with
    | waiting => exact hlater
    | answered =>
      apply Action.Yields.update_bind
      exact ih (h.advanced hfree hlater hqueue (hanswered rfl)) rfl

theorem dropRequests (h : Unmoved selection origin relay history) (hother : selection ≠ changed) :
    (Relay.dropRequests changed : Action δ Unit).Yields (fun _ => Unmoved selection origin) relay
      history := by
  apply Action.Yields.current_bind
  dsimp only
  split
  · exact h
  apply Action.Yields.update_bind
  refine Action.Yields.bind ((h.withoutRequests hother).spared (spares_remark rfl)) ?_
  intro _ middle history hmiddle
  refine Action.Yields.bind (hmiddle.spared (spares_share_of_serving (refuseAll_spares _))) ?_
  intro _ last history hlast
  split
  case isFalse => exact hlast
  case isTrue active =>
    -- The request at the head was for the other selection, so the first one before was too.
    have hfree : ∀ request ∈ origin.requests.head?, request.selection ≠ selection := by
      intro request hrequest hsame
      rw [(h.sending request hrequest hsame).1] at active
      exact hother (hsame.symm.trans (Option.some.inj active))
    apply Action.Yields.update_bind
    apply Action.Yields.current_bind
    exact serveFrom hfree _ (hlast.withWriter hfree none) rfl

theorem withoutFetches (h : Unmoved selection origin relay history) (hother : selection ≠ changed) :
    Unmoved selection origin (relay.withoutFetches changed) history where
  vocabulary := h.vocabulary
  slot := h.slot
  fetches := (fetchesOf_of_dropped rfl hother).trans h.fetches
  unanswered := h.unanswered
  reading fetch hfetch hsame := by
    obtain ⟨hhead, hreader⟩ := h.reading fetch hfetch hsame
    obtain ⟨rest, hfetches⟩ := List.head?_eq_some_iff.mp hhead
    constructor
    · simp [Relay.withoutFetches, withFetches, hfetches, hsame, hother]
    · exact hreader
  sending := h.sending
  requests := h.requests

theorem withReader (h : Unmoved selection origin relay history)
    (hfree : ∀ fetch ∈ origin.fetches.head?, fetch.selection ≠ selection)
    (reader : Incremental.Reader) :
    Unmoved selection origin (relay.withReader reader) history where
  vocabulary := h.vocabulary
  slot := h.slot
  fetches := h.fetches
  unanswered := h.unanswered
  reading fetch hfetch hsame := absurd hsame (hfree fetch hfetch)
  sending := h.sending
  requests := h.requests

theorem dropFetches (h : Unmoved selection origin relay history) (hother : selection ≠ changed) :
    (Relay.dropFetches changed : Action δ Unit).Yields (fun _ => Unmoved selection origin) relay
      history := by
  have dropped : Unmoved selection origin (relay.withoutFetches changed)
      (history ++ relay.dropping changed) := by
    apply History.keep_deeds _ (h.withoutFetches hother)
    intro deed hdeed history hunmoved
    apply hunmoved.did
    rcases List.mem_cons.mp hdeed with rfl | hanswer
    · rfl
    · obtain ⟨fetch, hfetch, rfl⟩ := List.mem_map.mp hanswer
      have hchanged : fetch.selection = changed := by simpa using (List.mem_filter.mp hfetch).2
      simp [Deed.leavesOpen, Wire.Message.noData, Wire.Message.answers, hchanged, Ne.symm hother]
  apply dropFetches_ensures_of
  · exact fun _ => h
  · intro active rest front _ hactive
    have hfree : ∀ fetch ∈ origin.fetches.head?, fetch.selection ≠ selection := by
      intro fetch hfetch hsame
      have hhead := (h.reading fetch hfetch hsame).1
      rw [front, List.head?_cons, Option.some_inj] at hhead
      rw [← hhead, hactive] at hsame
      exact hother hsame.symm
    have aborted : Unmoved selection origin (((relay.withoutFetches changed).withReader
        relay.reader.abort).withAbandoned (relay.abandoned ++ [active]))
        (history ++ relay.dropping changed) := (dropped.withReader hfree _).congr rfl
    exact aborted.spared startFetch_spares_share
  · exact fun _ _ _ _ _ => dropped

theorem changeHolder (h : Unmoved selection origin relay history) (hother : selection ≠ changed)
    (holder : Holder) :
    (Relay.changeHolder changed holder : Action δ Unit).Yields (fun _ => Unmoved selection origin)
      relay history := by
  apply Action.Yields.bind (h.dropRequests hother)
  intro _ relay history h
  apply Action.Yields.bind (h.dropFetches hother)
  intro _ relay history h
  apply h.spared
  refine .bind spares_current fun relay => .bind (spares_update fun relay => ?_) fun _ => ?_
  · simp only [share, Slots.setHolder, Slots.get_set_of_ne _ _ hother]
  · split
    · exact spares_send rfl
    · exact .pure

theorem handleOwner (h : Unmoved selection origin relay history) (hother : selection ≠ changed)
    {atom : Atom} (named : relay.vocabulary.selection? atom = some changed) (owner : Window) :
    (Relay.handleOwner atom owner : Action δ Unit).Yields (fun _ => Unmoved selection origin)
      relay history := by
  apply Action.Yields.current_bind
  rw [named]
  apply Action.Yields.bind (h.spared (spares_remark rfl))
  intro _ middle history h
  split
  · exact h
  apply Action.Yields.bind (h.changeHolder hother .nobody)
  intro _ last history h
  split
  · exact h
  apply h.spared
  refine .bind (spares_call fun _ => rfl) fun _ => spares_update fun relay => ?_
  simp only [share, Slots.await, Slots.get_set_of_ne _ _ hother]

theorem handleTargets (h : Unmoved selection origin relay history) (hother : selection ≠ changed)
    {notify : SelectionNotify}
    (named : relay.vocabulary.selection? notify.selection = some changed) :
    (Relay.handleTargets notify : Action δ Unit).Yields (fun _ => Unmoved selection origin)
      relay history := by
  apply handleTargets_yields h
  · intro _ _ relay history hspares h
    exact h.spared (spares_share_of_looking hspares)
  · intro answering hanswering
    obtain rfl := Option.some.inj (named.symm.trans hanswering)
    apply h.congr
    simp only [share, withSlots, Slots.arrive, Slots.get_set_of_ne _ _ hother]
  · intro _ _ relay history h
    exact h.did rfl
  · intro answering holder after later hanswering h
    obtain rfl := Option.some.inj (named.symm.trans hanswering)
    exact h.changeHolder hother holder
  · exact fun _ _ h => h

/-- Handling what is about one selection leaves the others unmoved. -/
theorem handle (h : Unmoved selection origin relay history) (hother : selection ≠ changed)
    (hdistinct : origin.vocabulary.clipboard ≠ origin.vocabulary.primary) {event : Event}
    (habout : event.isAbout origin.vocabulary changed = true) :
    (Relay.handle event : Action δ Unit).Yields (fun _ => Unmoved selection origin) relay
      history := by
  rw [← h.vocabulary] at habout hdistinct
  cases event with
  | ownerChanged atom owner =>
    have named : relay.vocabulary.atom? changed = some atom := by simpa [Event.isAbout] using habout
    exact h.handleOwner hother (Vocabulary.selection?_of_atom? hdistinct named) owner
  | selectionNotify notify =>
    have hnotify : notify.target = relay.vocabulary.targets ∧
        relay.vocabulary.atom? changed = some notify.selection := by
      simpa [Event.isAbout] using habout
    apply Action.Yields.current_bind
    rw [if_pos hnotify.1]
    exact h.handleTargets hother (Vocabulary.selection?_of_atom? hdistinct hnotify.2)
  | _ => cases habout

open ClipboardRelay.Action (Upholds)

def Strayed (vocabulary : Vocabulary) (selection : Selection) (history : History) : Prop :=
  ∃ event ∈ history.events, event.isAbout vocabulary selection = false

theorem Strayed.append {vocabulary : Vocabulary} (h : Strayed vocabulary selection history)
    (added : History) : Strayed vocabulary selection (history ++ added) := by
  obtain ⟨event, hevent, hstray⟩ := h
  rw [Strayed, History.events_append]
  exact ⟨event, List.mem_append_left _ hevent, hstray⟩

theorem Strayed.upholds {vocabulary : Vocabulary} {holds : Relay → History → Prop}
    (h : Strayed vocabulary selection history) (action : Action δ α) :
    action.Upholds (Strayed vocabulary selection) holds relay history :=
  action.spares_begun.yields fun _ _ added _ _ => .inl (h.append added)

variable [Display δ]

theorem dispatch (hother : selection ≠ changed)
    (hdistinct : origin.vocabulary.clipboard ≠ origin.vocabulary.primary)
    (h : Strayed origin.vocabulary changed history ∨ Unmoved selection origin relay history) :
    (Relay.dispatch : Action δ Unit).Upholds (Strayed origin.vocabulary changed)
      (Unmoved selection origin) relay history := by
  rw [Relay.dispatch, Upholds, Action.Yields, Action.ensures_bind, Relay.ensures_display]
  intro display
  apply Relay.drain_yields _ _ _ _ h
  · intro relay history h
    exact h.imp (fun hstrayed => hstrayed.append _) fun hunmoved => hunmoved.did rfl
  · intro relay history h
    exact h.imp (fun hstrayed => hstrayed.append _) fun hunmoved => hunmoved.did rfl
  · intro event relay history h
    rcases h with hstrayed | hunmoved
    · exact (hstrayed.append _).upholds _
    by_cases habout : event.isAbout origin.vocabulary changed = true
    · have polled : Unmoved selection origin relay
          (history ++ [⟨relay, .called .pollEvent (some event)⟩]) := hunmoved.did rfl
      exact (polled.handle hother hdistinct habout).mono fun _ _ _ => .inr
    · apply Strayed.upholds
      exact ⟨event, by simp [History.events], by simpa using habout⟩

theorem grab (hother : selection ≠ changed)
    (hdistinct : origin.vocabulary.clipboard ≠ origin.vocabulary.primary)
    (h : Unmoved selection origin relay history) (types : List ContentType) :
    (Relay.grab changed types : Action δ Unit).Upholds (Strayed origin.vocabulary changed)
      (Unmoved selection origin) relay history := by
  apply Action.Yields.current_bind
  split
  · exact (h.spared (spares_remark rfl)).mono fun _ _ _ => .inr
  dsimp only
  split
  · exact (h.spared (spares_remark rfl)).mono fun _ _ _ => .inr
  apply ensures_call_bind _ fun _ => trivial
  intro answer
  have taken : Unmoved selection origin relay
      (history ++ [⟨relay, .called (.setSelectionOwner _ relay.window) answer⟩]) := h.did rfl
  apply Action.Yields.bind (taken.changeHolder hother _)
  intro _ relay history h
  exact dispatch hother hdistinct (.inr h)

theorem release (hother : selection ≠ changed)
    (hdistinct : origin.vocabulary.clipboard ≠ origin.vocabulary.primary)
    (h : Unmoved selection origin relay history) :
    (Relay.release changed : Action δ Unit).Upholds (Strayed origin.vocabulary changed)
      (Unmoved selection origin) relay history := by
  apply Action.Yields.current_bind
  split
  · exact (h.spared (spares_remark rfl)).mono fun _ _ _ => .inr
  split
  · exact (h.spared (spares_remark rfl)).mono fun _ _ _ => .inr
  refine ensures_call_bind (fun given => ensures_call_bind (fun synced => ?_) fun _ => trivial)
    fun _ => trivial
  have left : Unmoved selection origin relay
      (history ++ [⟨relay, .called (.setSelectionOwner _ Window.null) given⟩]) := h.did rfl
  have waited : Unmoved selection origin relay (history ++
      [⟨relay, .called (.setSelectionOwner _ Window.null) given⟩] ++
      [⟨relay, .called .sync synced⟩]) := left.did rfl
  apply Action.Yields.bind (dispatch hother hdistinct (.inr waited))
  intro _ middle history hmiddle
  apply Action.Yields.current_bind
  split
  case isFalse => exact dispatch hother hdistinct hmiddle
  case isTrue =>
    rcases hmiddle with hstrayed | hunmoved
    · exact hstrayed.upholds _
    apply Action.Yields.bind (hunmoved.spared (spares_remark rfl))
    intro _ relay history h
    apply Action.Yields.bind (h.changeHolder hother .nobody)
    intro _ relay history h
    exact dispatch hother hdistinct (.inr h)

end Unmoved

section ChangingHands

open Relay

variable [Display δ] {session after : Session δ} {changed other : Selection}
  {action : Action δ Unit}

/-- Whatever makes a selection change hands leaves every other selection unmoved, in every state:
handling a new owner or the targets of one, taking the selection for the remote client and giving
it up, as long as all that is polled meanwhile is about the selection. -/
theorem other_selection_unmoved
    (hdistinct : session.relay.vocabulary.clipboard ≠ session.relay.vocabulary.primary)
    (hother : other ≠ changed)
    (haction : (∃ event, event.isAbout session.relay.vocabulary changed = true ∧
        action = handle event) ∨
      (∃ types, action = grab changed types) ∨ action = release changed)
    (hevents : ∀ event ∈ (action.history session).events,
      event.isAbout session.relay.vocabulary changed = true)
    (hrun : action.run session = (.ok (), after)) :
    Unmoved other session.relay after.relay (action.history session) := by
  have upheld : action.Upholds (Unmoved.Strayed session.relay.vocabulary changed)
      (Unmoved other session.relay) session.relay [] := by
    rcases haction with ⟨event, habout, rfl⟩ | ⟨types, rfl⟩ | rfl
    · exact (Unmoved.refl.handle hother hdistinct habout).mono fun _ _ _ => .inr
    · exact Unmoved.refl.grab hother hdistinct types
    · exact Unmoved.refl.release hother hdistinct
  have ended := Action.Ensures.run session upheld
  rw [hrun] at ended
  apply ended.resolve_left
  rintro ⟨event, hevent, hstray⟩
  rw [hevents event hevent] at hstray
  cases hstray

def sharing : List (Move Memory.Display) :=
  Course.ownedByTwo ++ [.operate (.ask .primary .utf8Text),
    .operate (.grab .clipboard [.utf8Text]),
    .elapse { events := [.selectionRequest ⟨0, ⟨7⟩, ⟨100⟩, ⟨105⟩, ⟨52⟩⟩,
      .selectionRequest ⟨0, ⟨8⟩, ⟨101⟩, ⟨105⟩, ⟨53⟩⟩] },
    .operate .dispatch]

theorem other_selection_unmoved_sharing :
    ∃ course, Course.start ({} : Memory.Display) = some course ∧
      let session := (course.after sharing).session
      let given : Action Memory.Display Unit := release .clipboard
      session.relay.fetches = [⟨.primary, ⟨105⟩⟩] ∧
      session.relay.requests.map (·.selection) = [.clipboard, .primary] ∧
      session.relay.vocabulary.clipboard ≠ session.relay.vocabulary.primary ∧
      (∀ event ∈ (given.history session).events,
        event.isAbout session.relay.vocabulary .clipboard = true) ∧
      ∃ after, given.run session = (.ok (), after) ∧ after.relay.requests = [] ∧
        Unmoved .primary session.relay after.relay (given.history session) := by
  have hstart : Course.start ({} : Memory.Display) =
      some ((Course.start {}).get (by decide +kernel)) := (Option.some_get _).symm
  have hdistinct : (((Course.start ({} : Memory.Display)).get (by decide +kernel)).after
      sharing).session.relay.vocabulary.clipboard ≠ (((Course.start ({} : Memory.Display)).get
      (by decide +kernel)).after sharing).session.relay.vocabulary.primary := by decide +kernel
  refine ⟨_, hstart, by decide +kernel, by decide +kernel, hdistinct, by decide +kernel, _,
    Action.run_of_ok (by decide +kernel), by decide +kernel, ?_⟩
  exact other_selection_unmoved hdistinct (by decide) (.inr (.inr rfl)) (by decide +kernel)
    (Action.run_of_ok (by decide +kernel))

end ChangingHands

end ClipboardRelay
