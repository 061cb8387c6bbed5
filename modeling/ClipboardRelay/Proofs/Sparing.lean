import ClipboardRelay.Proofs.Changeover
import ClipboardRelay.Proofs.Footprint
import ClipboardRelay.Relay.Dispatch
/-!
What each part of an operation leaves alone. Serving applications changes only what is kept for
them, and fetching for the agent only what is kept for the fetches, so what is known of one side
outlasts whatever is done for the other. Main statement: no handler polls or makes a call that new
events come from.
-/

namespace ClipboardRelay

variable {δ α : Type}

namespace Deed

def isServing : Deed → Bool
  | called (.changeProperty ..) _ | called (.notifyRequestor ..) _ | called (.watchProperties _) _
  | sent (.ask ..) => true
  | noted (.about _ (.fetchesDropped _)) => false
  | noted _ => true
  | _ => false

def isLooking : Deed → Bool
  | called (.getProperty _ _ true) _ | called (.deleteProperty ..) _ => true
  | noted (.about _ (.fetchesDropped _)) => false
  | noted _ => true
  | _ => false

def isReading : Deed → Bool
  | called (.getProperty ..) _ | called (.watchProperties _) _ => true
  | deed => deed.isLooking

def isFetching : Deed → Bool
  | called (.convertSelection ..) _ | sent (.data ..) | noted _ => true
  | deed => deed.isReading

def isAdvancing : Deed → Bool
  | called (.convertSelection ..) _ | sent (.data ..) | noted _ => true
  | _ => false

def isPoll : Deed → Bool
  | called .pollEvent _ => true
  | _ => false

/-- Whether a deed may be done to handle an event: it neither asks for the next one nor makes a call
that new events come from. -/
def isHandling : Deed → Bool
  | began _ | called .pollEvent _ | called (.setSelectionOwner ..) _ | called (.setScreenSize _) _
  | called .sync _ => false
  | _ => true

def isLeaving : Deed → Bool
  | called (.setSelectionOwner _ owner) _ => owner = Window.null
  | deed => deed.isHandling

theorem not_poll_of_handling {deed : Deed} (h : deed.isHandling = true) : deed.isPoll = false := by
  unfold isPoll
  split
  case h_1 => cases h
  case h_2 => rfl

theorem not_poll_of_not_turn {deed : Deed} (h : deed.isTurn = false) : deed.isPoll = false := by
  unfold isPoll
  split
  case h_1 => cases h
  case h_2 => rfl

theorem not_turn_of_handling {deed : Deed} (h : deed.isHandling = true) :
    deed.isTurn = false := by
  unfold isTurn
  split
  case h_3 => rfl
  all_goals cases h

theorem not_turn_of_leaving {deed : Deed} (h : deed.isLeaving = true) : deed.isTurn = false := by
  unfold isLeaving at h
  split at h
  case h_1 => rfl
  case h_2 => exact not_turn_of_handling h

theorem handling_of_serving {deed : Deed} (h : deed.isServing = true) :
    deed.isHandling = true := by
  unfold isHandling
  split
  case h_6 => rfl
  all_goals cases h

theorem handling_of_fetching {deed : Deed} (h : deed.isFetching = true) :
    deed.isHandling = true := by
  unfold isHandling
  split
  case h_6 => rfl
  all_goals cases h

end Deed

theorem Action.spares_begun (action : Action δ α) :
    action.Spares (fun _ => ()) fun deed => !deed.begins := by
  induction action with
  | done value => trivial
  | step effect next ih =>
    refine ⟨?_, ih⟩
    cases effect with
    | current | display => trivial
    | update change => exact fun _ => rfl
    | call asked => exact fun _ => rfl
    | send messages => exact fun _ _ => rfl
    | note notices => exact fun _ _ => rfl

namespace Relay

open ClipboardRelay.Action (Spares)

def besidesRequests (relay : Relay) : Relay :=
  { relay with requests := [], writer := none }

def besidesFetches (relay : Relay) : Relay :=
  { relay with fetches := [], abandoned := [], reader := {} }

def besidesReader (relay : Relay) : Relay :=
  { relay with reader := {} }

section Serving

variable {σ : Type} {kept : Relay → σ}

theorem refuse_spares (event : SelectionRequest) :
    Spares kept Deed.isServing (refuse event : Action δ Unit) :=
  spares_call fun _ => rfl

theorem refuseAll_spares (events : List SelectionRequest) :
    Spares kept Deed.isServing (refuseAll events : Action δ Unit) := by
  induction events with
  | nil => exact .pure
  | cons event events ih => exact .bind (refuse_spares event) fun _ => ih

theorem sendTargets_spares (selection : Selection) (event : SelectionRequest) :
    Spares kept Deed.isServing (sendTargets selection event : Action δ Unit) := by
  refine .bind spares_current fun relay => .bind (spares_call fun _ => rfl) fun _ => ?_
  exact .bind (spares_remarkTargets (fun _ => rfl) fun _ => rfl) fun _ => spares_call fun _ => rfl

theorem serve_spares (request : DesktopRequest) :
    Spares kept Deed.isServing (serve request : Action δ Progress) := by
  refine .bind spares_current fun relay => ?_
  dsimp only
  split
  · exact .bind (spares_remark rfl) fun _ => .bind (refuse_spares _) fun _ => .pure
  split
  · exact .bind (spares_remark rfl) fun _ => .bind (refuse_spares _) fun _ => .pure
  split
  · exact .bind (sendTargets_spares _ _) fun _ => .pure
  split
  · exact .bind (spares_remark rfl) fun _ => .bind (refuse_spares _) fun _ => .pure
  · exact .bind (spares_send rfl) fun _ => .pure

theorem serveFrom_spares (queue : List DesktopRequest) :
    Spares besidesRequests Deed.isServing (serveFrom queue : Action δ Unit) := by
  induction queue with
  | nil => exact .pure
  | cons request rest ih =>
    refine .bind (serve_spares request) fun progress => ?_
    cases progress with
    | waiting => exact .pure
    | answered => exact .bind (spares_update fun _ => rfl) fun _ => ih

theorem serveRequests_spares :
    Spares besidesRequests Deed.isServing (serveRequests : Action δ Unit) :=
  .bind spares_current fun relay => serveFrom_spares relay.requests

theorem finishRequest_spares :
    Spares besidesRequests Deed.isServing (finishRequest : Action δ Unit) :=
  .bind (spares_update fun _ => rfl) fun _ => serveRequests_spares

theorem queueRequest_spares (event : SelectionRequest) :
    Spares besidesRequests Deed.isServing (queueRequest event : Action δ Unit) := by
  refine .bind spares_current fun relay => ?_
  split
  · exact .bind (spares_note rfl) fun _ => refuse_spares event
  · refine .bind (spares_update fun _ => rfl) fun _ => ?_
    split
    · exact serveRequests_spares
    · exact .pure

theorem dropRequests_spares (selection : Selection) :
    Spares besidesRequests Deed.isServing (dropRequests selection : Action δ Unit) := by
  refine .bind spares_current fun relay => ?_
  dsimp only
  split
  · exact .pure
  refine .bind (spares_update fun _ => rfl) fun _ => .bind (spares_remark rfl) fun _ => ?_
  refine .bind (refuseAll_spares _) fun _ => ?_
  split
  · exact .bind (spares_update fun _ => rfl) fun _ => serveRequests_spares
  · exact .pure

theorem startSending_spares (selection : Selection) (event : SelectionRequest) (data : Bytes) :
    Spares besidesRequests Deed.isServing (startSending selection event data : Action δ Unit) := by
  refine .bind spares_current fun relay => .bind (spares_remark rfl) fun _ => ?_
  refine .bind (spares_call fun _ => rfl) fun _ => .bind (spares_call fun _ => rfl) fun _ => ?_
  exact .bind (spares_call fun _ => rfl) fun _ => spares_update fun _ => rfl

theorem sendWhole_spares (event : SelectionRequest) (data : Bytes) :
    Spares besidesRequests Deed.isServing (sendWhole event data : Action δ Unit) :=
  .bind (spares_call fun _ => rfl) fun _ => .bind (spares_call fun _ => rfl) fun _ =>
    finishRequest_spares

theorem deliver_spares (selection : Selection) (type : ContentType) (data : Bytes) :
    Spares besidesRequests Deed.isServing (deliver selection type data : Action δ Unit) := by
  have refused (event : SelectionRequest) :
      Spares besidesRequests Deed.isServing (do refuse event; finishRequest : Action δ Unit) :=
    .bind (refuse_spares event) fun _ => finishRequest_spares
  refine .bind spares_current fun relay => ?_
  dsimp only
  split
  · split
    · exact spares_remark rfl
    · exact .pure
  · split
    · exact spares_remark rfl
    · exact .pure
  · split
    · split
      · exact startSending_spares _ _ _
      · exact sendWhole_spares _ _
    · split
      · refine .bind (spares_remark rfl) fun _ => ?_
        split
        · exact .bind (spares_remark rfl) fun _ => refused _
        · exact refused _
      · split
        · exact .bind (spares_remark rfl) fun _ => refused _
        · exact refused _

theorem handleDeleted_spares (window : Window) (property : Atom) :
    Spares besidesRequests Deed.isServing (handleDeleted window property : Action δ Unit) := by
  refine .bind spares_current fun relay => ?_
  split
  · exact .pure
  split
  · refine .bind (spares_update fun _ => rfl) fun _ => ?_
    refine .bind (spares_note (by split <;> rfl)) fun _ => .bind (spares_call fun _ => rfl) fun _ => ?_
    split
    · exact .bind (spares_update fun _ => rfl) fun _ => finishRequest_spares
    · exact .pure
  · exact .pure

end Serving

section Fetching

theorem sendNoData_spares (selection : Selection) :
    Spares besidesFetches Deed.isAdvancing (sendNoData selection : Action δ Unit) :=
  spares_send rfl

theorem startFetch_spares :
    Spares besidesFetches Deed.isAdvancing (startFetch : Action δ Unit) := by
  refine .bind spares_current fun relay => ?_
  split
  · exact .pure
  split
  · exact .pure
  · refine .bind (spares_update fun _ => rfl) fun _ => .bind (spares_remark rfl) fun _ => ?_
    exact spares_call fun _ => rfl

theorem queueFetch_spares (fetch : Fetch) :
    Spares besidesFetches Deed.isAdvancing (queueFetch fetch : Action δ Unit) := by
  refine .bind (spares_update fun _ => rfl) fun _ => .bind spares_current fun relay => ?_
  split
  · exact startFetch_spares
  · exact .pure

theorem dropFetches_spares (selection : Selection) :
    Spares besidesFetches Deed.isAdvancing (dropFetches selection : Action δ Unit) := by
  refine .bind spares_current fun relay => ?_
  dsimp only
  split
  · exact .pure
  refine .bind (spares_update fun _ => rfl) fun _ => .bind (spares_remark rfl) fun _ => ?_
  refine .bind (spares_sendAll (List.forall_mem_map.mpr fun _ _ => rfl)) fun _ => ?_
  split
  · exact .pure
  split
  · exact .bind (spares_update fun _ => rfl) fun _ => startFetch_spares
  · exact .pure

theorem finishFetch_spares (data : Option Bytes) :
    Spares besidesFetches Deed.isAdvancing (finishFetch data : Action δ Unit) := by
  cases data with
  | none =>
    refine .bind (spares_update fun _ => rfl) fun _ => .bind spares_current fun relay => ?_
    split
    · exact .pure
    refine .bind (spares_update fun _ => rfl) fun _ => ?_
    split
    · exact .bind (spares_remark rfl) fun _ => .bind (sendNoData_spares _) fun _ =>
        startFetch_spares
    · exact .bind (sendNoData_spares _) fun _ => startFetch_spares
  | some bytes =>
    refine .bind spares_current fun relay => ?_
    split
    · exact .pure
    refine .bind (spares_update fun _ => rfl) fun _ => ?_
    split
    · exact .bind (spares_remark rfl) fun _ => .bind (sendNoData_spares _) fun _ =>
        startFetch_spares
    · dsimp only
      split
      · exact .bind (sendNoData_spares _) fun _ => startFetch_spares
      · exact .bind (spares_send rfl) fun _ => startFetch_spares

theorem reading_of_looking {action : Action δ α}
    (h : Spares (fun relay => relay) Deed.isLooking action) :
    Spares besidesReader Deed.isReading action :=
  h.mono besidesReader (fun _ => rfl) fun deed hdeed => by
    unfold Deed.isReading
    split <;> first | rfl | exact hdeed

theorem checkProperty_spares (selection : Selection) (target : Atom) (property : Property) :
    Spares (fun relay => relay) Deed.isLooking
      (checkProperty selection target property : Action δ Bool) := by
  unfold checkProperty
  split
  · exact .bind (spares_remark rfl) fun _ => .pure
  split
  · exact .bind (spares_remark rfl) fun _ => .pure
  · exact .pure

theorem readReply_spares (fetch : Fetch) (notify : SelectionNotify) :
    Spares besidesReader Deed.isReading (readReply fetch notify : Action δ Reply) := by
  refine .bind spares_current fun relay => ?_
  dsimp only
  split
  · exact .bind (spares_remark rfl) fun _ => .pure
  split
  · exact .bind (spares_remark rfl) fun _ => .pure
  refine .bind (spares_call fun _ => rfl) fun found => ?_
  split
  · exact .bind (spares_remark rfl) fun _ => .pure
  split
  · split
    · exact .bind (spares_remark rfl) fun _ => .bind (spares_call fun _ => rfl) fun _ => .pure
    · refine .bind (spares_remark rfl) fun _ => .bind (spares_update fun _ => rfl) fun _ => ?_
      exact .bind (spares_call fun _ => rfl) fun _ => .bind (spares_call fun _ => rfl) fun _ => .pure
  · refine .bind (spares_call fun _ => rfl) fun _ =>
      .bind (reading_of_looking (checkProperty_spares _ _ _)) fun fits => ?_
    split
    · split
      · exact .bind (spares_remark rfl) fun _ => .pure
      · exact .pure
    · exact .pure

theorem checkReply_spares (fetch : Fetch) (notify : SelectionNotify) :
    Spares (fun relay => relay) Deed.isLooking (checkReply fetch notify : Action δ Bool) := by
  refine .bind spares_current fun relay => ?_
  dsimp only
  split
  · refine .bind (spares_remark rfl) fun _ => ?_
    split
    · exact .bind (spares_remark rfl) fun _ => .pure
    · exact .pure
  · split
    · exact .bind (spares_remark rfl) fun _ => .pure
    · exact .pure

theorem spares_of_reading {action : Action δ α} (h : Spares besidesReader Deed.isReading action) :
    Spares besidesFetches Deed.isFetching action :=
  h.mono (fun relay => relay.besidesFetches) (fun _ => rfl) fun deed hdeed => by
    unfold Deed.isFetching
    split <;> first | rfl | exact hdeed

theorem spares_of_advancing {action : Action δ α}
    (h : Spares besidesFetches Deed.isAdvancing action) :
    Spares besidesFetches Deed.isFetching action :=
  h.mono (fun relay => relay) (fun _ => rfl) fun deed hdeed => by
    unfold Deed.isFetching
    split
    case h_4 => unfold Deed.isAdvancing at hdeed; split at hdeed <;> simp_all
    all_goals rfl

theorem receiveReply_spares (notify : SelectionNotify) :
    Spares besidesFetches Deed.isFetching (receiveReply notify : Action δ Unit) := by
  refine .bind spares_current fun relay => ?_
  split
  · exact spares_note rfl
  refine .bind (spares_of_reading (reading_of_looking (checkReply_spares _ notify))) fun fits => ?_
  split
  · refine .bind (spares_of_reading (readReply_spares _ notify)) fun reply => ?_
    cases reply with
    | pending => exact .pure
    | data bytes => exact spares_of_advancing (finishFetch_spares _)
    | failed => exact spares_of_advancing (finishFetch_spares _)
  · exact spares_of_advancing (finishFetch_spares _)

theorem handleConversion_spares (notify : SelectionNotify) :
    Spares besidesFetches Deed.isFetching (handleConversion notify : Action δ Unit) := by
  refine .bind spares_current fun relay => ?_
  split
  · exact receiveReply_spares notify
  refine .bind (spares_update fun _ => rfl) fun _ => ?_
  split
  · exact receiveReply_spares notify
  · refine .bind (spares_remark rfl) fun _ => ?_
    split
    · exact spares_call fun _ => rfl
    · exact .pure

theorem readChunk_spares (fetch : Fetch) (property : Atom) :
    Spares besidesFetches Deed.isFetching (readChunk fetch property : Action δ Unit) := by
  refine .bind spares_current fun relay => .bind (spares_call fun _ => rfl) fun found => ?_
  split
  · exact .bind (spares_remark rfl) fun _ => spares_of_advancing (finishFetch_spares _)
  refine .bind (spares_of_reading (reading_of_looking (checkProperty_spares _ _ _))) fun fits => ?_
  split
  · split
    · refine .bind spares_current fun relay => .bind (spares_update fun _ => rfl) fun _ => ?_
      split
      · exact .bind (spares_remark rfl) fun _ => spares_of_advancing (finishFetch_spares _)
      · exact .bind (spares_remark rfl) fun _ => spares_of_advancing (finishFetch_spares _)
    · refine .bind (spares_update fun _ => rfl) fun _ => .bind spares_current fun relay => ?_
      exact spares_remark rfl
  · exact spares_of_advancing (finishFetch_spares _)

theorem handleStored_spares (window : Window) (property : Atom) :
    Spares besidesFetches Deed.isFetching (handleStored window property : Action δ Unit) := by
  refine .bind spares_current fun relay => ?_
  split
  · split
    · exact .pure
    split
    · exact readChunk_spares _ _
    · exact .pure
  · exact .pure

end Fetching

section Owning

theorem discardTargets_spares (notify : SelectionNotify) :
    Spares (fun relay => relay) Deed.isLooking (discardTargets notify : Action δ Unit) := by
  refine .bind spares_current fun relay => ?_
  split
  · exact .pure
  · exact spares_call fun _ => rfl

theorem readTargets_spares (selection : Selection) (notify : SelectionNotify) :
    Spares (fun relay => relay) Deed.isLooking
      (readTargets selection notify : Action δ (Option (List Atom))) := by
  refine .bind spares_current fun relay => ?_
  dsimp only
  split
  · exact .bind (spares_remark rfl) fun _ => .pure
  split
  · exact .bind (spares_remark rfl) fun _ => .pure
  refine .bind (spares_call fun _ => rfl) fun found => ?_
  split
  · exact .bind (spares_remark rfl) fun _ => .pure
  split
  · exact .bind (spares_remark rfl) fun _ => .pure
  split
  · exact .bind (spares_remark rfl) fun _ => .pure
  · exact .bind (spares_remark rfl) fun _ => .pure
  · exact .pure

/-- What changes only when a selection changes hands or an owner answers. -/
def standing (relay : Relay) : (Window × Vocabulary × Registry) × Slots :=
  ((relay.window, relay.vocabulary, relay.registry), relay.slots)

theorem spares_standing_of_serving {action : Action δ α}
    (h : Spares besidesRequests Deed.isServing action) :
    Spares standing Deed.isHandling action :=
  h.mono standing (fun _ => rfl) fun _ => Deed.handling_of_serving

theorem spares_standing_of_fetching {action : Action δ α}
    (h : Spares besidesFetches Deed.isFetching action) :
    Spares standing Deed.isHandling action :=
  h.mono standing (fun _ => rfl) fun _ => Deed.handling_of_fetching

theorem spares_standing_of_looking {action : Action δ α}
    (h : Spares (fun relay => relay) Deed.isLooking action) :
    Spares standing Deed.isHandling action :=
  spares_standing_of_fetching (spares_of_reading (reading_of_looking h))

def awaits (relay : Relay) : (Window × Vocabulary) × (Selection → Nat) :=
  ((relay.window, relay.vocabulary), fun selection => (relay.slots.get selection).awaited)

theorem spares_awaits {action : Action δ α} (h : Spares standing Deed.isHandling action) :
    Spares awaits Deed.isHandling action :=
  h.mono (fun ((window, vocabulary, _), slots) =>
    ((window, vocabulary), fun selection => (slots.get selection).awaited)) (fun _ => rfl) fun _ => id

theorem spares_awaits_of_serving {action : Action δ α}
    (h : Spares besidesRequests Deed.isServing action) :
    Spares awaits Deed.isHandling action :=
  spares_awaits (spares_standing_of_serving h)

theorem spares_awaits_of_fetching {action : Action δ α}
    (h : Spares besidesFetches Deed.isFetching action) :
    Spares awaits Deed.isHandling action :=
  spares_awaits (spares_standing_of_fetching h)

theorem spares_awaits_of_looking {action : Action δ α}
    (h : Spares (fun relay => relay) Deed.isLooking action) :
    Spares awaits Deed.isHandling action :=
  spares_awaits (spares_standing_of_looking h)

theorem changeHolder_spares (selection : Selection) (holder : Holder) :
    Spares awaits Deed.isHandling (changeHolder selection holder : Action δ Unit) := by
  refine .bind (spares_awaits_of_serving (dropRequests_spares selection)) fun _ => ?_
  refine .bind (spares_awaits_of_fetching (spares_of_advancing (dropFetches_spares selection)))
    fun _ => ?_
  refine .bind spares_current fun relay => .bind (spares_update fun relay => ?_) fun _ => ?_
  · simp only [awaits, Slots.awaited_setHolder]
  · split
    · exact spares_send rfl
    · exact .pure

theorem vacate_spares (selection : Selection) :
    Spares (fun _ => ()) Deed.isLeaving (vacate selection : Action δ Unit) := by
  have hchanged : Spares (fun _ => ()) Deed.isLeaving
      (changeHolder selection .nobody : Action δ Unit) := by
    refine (changeHolder_spares selection .nobody).mono (fun _ => ()) (fun _ => rfl) ?_
    intro deed hhandling
    unfold Deed.isLeaving
    split
    · cases hhandling
    · exact hhandling
  refine .bind spares_current fun relay => ?_
  split
  · exact .bind (spares_call fun _ => rfl) fun _ => hchanged
  · exact hchanged

theorem acceptTargets_spares (selection : Selection) (offered : List Atom) :
    Spares awaits Deed.isHandling
      (acceptTargets selection offered : Action δ Unit) := by
  refine .bind (spares_remarkTargets (fun _ => rfl) fun _ => rfl) fun _ => ?_
  refine .bind spares_current fun relay => ?_
  split
  · exact spares_remark rfl
  · exact .bind (spares_send rfl) fun _ => changeHolder_spares _ _

end Owning

section Handling

abbrev setting (relay : Relay) : Window × Vocabulary :=
  relay.awaits.1

theorem spares_setting {action : Action δ α} (h : Spares awaits Deed.isHandling action) :
    Spares setting Deed.isHandling action :=
  h.mono Prod.fst (fun _ => rfl) fun _ => id

theorem handleOwner_spares (selection : Atom) (owner : Window) :
    Spares setting Deed.isHandling (handleOwner selection owner : Action δ Unit) := by
  refine .bind spares_current fun relay => ?_
  split
  · exact .pure
  refine .bind (spares_remark rfl) fun _ => ?_
  split
  · exact .pure
  refine .bind (spares_setting (changeHolder_spares _ _)) fun _ => ?_
  split
  · exact .pure
  · exact .bind (spares_call fun _ => rfl) fun _ => spares_update fun _ => rfl

theorem handleTargets_spares (notify : SelectionNotify) :
    Spares setting Deed.isHandling (handleTargets notify : Action δ Unit) := by
  have discarded : Spares setting Deed.isHandling
      (discardTargets notify : Action δ Unit) :=
    spares_setting (spares_awaits_of_looking (discardTargets_spares notify))
  refine .bind spares_current fun relay => ?_
  split
  case h_1 foreign => exact .bind (spares_note rfl) fun _ => discarded
  case h_2 selection named =>
    rcases relay.slots.arrive selection with ⟨arrival, slots⟩
    refine .bind (spares_update fun _ => rfl) fun _ => ?_
    cases arrival with
    | unexpected => exact .bind (spares_remark rfl) fun _ => discarded
    | stale => exact .bind (spares_remark rfl) fun _ => discarded
    | current =>
      dsimp only
      split
      · exact .bind (spares_remark rfl) fun _ => discarded
      refine .bind (spares_setting (spares_awaits_of_looking (readTargets_spares _ notify)))
        fun offered => ?_
      split
      · exact .pure
      · exact spares_setting (acceptTargets_spares _ _)

theorem handle_spares (event : Event) :
    Spares setting Deed.isHandling (handle event : Action δ Unit) := by
  cases event with
  | ownerChanged selection owner => exact handleOwner_spares selection owner
  | selectionNotify notify =>
    refine .bind spares_current fun relay => ?_
    split
    · exact handleTargets_spares notify
    · exact spares_setting (spares_awaits_of_fetching (handleConversion_spares notify))
  | selectionRequest request =>
    exact spares_setting (spares_awaits_of_serving (queueRequest_spares request))
  | propertyStored window property =>
    exact spares_setting (spares_awaits_of_fetching (handleStored_spares window property))
  | propertyDeleted window property =>
    exact spares_setting (spares_awaits_of_serving (handleDeleted_spares window property))
  | rootResized size =>
    refine .bind spares_current fun relay => ?_
    split
    · exact .pure
    · exact .bind (spares_update fun _ => rfl) fun _ => .bind spares_current fun _ =>
        spares_send rfl
  | protocolError text => exact spares_note rfl
  | other kind => exact spares_note rfl
  | selectionCleared selection => exact .pure
  | mappingChanged => exact .pure

end Handling

end Relay

end ClipboardRelay
