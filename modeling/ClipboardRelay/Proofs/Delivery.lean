import ClipboardRelay.Proofs.Departing
import ClipboardRelay.Proofs.Resuming
import Mathlib.Algebra.Order.Floor.Div
/-!
Handing the agent's data to the application that it was asked for. Data that fits into one property
is stored at once. Longer data is announced, and whenever the application deletes the property the
next chunk is stored, whatever else is done in between. Main statement: the application gets exactly
the data, each byte once and in order, as long as the selection does not change hands.
-/

namespace ClipboardRelay

namespace Incremental

/-- What is stored when the application takes something for the `index`th time, counted from
zero. -/
def chunkAt (limit : Nat) (data : Bytes) (index : Nat) : Bytes :=
  (data.drop (index * limit)).take limit

def chunkCount (limit : Nat) (data : Bytes) : Nat :=
  data.length ⌈/⌉ limit

variable {limit : Nat} {data : Bytes}

theorem chunkCount_le_iff (hlimit : 0 < limit) {index : Nat} :
    chunkCount limit data ≤ index ↔ data.length ≤ index * limit := by
  rw [chunkCount, ceilDiv_le_iff_le_mul hlimit, Nat.mul_comm]

theorem flatMap_chunkAt (limit : Nat) (data : Bytes) (count : Nat) :
    (List.range count).flatMap (chunkAt limit data) = data.take (count * limit) := by
  induction count with
  | zero => simp
  | succ count ih =>
    rw [List.range_succ, List.flatMap_append, ih, List.flatMap_singleton, chunkAt, Nat.succ_mul,
      List.take_add]

theorem flatMap_chunkAt_chunkCount (hlimit : 0 < limit) :
    (List.range (chunkCount limit data)).flatMap (chunkAt limit data) = data := by
  rw [flatMap_chunkAt, List.take_of_length_le ((chunkCount_le_iff hlimit).mp le_rfl)]

theorem chunkAt_eq_nil_iff (hlimit : 0 < limit) {index : Nat} :
    chunkAt limit data index = [] ↔ chunkCount limit data ≤ index := by
  rw [chunkCount_le_iff hlimit, chunkAt, List.take_eq_nil_iff, List.drop_eq_nil_iff]
  exact or_iff_right hlimit.ne'

theorem length_chunkAt_le (limit : Nat) (data : Bytes) (index : Nat) :
    (chunkAt limit data index).length ≤ limit :=
  List.length_take_le ..

end Incremental

def Deed.hands (event : SelectionRequest) : Deed → Bool
  | called .pollEvent (some (.propertyDeleted window property)) =>
    window = event.requestor ∧ property = event.replyProperty
  | called (.changeProperty ..) _ => true
  | _ => false

/-- How the data of a request was taken, and everything that was stored. -/
def History.handover (event : SelectionRequest) (history : History) : List Deed :=
  (history.map (·.deed)).filter (·.hands event)

@[simp] theorem History.handover_append (event : SelectionRequest) (first second : History) :
    (first ++ second).handover event = first.handover event ++ second.handover event := by
  simp [handover]

theorem History.handover_eq_nil {event : SelectionRequest} {history : History}
    (h : ∀ moment ∈ history, moment.deed.hands event = false) : history.handover event = [] := by
  simpa [handover] using h

namespace DesktopRequest

/-- The application takes what is stored, and a chunk is stored in its place. -/
def exchange (request : DesktopRequest) (chunk : Bytes) : List Deed :=
  [.called .pollEvent
      (some (.propertyDeleted request.event.requestor request.event.replyProperty)),
    .called (.changeProperty request.event.requestor request.event.replyProperty
      request.event.target (.bytes chunk)) ()]

def exchanges (request : DesktopRequest) (limit : Nat) (data : Bytes) (count : Nat) : List Deed :=
  (List.range count).flatMap fun index => request.exchange (Incremental.chunkAt limit data index)

theorem exchanges_succ (request : DesktopRequest) (limit : Nat) (data : Bytes) (count : Nat) :
    request.exchanges limit data (count + 1) =
      request.exchanges limit data count ++
        request.exchange (Incremental.chunkAt limit data count) := by
  rw [exchanges, List.range_succ, List.flatMap_append, List.flatMap_singleton, exchanges]

theorem length_exchanges (request : DesktopRequest) (limit : Nat) (data : Bytes) (count : Nat) :
    (request.exchanges limit data count).length = 2 * count := by
  simp [exchanges, exchange, List.length_flatMap, Nat.mul_comm]

def writerAt (request : DesktopRequest) (limit : Nat) (data : Bytes) (count : Nat) :
    Incremental.Writer :=
  { data
    position := min (count * limit) data.length
    requestor := request.event.requestor
    property := request.event.replyProperty
    target := request.event.target }

variable (request : DesktopRequest) (limit : Nat) (data : Bytes) (count : Nat)

theorem chunk_writerAt :
    (request.writerAt limit data count).chunk limit = Incremental.chunkAt limit data count := by
  rw [Incremental.Writer.chunk, Incremental.chunkAt]
  rcases Nat.le_total (count * limit) data.length with h | h
  · rw [writerAt, Nat.min_eq_left h]
  · rw [writerAt, Nat.min_eq_right h, List.drop_length, List.drop_of_length_le h]

theorem advance_writerAt :
    (request.writerAt limit data count).advance limit =
      request.writerAt limit data (count + 1) := by
  rw [Incremental.Writer.advance, chunk_writerAt, Incremental.chunkAt, List.length_take,
    List.length_drop]
  simp only [writerAt, Nat.succ_mul]
  congr 1
  omega

theorem concerns_writerAt {window : Window} {property : Atom} :
    (request.writerAt limit data count).concerns window property = true ↔
      request.event.requestor = window ∧ request.event.replyProperty = property := by
  rw [Incremental.Writer.concerns, Bool.and_eq_true, decide_eq_true_iff, decide_eq_true_iff]
  exact Iff.rfl

end DesktopRequest

open ClipboardRelay.Action (Spares Yields)

theorem Deed.not_hands_of_idle {event : SelectionRequest} {moment : Moment}
    (h : moment.isIdle = true) : moment.deed.hands event = false := by
  unfold hands
  split
  case h_3 => rfl
  all_goals
    rename_i hdeed
    rw [Moment.isIdle, hdeed] at h
    cases h

theorem Deed.not_hands_of_fetching {event : SelectionRequest} {deed : Deed}
    (h : deed.isFetching = true) : deed.hands event = false := by
  unfold hands
  split
  case h_3 => rfl
  all_goals cases h

theorem Deed.not_hands_of_survey {event : SelectionRequest} {moment : Moment}
    (h : moment.isSurvey = true) : moment.deed.hands event = false := by
  unfold hands
  split
  case h_3 => rfl
  all_goals
    rename_i hdeed
    rw [Moment.isSurvey, hdeed] at h
    cases h

/-- The first chunks of some data were handed over to the request at the head of the queue. -/
structure Sending (request : DesktopRequest) (limit : Nat) (data : Bytes)
    (behind : List DesktopRequest) (count : Nat) (relay : Relay) (since : History) : Prop where
  counted : count ≤ Incremental.chunkCount limit data
  handed : since.handover request.event = request.exchanges limit data count
  writer : relay.writer = some (request.writerAt limit data count)
  requests : ∃ waiting, relay.requests = request :: waiting ∧
    waiting.Sublist (behind ++ since.arrivals)
  limited : relay.propertyLimit = limit
  owned : relay.slots.owner request.selection = .agent

def Complete (request : DesktopRequest) (limit : Nat) (data : Bytes) (since : History) : Prop :=
  since.handover request.event =
    request.exchanges limit data (Incremental.chunkCount limit data + 1)

/-- Data was handed over completely, and the request left the queue then. -/
def Sent (request : DesktopRequest) (limit : Nat) (data : Bytes) (behind : List DesktopRequest)
    (relay : Relay) (since : History) : Prop :=
  ∃ first rest, since = first ++ rest ∧ Complete request limit data first ∧
    Departed (behind ++ first.arrivals) relay rest

theorem Sent.finishRequest {δ : Type} {request : DesktopRequest} {limit : Nat} {data : Bytes}
    {behind : List DesktopRequest} {relay : Relay} {first : History}
    (complete : Complete request limit data first)
    (hrest : relay.requests.tail.Sublist (behind ++ first.arrivals)) (hfree : relay.writer = none) :
    (Relay.finishRequest : Action δ Unit).Yields (fun _ => Sent request limit data behind) relay
      first := by
  have hfinished : (Relay.finishRequest : Action δ Unit).Yields
      (fun _ => Departed (behind ++ first.arrivals)) relay [] :=
    Departed.finishRequest (.nil hrest hfree)
  have hsince := hfinished.since first
  rw [List.append_nil] at hsince
  refine hsince.mono ?_
  rintro - after _ ⟨rest, rfl, departed⟩
  exact ⟨first, rest, rfl, complete, departed⟩

namespace Sending

variable {δ α : Type} {request : DesktopRequest} {limit : Nat} {data : Bytes}
  {behind : List DesktopRequest} {count : Nat} {relay after : Relay} {since : History}
  {selection : Selection}

def engaged (selection : Selection) (relay : Relay) :
    (Option Incremental.Writer × List DesktopRequest × Nat) × Owner :=
  ((relay.writer, relay.requests, relay.propertyLimit), relay.slots.owner selection)

theorem extend (h : Sending request limit data behind count relay since)
    (hkept : engaged request.selection after = engaged request.selection relay) {added : History}
    (hadded : ∀ moment ∈ added, moment.deed.hands request.event = false) :
    Sending request limit data behind count after (since ++ added) where
  counted := h.counted
  handed := by
    rw [History.handover_append, History.handover_eq_nil hadded, List.append_nil, h.handed]
  writer := (congrArg (·.1.1) hkept :).trans h.writer
  requests := by
    obtain ⟨waiting, hrequests, hwaiting⟩ := h.requests
    exact ⟨waiting, (congrArg (·.1.2.1) hkept :).trans hrequests,
      Departed.sublist_append hwaiting added⟩
  limited := (congrArg (·.1.2.2) hkept :).trans h.limited
  owned := (congrArg (·.2) hkept :).trans h.owned

theorem did (h : Sending request limit data behind count relay since) {deed : Deed}
    (hdeed : deed.hands request.event = false) :
    Sending request limit data behind count relay (since ++ [⟨relay, deed⟩]) :=
  h.extend rfl (List.forall_mem_singleton.mpr hdeed)

theorem yields (h : Sending request limit data behind count relay since) {action : Action δ α}
    (hspares : action.Spares (engaged request.selection)
      fun deed => !deed.hands request.event) :
    action.Yields (fun _ => Sending request limit data behind count) relay since :=
  hspares.yields fun _ _ _ hkept hadded => h.extend hkept fun moment hmoment => by
    simpa using hadded moment hmoment

theorem withSlots (h : Sending request limit data behind count relay since) {slots : Slots}
    (hslots : slots.holder request.selection = relay.slots.holder request.selection) :
    Sending request limit data behind count { relay with slots } since :=
  { h with owned := (congrArg Holder.owner hslots).trans h.owned }

theorem fetches (h : Sending request limit data behind count relay since) {action : Action δ α}
    (hspares : action.Spares Relay.besidesFetches Deed.isFetching) :
    action.Yields (fun _ => Sending request limit data behind count) relay since :=
  h.yields (hspares.mono (engaged request.selection) (fun _ => rfl) fun _ hfetching => by
    rw [Deed.not_hands_of_fetching hfetching, Bool.not_false])

theorem dropRequests (h : Sending request limit data behind count relay since)
    (other : selection ≠ request.selection) :
    (Relay.dropRequests selection : Action δ Unit).Yields
      (fun _ => Sending request limit data behind count) relay since := by
  obtain ⟨waiting, hrequests, hwaiting⟩ := h.requests
  have hrefuse (events : List SelectionRequest) : (Relay.refuseAll events : Action δ Unit).Spares
      (engaged request.selection) fun deed => !deed.hands request.event := by
    induction events with
    | nil => exact .pure
    | cons event events ih => exact .bind (Relay.spares_call fun _ => rfl) fun _ => ih
  have hkept : relay.requests.filter (·.selection ≠ selection) =
      request :: waiting.filter (·.selection ≠ selection) := by
    rw [hrequests, List.filter_cons_of_pos (by simpa using other.symm)]
  have hdropped : Sending request limit data behind count
      { relay with requests := relay.requests.filter (·.selection ≠ selection) } since :=
    { h with requests := ⟨_, hkept, List.filter_sublist.trans hwaiting⟩ }
  have hfront : relay.requests.head?.map (·.selection) ≠ some selection := by
    simpa [hrequests] using other.symm
  refine .current_bind ?_
  dsimp only
  rw [if_neg hfront]
  split
  · exact h
  · exact .update_bind (hdropped.yields (.bind (Relay.spares_remark rfl) fun _ =>
      .bind (hrefuse _) fun _ => .pure))

theorem changeHolder (h : Sending request limit data behind count relay since)
    (other : selection ≠ request.selection) (holder : Holder) :
    (Relay.changeHolder selection holder : Action δ Unit).Yields
      (fun _ => Sending request limit data behind count) relay since := by
  refine Relay.changeHolder_outlasts (h.dropRequests other) (fun h => ?_)
    (fun h => h.withSlots ?_) fun h => h.did rfl
  · exact h.fetches (Relay.spares_of_advancing (Relay.dropFetches_spares selection))
  · rw [Slots.holder_setHolder, if_neg other]

theorem following :
    Following δ (· ≠ request.selection) (Sending request limit data behind count) where
  surveys hsurvey h := h.did (Deed.not_hands_of_survey hsurvey)
  counts _ hslots h := h.withSlots (hslots _)
  changes holder other h := h.changeHolder other holder

theorem queueRequest (h : Sending request limit data behind count relay since)
    (event : SelectionRequest) :
    (Relay.queueRequest event : Action δ Unit).Yields
      (fun _ => Sending request limit data behind count) relay
      (since ++ [⟨relay, .called .pollEvent (some (.selectionRequest event))⟩]) := by
  have hpolled : Sending request limit data behind count relay (since ++
      [⟨relay, .called .pollEvent (some (.selectionRequest event))⟩]) := h.did rfl
  refine .current_bind ?_
  split
  case h_1 =>
    exact hpolled.yields (.bind (Relay.spares_note rfl) fun _ => Relay.spares_call fun _ => rfl)
  case h_2 selection named =>
    obtain ⟨waiting, hrequests, hwaiting⟩ := h.requests
    have harrived : History.arrivals (since ++
        [⟨relay, .called .pollEvent (some (.selectionRequest event))⟩]) =
        since.arrivals ++ [⟨selection, event⟩] := by
      simp [History.arrivals, Moment.arrival?, named]
    refine .update_bind ?_
    rw [hrequests]
    refine { hpolled with requests := ⟨waiting ++ [⟨selection, event⟩], rfl, ?_⟩ }
    rw [harrived, ← List.append_assoc]
    exact hwaiting.append (.refl _)

theorem deliver (h : Sending request limit data behind count relay since) (selection : Selection)
    (type : ContentType) (other : Bytes) :
    (Relay.deliver selection type other : Action δ Unit).Yields
      (fun _ => Sending request limit data behind count) relay since := by
  refine .current_bind ?_
  rw [h.writer]
  dsimp only
  split
  · exact h.did rfl
  · exact h

theorem handleDeleted (h : Sending request limit data behind count relay since) (hlimit : 0 < limit)
    (window : Window) (property : Atom) :
    (Relay.handleDeleted window property : Action δ Unit).Yields (fun _ after later =>
      (∃ count, Sending request limit data behind count after later) ∨
        Sent request limit data behind after later) relay
      (since ++ [⟨relay, .called .pollEvent (some (.propertyDeleted window property))⟩]) := by
  refine .current_bind ?_
  rw [h.writer]
  dsimp only
  split
  case isFalse apart =>
    rw [request.concerns_writerAt] at apart
    exact .inl ⟨count, h.did (decide_eq_false fun same => apart ⟨same.1.symm, same.2.symm⟩)⟩
  case isTrue concerned =>
    obtain ⟨rfl, rfl⟩ := (request.concerns_writerAt ..).mp concerned
    obtain ⟨waiting, hrequests, hwaiting⟩ := h.requests
    have hchunk : (request.writerAt limit data count).chunk relay.propertyLimit =
        Incremental.chunkAt limit data count := by rw [h.limited, request.chunk_writerAt]
    have hadvance : (request.writerAt limit data count).advance relay.propertyLimit =
        request.writerAt limit data (count + 1) := by rw [h.limited, request.advance_writerAt]
    rw [hchunk]
    refine .update_bind ?_
    rw [hadvance]
    rw [Yields, Action.ensures_bind, Relay.ensures_note]
    refine Relay.ensures_call_bind (fun _ => ?_) fun _ => trivial
    rw [List.append_assoc, List.append_assoc]
    have handed (polled noted stored : Relay) (notice : Notice) : History.handover request.event
        (since ++ ([⟨polled, .called .pollEvent (some (.propertyDeleted request.event.requestor
          request.event.replyProperty))⟩] ++ ([⟨noted, .noted notice⟩] ++
          [⟨stored, .called (.changeProperty request.event.requestor request.event.replyProperty
            request.event.target (.bytes (Incremental.chunkAt limit data count))) ()⟩]))) =
        request.exchanges limit data (count + 1) := by
      rw [History.handover_append, h.handed, request.exchanges_succ]
      simp [History.handover, Deed.hands, DesktopRequest.exchange]
    split
    case isTrue done =>
      have hcount : Incremental.chunkCount limit data = count :=
        Nat.le_antisymm ((Incremental.chunkAt_eq_nil_iff hlimit).mp (List.isEmpty_iff.mp done))
          h.counted
      refine Yields.update_bind ((Sent.finishRequest ?_ ?_ rfl).mono fun _ _ _ => .inr)
      · rw [Complete, hcount]
        exact handed _ _ _ _
      · rw [hrequests]
        exact Departed.sublist_append hwaiting _
    case isFalse more =>
      have hcount : count < Incremental.chunkCount limit data := by
        rw [← Nat.not_le, ← Incremental.chunkAt_eq_nil_iff hlimit]
        exact fun hnil => more (List.isEmpty_iff.mpr hnil)
      exact .inl ⟨count + 1, hcount, handed _ _ _ _, rfl,
        ⟨waiting, hrequests, Departed.sublist_append hwaiting _⟩, h.limited, h.owned⟩

end Sending

/-- Some of the data was handed over to the request at the head of the queue, or all of it to one
that is gone. -/
def Delivering (request : DesktopRequest) (limit : Nat) (data : Bytes)
    (behind : List DesktopRequest) (relay : Relay) (since : History) : Prop :=
  (∃ count, Sending request limit data behind count relay since) ∨
    Sent request limit data behind relay since

def HandedOver (request : DesktopRequest) (limit : Nat) (data : Bytes) (since : History) : Prop :=
  ∃ first, first <+: since ∧ Complete request limit data first

/-- Whether the selection may have changed hands before everything was handed over. -/
def CutOff (request : DesktopRequest) (limit : Nat) (data : Bytes) (since : History) : Prop :=
  ∃ before moment rest, since = before ++ moment :: rest ∧
    moment.Unsettles request.selection ∧ ¬ HandedOver request limit data before

theorem HandedOver.append {request : DesktopRequest} {limit : Nat} {data : Bytes} {since : History}
    (h : HandedOver request limit data since) (added : History) :
    HandedOver request limit data (since ++ added) := by
  obtain ⟨first, hfirst, complete⟩ := h
  exact ⟨first, hfirst.trans (List.prefix_append since added), complete⟩

theorem CutOff.append {request : DesktopRequest} {limit : Nat} {data : Bytes} {since : History}
    (h : CutOff request limit data since) (added : History) :
    CutOff request limit data (since ++ added) := by
  obtain ⟨before, moment, rest, rfl, hunsettles, hmore⟩ := h
  exact ⟨before, moment, rest ++ added, by simp, hunsettles, hmore⟩

theorem Sending.not_handedOver {request : DesktopRequest} {limit : Nat} {data : Bytes}
    {behind : List DesktopRequest} {count : Nat} {relay : Relay} {since : History}
    (sending : Sending request limit data behind count relay since) :
    ¬ HandedOver request limit data since := by
  rintro ⟨first, ⟨rest, rfl⟩, complete⟩
  have hlength := congrArg List.length sending.handed
  rw [History.handover_append, complete, List.length_append, request.length_exchanges,
    request.length_exchanges] at hlength
  have hcounted := sending.counted
  omega

namespace Delivering

variable {δ : Type} {request : DesktopRequest} {limit : Nat} {data : Bytes}
  {behind : List DesktopRequest} {count : Nat} {relay : Relay} {since : History}

def Free (request : DesktopRequest) (limit : Nat) (data : Bytes) (selection : Selection)
    (since : History) : Prop :=
  selection ≠ request.selection ∨ HandedOver request limit data since

theorem Free.append {selection : Selection} (h : Free request limit data selection since)
    (added : History) : Free request limit data selection (since ++ added) :=
  h.imp_right (·.append added)

theorem upholds_sent {excused : History → Prop} {action : Action δ Unit}
    {first rest begun : History}
    (complete : Complete request limit data first)
    (h : action.Upholds (fun _ => False) (Departed (behind ++ first.arrivals)) relay
      (rest ++ begun)) :
    action.Upholds excused (Delivering request limit data behind) relay
      (first ++ rest ++ begun) := by
  rw [List.append_assoc]
  refine (h.since first).mono ?_
  rintro - after _ ⟨later, rfl, ⟨⟨⟩⟩ | departed⟩
  exact .inr (.inr ⟨first, later, rfl, complete, departed⟩)

theorem upholds_sending {excused : History → Prop} {action : Action δ Unit}
    (h : action.Yields (fun _ => Sending request limit data behind count) relay since) :
    action.Upholds excused (Delivering request limit data behind) relay since :=
  h.mono fun _ _ _ sending => .inr (.inl ⟨count, sending⟩)

/-- Whatever is done, the data is handed over chunk by chunk as long as the selection does not
change hands. -/
theorem kept [Display δ] (hlimit : 0 < limit) :
    Kept δ (Free request limit data) (CutOff request limit data)
      (Delivering request limit data behind) where
  lasting added h := h.append added
  waits _ hfree := .inr (hfree.append _)
  resumes hfree _ _ := .inr (hfree.append _)
  seizes {relay history operation selection} hchanges := by
    rintro (⟨count, sending⟩ | ⟨first, rest, rfl, complete, -⟩)
    · by_cases hselection : selection = request.selection
      · have hunsettles : Moment.Unsettles request.selection ⟨relay, .began operation⟩ :=
          .inr ⟨operation, rfl, hselection ▸ hchanges⟩
        exact .inl ⟨history, _, [], rfl, hunsettles, sending.not_handedOver⟩
      · exact .inr (.inl hselection)
    · have handedOver : HandedOver request limit data (first ++ rest) :=
        ⟨first, List.prefix_append first rest, complete⟩
      exact .inr (.inr (handedOver.append _))
  still hstill h := h.imp
    (fun ⟨count, sending⟩ =>
      ⟨count, sending.did (Deed.not_hands_of_idle (Moment.idle_of_still hstill))⟩)
    fun ⟨first, rest, hsplit, complete, departed⟩ =>
      ⟨first, _, by rw [hsplit, List.append_assoc], complete, departed.did _⟩
  resized _ h := h.imp (fun ⟨count, sending⟩ => ⟨count, { sending with }⟩)
    fun ⟨first, rest, hsplit, complete, departed⟩ =>
      ⟨first, rest, hsplit, complete, ⟨departed.requests, departed.gone, departed.free⟩⟩
  declines _ _ _ h := h.imp
    (fun ⟨count, sending⟩ => ⟨count, sending.extend rfl (by simp [Deed.hands])⟩)
    fun ⟨first, rest, hsplit, complete, departed⟩ =>
      ⟨first, _, by rw [hsplit, List.append_assoc], complete, departed.extend rfl (by simp)⟩
  queues {relay history operation fetch} haccepted := by
    rintro (⟨count, sending⟩ | ⟨first, rest, rfl, complete, departed⟩)
    · exact upholds_sending ((sending.did rfl).fetches (Relay.spares_of_advancing
        (Relay.queueFetch_spares fetch)))
    · exact upholds_sent complete (Departed.kept.queues haccepted departed)
  changes {relay history selection} holder hfree := by
    rintro (⟨count, sending⟩ | ⟨first, rest, rfl, complete, departed⟩)
    · exact upholds_sending (sending.changeHolder (hfree.resolve_right sending.not_handedOver) holder)
    · rw [← List.append_nil (first ++ rest)]
      refine upholds_sent complete ?_
      rw [List.append_nil]
      exact Departed.kept.changes holder trivial departed
  supplies {relay history operation selection type other} hsupplies := by
    rintro (⟨count, sending⟩ | ⟨first, rest, rfl, complete, departed⟩)
    · exact upholds_sending ((sending.did rfl).deliver selection type other)
    · exact upholds_sent complete (Departed.kept.supplies hsupplies departed)
  handles {relay history event} hevent := by
    rintro (⟨count, sending⟩ | ⟨first, rest, rfl, complete, departed⟩)
    case inr => exact upholds_sent complete (Departed.kept.handles hevent departed)
    cases event with
    | ownerChanged atom owner =>
      by_cases displaced : (Moment.mk relay (.called .pollEvent
          (some (.ownerChanged atom owner)))).displaces request.selection = true
      · have hcutOff : CutOff request limit data (history ++
            [⟨relay, .called .pollEvent (some (.ownerChanged atom owner))⟩]) :=
          ⟨history, _, [], rfl, .inl displaced, sending.not_handedOver⟩
        exact (Relay.handleOwner atom owner).spares_begun.yields fun _ _ added _ _ =>
          .inl (hcutOff.append added)
      · exact upholds_sending (Sending.following.handleOwner_of_settled displaced (sending.did rfl))
    | selectionNotify notify =>
      have hpolled : Sending request limit data behind count relay (history ++
          [⟨relay, .called .pollEvent (some (.selectionNotify notify))⟩]) := sending.did rfl
      refine .current_bind ?_
      split
      · refine upholds_sending (Sending.following.handleTargets ?_ hpolled)
        rintro selection - foreign rfl
        exact foreign hpolled.owned
      · exact upholds_sending (hpolled.fetches (Relay.handleConversion_spares notify))
    | selectionRequest event => exact upholds_sending (sending.queueRequest event)
    | propertyStored window property =>
      exact upholds_sending ((sending.did rfl).fetches (Relay.handleStored_spares window property))
    | propertyDeleted window property =>
      exact (sending.handleDeleted hlimit window property).mono fun _ _ _ => .inr
    | rootResized | protocolError | other | selectionCleared | mappingChanged => cases hevent

end Delivering

namespace DesktopRequest

def storing (request : DesktopRequest) (data : Bytes) : List Deed :=
  [.called (.changeProperty request.event.requestor request.event.replyProperty
      request.event.target (.bytes data)) (),
    .called (.notifyRequestor request.event request.event.replyProperty) ()]

def announcing (request : DesktopRequest) (incr : Atom) (data : Bytes) : List Deed :=
  [.noted (.about request.selection (.sendingStarted data.length)),
    .called (.watchProperties request.event.requestor) (),
    .called (.changeProperty request.event.requestor request.event.replyProperty incr
      (.words [UInt32.ofNat (min data.length (UInt32.size - 1))])) (),
    .called (.notifyRequestor request.event request.event.replyProperty) ()]

end DesktopRequest

section Opening

variable {δ : Type} {request : DesktopRequest} {behind : List DesktopRequest} {relay : Relay}
  (history : History) {type : ContentType} {data : Bytes} {excused : History → Prop}
  (front : relay.requests = request :: behind) (free : relay.writer = none)
  (known : relay.registry.typeFor request.event.target = some type)

include front free known

theorem deliver_stores (short : data.length ≤ relay.propertyLimit) :
    (Relay.deliver request.selection type data : Action δ Unit).Yields (fun _ after =>
      History.Since (history ++ (request.storing data).map (Moment.mk relay))
        fun since => excused since ∨ Departed behind after since) relay history := by
  refine .current_bind ?_
  rw [free, front]
  dsimp only
  rw [known, Option.getD_some, if_pos ⟨rfl, rfl⟩, if_neg (Nat.not_lt.mpr short)]
  refine Relay.ensures_call_bind (fun _ => ?_) fun _ => trivial
  refine Relay.ensures_call_bind (fun _ => ?_) fun _ => trivial
  rw [List.append_assoc]
  have hbehind : relay.requests.tail.Sublist behind := by rw [front, List.tail_cons]
  have hfinished : (Relay.finishRequest : Action δ Unit).Yields
      (fun _ after since => excused since ∨ Departed behind after since) relay [] :=
    (Departed.finishRequest (.nil hbehind free)).mono fun _ _ _ => .inr
  have hsince := hfinished.since (history ++ (request.storing data).map (Moment.mk relay))
  rwa [List.append_nil] at hsince

theorem deliver_announces (long : relay.propertyLimit < data.length)
    (owned : relay.slots.owner request.selection = .agent) :
    (Relay.deliver request.selection type data : Action δ Unit).Yields (fun _ after =>
      History.Since
        (history ++ (request.announcing relay.vocabulary.incr data).map (Moment.mk relay))
        fun since => excused since ∨
          Delivering request relay.propertyLimit data behind after since) relay history := by
  refine .current_bind ?_
  rw [free, front]
  dsimp only
  rw [known, Option.getD_some, if_pos ⟨rfl, rfl⟩, if_pos long]
  refine .current_bind ?_
  rw [Yields, Action.ensures_bind, Relay.ensures_remark]
  refine Relay.ensures_call_bind (fun _ => ?_) fun _ => trivial
  refine Relay.ensures_call_bind (fun _ => ?_) fun _ => trivial
  refine Relay.ensures_call_bind (fun _ => ?_) fun _ => trivial
  rw [Relay.ensures_update]
  refine ⟨[], by simp [DesktopRequest.announcing], .inr (.inl ⟨0, Nat.zero_le _, rfl, ?_,
    ⟨behind, front, List.sublist_append_left _ _⟩, rfl, owned⟩)⟩
  simp [DesktopRequest.writerAt]

end Opening

section Limit

variable {δ : Type} [Display δ] (hmax : ∀ asked (display : δ),
    Display.maxRequestBytes (Display.perform asked display).2 = Display.maxRequestBytes display)

include hmax

theorem Exchange.maxRequestBytes_call {asked : Call} {answer : asked.Answer} {display after : δ}
    (h : (Exchange.call asked).run display = (.ok answer, after)) :
    Display.maxRequestBytes after = Display.maxRequestBytes display :=
  (congrArg (fun run => Display.maxRequestBytes run.2) h :).symm.trans (hmax asked display)

theorem Vocabulary.maxRequestBytes_intern {vocabulary : Vocabulary} {display after : δ}
    (h : Vocabulary.intern.run display = (.ok vocabulary, after)) :
    Display.maxRequestBytes after = Display.maxRequestBytes display := by
  unfold Vocabulary.intern at h
  obtain ⟨_, _, hclipboard, h⟩ := Exchange.exists_of_run_bind h
  obtain ⟨_, _, hprimary, h⟩ := Exchange.exists_of_run_bind h
  obtain ⟨_, _, htargets, h⟩ := Exchange.exists_of_run_bind h
  obtain ⟨_, _, hincr, h⟩ := Exchange.exists_of_run_bind h
  obtain ⟨_, _, hmultiple, h⟩ := Exchange.exists_of_run_bind h
  cases h
  rw [Exchange.maxRequestBytes_call hmax hmultiple, Exchange.maxRequestBytes_call hmax hincr,
    Exchange.maxRequestBytes_call hmax htargets, Exchange.maxRequestBytes_call hmax hprimary,
    Exchange.maxRequestBytes_call hmax hclipboard]

theorem Registry.maxRequestBytes_internNames {names : List String} {atoms : List Atom}
    {display after : δ} (h : (Registry.internNames names).run display = (.ok atoms, after)) :
    Display.maxRequestBytes after = Display.maxRequestBytes display := by
  induction names generalizing display after atoms with
  | nil =>
    cases h
    rfl
  | cons name names ih =>
    obtain ⟨_, _, hcall, h⟩ := Exchange.exists_of_run_bind h
    obtain ⟨_, _, hnames, h⟩ := Exchange.exists_of_run_bind h
    cases h
    rw [ih hnames, Exchange.maxRequestBytes_call hmax hcall]

theorem Registry.maxRequestBytes_internFormats {entries : List (ContentType × List String)}
    {formats : List Format} {display after : δ}
    (h : (Registry.internFormats entries).run display = (.ok formats, after)) :
    Display.maxRequestBytes after = Display.maxRequestBytes display := by
  induction entries generalizing display after formats with
  | nil =>
    cases h
    rfl
  | cons entry entries ih =>
    obtain ⟨_, _, hnames, h⟩ := Exchange.exists_of_run_bind h
    obtain ⟨_, _, hformats, h⟩ := Exchange.exists_of_run_bind h
    cases h
    rw [ih hformats, Registry.maxRequestBytes_internNames hmax hnames]

theorem Relay.propertyLimit_of_prepare {relay : Relay} {display after : δ}
    (h : Relay.prepare.run display = (.ok relay, after)) :
    relay.propertyLimit = Incremental.propertyLimit (Display.maxRequestBytes display) := by
  unfold Relay.prepare at h
  obtain ⟨_, _, hvocabulary, h⟩ := Exchange.exists_of_run_bind h
  obtain ⟨_, _, hregistry, h⟩ := Exchange.exists_of_run_bind h
  obtain ⟨_, _, hget, h⟩ := Exchange.exists_of_run_bind h
  obtain ⟨_, _, -, h⟩ := Exchange.exists_of_run_bind h
  obtain ⟨_, _, -, h⟩ := Exchange.exists_of_run_bind h
  obtain ⟨_, _, hformats, hresolve⟩ := Exchange.exists_of_run_bind hregistry
  cases h
  cases hresolve
  cases hget
  rw [Registry.maxRequestBytes_internFormats hmax hformats,
    Vocabulary.maxRequestBytes_intern hmax hvocabulary]

theorem Course.propertyLimit_after {display : δ} {course : Course δ}
    (hstart : Course.start display = some course) (moves : List (Move δ)) :
    (course.after moves).relay.propertyLimit =
      Incremental.propertyLimit (Display.maxRequestBytes display) := by
  refine Course.holds_after_prepared (fun stage => stage.relay.propertyLimit =
    Incremental.propertyLimit (Display.maxRequestBytes display))
    (fun relay after h => (Relay.propertyLimit_of_prepare hmax h :)) ?_ ?_ hstart moves
  · intro stage next step h
    cases step with
    | dropRequests | dropFetches =>
      dsimp only
      split <;> exact h
    | _ => exact h
  · intro stage next broke h
    cases broke <;> exact h

end Limit

namespace Course

variable {δ : Type} [Display δ]

/-- What becomes of data that the agent hands over for the request at the head of the queue. -/
structure HandsOver (before : Course δ) (operation : Operation) (request : DesktopRequest)
    (behind : List DesktopRequest) (limit : Nat) (data : Bytes) (later : Course δ) : Prop where
  /-- Data that fits into one property is stored at once, and the request is gone: whatever is
  stored since is for another one, which was behind it or came since. -/
  whole : data.length ≤ limit → ∃ since, later.history = before.history ++
    (Deed.began operation :: request.storing data).map (Moment.mk before.relay) ++ since ∧
    Departed behind later.relay since ∧ ∀ moment ∈ since, moment.StoreFits
  chunked : limit < data.length → ∃ since, later.history = before.history ++
    (Deed.began operation :: request.announcing before.relay.vocabulary.incr data).map
      (Moment.mk before.relay) ++ since ∧
    (CutOff request limit data since ∨ Delivering request limit data behind later.relay since)
  bytes : (List.range (Incremental.chunkCount limit data)).flatMap
    (Incremental.chunkAt limit data) = data
  chunks : ∀ index, (Incremental.chunkAt limit data index).length ≤ limit ∧
    (Incremental.chunkAt limit data index = [] ↔ Incremental.chunkCount limit data ≤ index)

/-- What the agent hands over for the request at the head of the queue reaches that application
byte by byte, however the run goes on: at once if it fits into one property, and else in chunks,
one whenever the last one was taken, as long as the selection does not change hands. -/
theorem data_handed_over {display : δ} {course : Course δ} (hstart : start display = some course)
    (hmax : ∀ asked (display : δ),
      Display.maxRequestBytes (Display.perform asked display).2 = Display.maxRequestBytes display)
    (hroom : Incremental.propertySizeMargin < Display.maxRequestBytes display)
    {moves : List (Move δ)} {request : DesktopRequest} {behind : List DesktopRequest}
    (front : (course.after moves).relay.requests = request :: behind)
    (free : (course.after moves).relay.writer = none) {type : ContentType}
    (known : (course.after moves).relay.registry.typeFor request.event.target = some type)
    {operation : Operation} {data : Bytes}
    (hsupply : operation.supply? = some (request.selection, type, data))
    {continuation : List (Move δ)}
    (hfaultless : (((course.after moves).move (.operate operation)).after
      continuation).history.faultless = true) :
    (course.after moves).HandsOver operation request behind
      (Incremental.propertyLimit (Display.maxRequestBytes display)) data
      (((course.after moves).move (.operate operation)).after continuation) := by
  have hlimit := propertyLimit_after hmax hstart moves
  have hpositive : 0 < Incremental.propertyLimit (Display.maxRequestBytes display) := by
    unfold Incremental.propertyLimit Incremental.maxPropertySize
    omega
  have hbefore : (course.after moves).history.faultless = true := by
    have hmoved := faultless_of_after hfaultless
    rw [move, History.faultless_append, Bool.and_eq_true] at hmoved
    exact hmoved.1
  obtain ⟨_, owned, -⟩ := (booked_after hstart hbefore).front_asked front rfl
  have hrun : course.after (moves ++ .operate operation :: continuation) =
      ((course.after moves).move (.operate operation)).after continuation := after_append ..
  have booked := booked_after hstart (hrun ▸ hfaultless)
  rw [hrun] at booked
  refine ⟨fun short => ?_, fun long => ?_, Incremental.flatMap_chunkAt_chunkCount hpositive,
    fun index => ⟨Incremental.length_chunkAt_le _ _ _, Incremental.chunkAt_eq_nil_iff hpositive⟩⟩
  · have hkept : Kept δ (fun _ _ => True) (fun _ => False) (Departed behind) := Departed.kept
    have hoperation := hkept.dispatch_since (deliver_stores ((course.after moves).history ++
      [⟨(course.after moves).relay, .began operation⟩]) front free known (hlimit ▸ short))
    rw [← Operation.action_of_supply? hsupply] at hoperation
    obtain ⟨since, hsince, ⟨⟨⟩⟩ | departed⟩ := hkept.after_operation hoperation hfaultless
    refine ⟨since, by simpa using hsince, departed, fun moment hmoment => (booked.fits moment ?_).2⟩
    rw [hsince]
    exact List.mem_append_right _ hmoment
  · rw [← hlimit] at hpositive long ⊢
    have hkept : Kept δ _ _ (Delivering request _ data behind) := Delivering.kept hpositive
    have hoperation := hkept.dispatch_since (deliver_announces ((course.after moves).history ++
      [⟨(course.after moves).relay, .began operation⟩]) front free known long owned)
    rw [← Operation.action_of_supply? hsupply] at hoperation
    obtain ⟨since, hsince, hdelivering⟩ := hkept.after_operation hoperation hfaultless
    exact ⟨since, by simpa using hsince, hdelivering⟩

end Course

theorem Memory.Display.maxRequestBytes_perform (asked : Call) (display : Memory.Display) :
    (ClipboardRelay.Display.perform asked display).2.maxRequestBytes = display.maxRequestBytes := by
  have hanswer (display : Memory.Display) :
      (answer asked display).2.maxRequestBytes = display.maxRequestBytes := by
    cases asked with
    | setSelectionOwner | getProperty | pollEvent =>
      simp only [answer]
      split <;> rfl
    | setScreenSize index =>
      simp only [answer]
      split
      · rfl
      · split <;> rfl
    | _ => rfl
  change (perform asked display).2.maxRequestBytes = display.maxRequestBytes
  unfold perform
  split
  · rfl
  · exact hanswer _

namespace Course

def requestingText : List (Move Memory.Display) :=
  [.operate (.grab .clipboard [.utf8Text]),
    .elapse { events := [.selectionRequest ⟨0, ⟨7⟩, ⟨100⟩, ⟨105⟩, ⟨52⟩⟩,
      .selectionRequest ⟨0, ⟨8⟩, ⟨100⟩, ⟨102⟩, ⟨51⟩⟩] },
    .operate .dispatch]

def takingText : List (Move Memory.Display) :=
  [.operate (.supply .clipboard .utf8Text [1]),
    .elapse { events := [.propertyDeleted ⟨7⟩ ⟨52⟩, .ownerChanged ⟨101⟩ ⟨9⟩,
      .propertyDeleted ⟨8⟩ ⟨52⟩, .propertyDeleted ⟨7⟩ ⟨52⟩] },
    .operate .dispatch, .elapse { events := [.propertyDeleted ⟨7⟩ ⟨52⟩] }, .operate .dispatch]

theorem data_handed_over_takingText : ∃ course, start narrow = some course ∧
    (((course.after requestingText).move (.operate (.fulfil (.data .clipboard .utf8Text
      [104, 101, 108, 108, 111, 33])))).after takingText).history.faultless = true ∧
    (((course.after requestingText).move (.operate (.fulfil (.data .clipboard .utf8Text
      [104, 101, 108, 108, 111, 33])))).after takingText).relay.requests = [] ∧
    (course.after requestingText).HandsOver (.fulfil (.data .clipboard .utf8Text
        [104, 101, 108, 108, 111, 33])) ⟨.clipboard, ⟨0, ⟨7⟩, ⟨100⟩, ⟨105⟩, ⟨52⟩⟩⟩
      [⟨.clipboard, ⟨0, ⟨8⟩, ⟨100⟩, ⟨102⟩, ⟨51⟩⟩⟩] 4 [104, 101, 108, 108, 111, 33]
      (((course.after requestingText).move (.operate (.fulfil (.data .clipboard .utf8Text
        [104, 101, 108, 108, 111, 33])))).after takingText) := by
  have hstart : start narrow = some ((start narrow).get (by decide +kernel)) :=
    (Option.some_get _).symm
  have hfaultless : (((((start narrow).get (by decide +kernel)).after requestingText).move
      (.operate (.fulfil (.data .clipboard .utf8Text
        [104, 101, 108, 108, 111, 33])))).after takingText).history.faultless = true := by
    decide +kernel
  exact ⟨_, hstart, hfaultless, by decide +kernel, data_handed_over hstart
    Memory.Display.maxRequestBytes_perform (by decide) (by decide +kernel) (by decide +kernel)
    (by decide +kernel) rfl hfaultless⟩

end Course

end ClipboardRelay
