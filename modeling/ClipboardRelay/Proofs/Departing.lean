import ClipboardRelay.Proofs.Attribution
import ClipboardRelay.Proofs.Following
/-!
The queue once a request has left it. Main statement: whatever is done, the requests that wait are
those that were behind it and those that came since, and nothing is sent in chunks before the agent
hands over something else.
-/

namespace ClipboardRelay

open ClipboardRelay.Action (Spares Yields)

/-- The requests are those that were behind another one and those that came since, and so they were
all the time. Nothing is sent in chunks unless the agent has handed over something since. -/
structure Departed (behind : List DesktopRequest) (relay : Relay) (since : History) : Prop where
  requests : relay.requests.Sublist (behind ++ since.arrivals)
  gone : since.Always fun before moment =>
    moment.relay.requests.Sublist (behind ++ before.arrivals)
  free : since.supplies = [] → relay.writer = none

namespace Departed

variable {δ α : Type} {behind : List DesktopRequest} {relay after : Relay} {since : History}
  {selection : Selection}

def serving (relay : Relay) : List DesktopRequest × Option Incremental.Writer :=
  (relay.requests, relay.writer)

theorem sublist_append {queue : List DesktopRequest} (h : queue.Sublist (behind ++ since.arrivals))
    (added : History) : queue.Sublist (behind ++ (since ++ added).arrivals) := by
  rw [History.arrivals, List.filterMap_append, ← List.append_assoc]
  exact h.trans (List.sublist_append_left _ _)

theorem of_supplies_append {added : History} (h : (since ++ added).supplies = []) :
    since.supplies = [] := by
  rw [History.supplies, List.filterMap_append, List.append_eq_nil_iff] at h
  exact h.1

theorem nil (hrequests : relay.requests.Sublist behind) (hfree : relay.writer = none) :
    Departed behind relay [] :=
  ⟨hrequests.trans (List.sublist_append_left _ _), .nil, fun _ => hfree⟩

theorem extend (h : Departed behind relay since) (hkept : serving after = serving relay)
    {added : History} (hadded : ∀ moment ∈ added, moment.relay.requests = relay.requests) :
    Departed behind after (since ++ added) where
  requests := by
    rw [show after.requests = relay.requests from congrArg Prod.fst hkept]
    exact sublist_append h.requests added
  gone := h.gone.extend fun middle moment hmoment => by
    rw [hadded moment hmoment]
    exact sublist_append h.requests middle
  free hnone := (congrArg Prod.snd hkept :).trans (h.free (of_supplies_append hnone))

theorem did (h : Departed behind relay since) (deed : Deed) :
    Departed behind relay (since ++ [⟨relay, deed⟩]) :=
  h.extend rfl (by simp)

theorem yields (h : Departed behind relay since) {action : Action δ α} {apart : Deed → Bool}
    (hspares : action.Spares serving apart) :
    action.Yields (fun _ => Departed behind) relay since :=
  hspares.yields_throughout fun _ _ _ hkept hadded => h.extend hkept fun moment hmoment =>
    (congrArg Prod.fst (hadded moment hmoment).2 :)

theorem keeps (h : Departed behind relay since) {action : Action δ α}
    (hspares : action.Spares serving fun _ => true) :
    action.Yields (fun _ => Departed behind) relay since :=
  h.yields hspares

theorem serveFrom (h : Departed behind relay since) {queue : List DesktopRequest}
    (hqueue : queue.Sublist (behind ++ since.arrivals)) :
    (Relay.serveFrom queue : Action δ Unit).Yields (fun _ => Departed behind) relay since := by
  induction queue generalizing relay since with
  | nil => exact h
  | cons request rest ih =>
    have hrest : rest.Sublist (behind ++ since.arrivals) :=
      (List.sublist_cons_self request rest).trans hqueue
    have hspares : (Relay.serve request : Action δ Relay.Progress).Spares serving Deed.isServing :=
      Relay.serve_spares request
    have hserved : (Relay.serve request : Action δ Relay.Progress).Yields
        (fun _ after later => Departed behind after later ∧
          rest.Sublist (behind ++ later.arrivals)) relay since :=
      (h.yields hspares).and (hspares.yields fun _ _ added _ _ => sublist_append hrest added)
    refine hserved.bind fun progress after later ⟨hafter, hrest⟩ => ?_
    cases progress with
    | waiting => exact hafter
    | answered =>
      refine .update_bind (ih ?_ hrest)
      exact ⟨hrest, hafter.gone, hafter.free⟩

theorem serveRequests (h : Departed behind relay since) :
    (Relay.serveRequests : Action δ Unit).Yields (fun _ => Departed behind) relay since :=
  .current_bind (h.serveFrom h.requests)

theorem finishRequest (h : Departed behind { relay with requests := relay.requests.tail } since) :
    (Relay.finishRequest : Action δ Unit).Yields (fun _ => Departed behind) relay since :=
  .update_bind h.serveRequests

theorem tail (h : Departed behind relay since) :
    Departed behind { relay with requests := relay.requests.tail } since :=
  ⟨(List.tail_sublist _).trans h.requests, h.gone, h.free⟩

theorem dropRequests (h : Departed behind relay since) (selection : Selection) :
    (Relay.dropRequests selection : Action δ Unit).Yields (fun _ => Departed behind) relay
      since := by
  refine .current_bind ?_
  dsimp only
  split
  · exact h
  have hkept : Departed behind
      { relay with requests := relay.requests.filter (·.selection ≠ selection) } since :=
    ⟨List.filter_sublist.trans h.requests, h.gone, h.free⟩
  refine .update_bind (.bind (hkept.keeps (Relay.spares_remark rfl)) fun _ _ _ h => ?_)
  refine .bind (h.yields (Relay.refuseAll_spares _)) fun _ after later h => ?_
  split
  · exact .update_bind (serveRequests ⟨h.requests, h.gone, fun _ => rfl⟩)
  · exact h

theorem spares_of_fetching {action : Action δ α}
    (h : action.Spares Relay.besidesFetches Deed.isFetching) :
    action.Spares serving Deed.isFetching :=
  h.mono serving (fun _ => rfl) fun _ => id

theorem changeHolder (h : Departed behind relay since) (selection : Selection) (holder : Holder) :
    (Relay.changeHolder selection holder : Action δ Unit).Yields (fun _ => Departed behind) relay
      since := by
  refine Relay.changeHolder_outlasts (h.dropRequests selection) (fun h => ?_)
    (fun h => ⟨h.requests, h.gone, h.free⟩) fun h => h.did _
  exact h.yields (spares_of_fetching (Relay.spares_of_advancing (Relay.dropFetches_spares selection)))

theorem following : Following δ (fun _ => True) (Departed behind) where
  surveys _ h := h.did _
  counts _ _ h := ⟨h.requests, h.gone, h.free⟩
  changes holder _ h := h.changeHolder _ holder

theorem queueRequest (h : Departed behind relay since) (event : SelectionRequest) :
    (Relay.queueRequest event : Action δ Unit).Yields (fun _ => Departed behind) relay
      (since ++ [⟨relay, .called .pollEvent (some (.selectionRequest event))⟩]) := by
  have hpolled := h.did (.called .pollEvent (some (.selectionRequest event)))
  refine .current_bind ?_
  split
  case h_1 =>
    exact hpolled.yields (.bind (Relay.spares_note rfl) fun _ => Relay.refuse_spares event)
  case h_2 selection named =>
    have harrived : History.arrivals (since ++
        [⟨relay, .called .pollEvent (some (.selectionRequest event))⟩]) =
        since.arrivals ++ [⟨selection, event⟩] := by
      simp [History.arrivals, Moment.arrival?, named]
    have hqueued : Departed behind
        { relay with requests := relay.requests ++ [⟨selection, event⟩] }
        (since ++ [⟨relay, .called .pollEvent (some (.selectionRequest event))⟩]) := by
      refine ⟨?_, hpolled.gone, hpolled.free⟩
      rw [harrived, ← List.append_assoc]
      exact h.requests.append (.refl _)
    refine .update_bind ?_
    split
    · exact hqueued.serveRequests
    · exact hqueued

theorem supplied (h : Departed behind relay since) (hsupplies : since.supplies ≠ [])
    (writer : Option Incremental.Writer) : Departed behind { relay with writer } since :=
  ⟨h.requests, h.gone, fun hnone => absurd hnone hsupplies⟩

theorem startSending (h : Departed behind relay since) (hsupplies : since.supplies ≠ [])
    (event : SelectionRequest) (data : Bytes) :
    (Relay.startSending selection event data : Action δ Unit).Yields (fun _ => Departed behind)
      relay since := by
  have hrequests : (Relay.startSending selection event data : Action δ Unit).Spares
      (·.requests) fun _ => true :=
    .bind Relay.spares_current fun _ => .bind (Relay.spares_remark rfl) fun _ =>
      .bind (Relay.spares_call fun _ => rfl) fun _ => .bind (Relay.spares_call fun _ => rfl)
        fun _ => .bind (Relay.spares_call fun _ => rfl) fun _ => Relay.spares_update fun _ => rfl
  refine hrequests.yields_throughout fun _ after added hkept hadded => ?_
  have hsupplied : Departed behind { relay with writer := after.writer } since :=
    h.supplied hsupplies after.writer
  exact hsupplied.extend (congrArg (·, after.writer) hkept) fun moment hmoment =>
    (hadded moment hmoment).2

theorem deliver (h : Departed behind relay since) (hsupplies : since.supplies ≠ [])
    (selection : Selection) (type : ContentType) (data : Bytes) :
    (Relay.deliver selection type data : Action δ Unit).Yields (fun _ => Departed behind) relay
      since := by
  have finished {relay : Relay} {since : History} (h : Departed behind relay since) :
      (Relay.finishRequest : Action δ Unit).Yields (fun _ => Departed behind) relay since :=
    finishRequest h.tail
  have refused {relay : Relay} {since : History} (event : SelectionRequest)
      (h : Departed behind relay since) :
      (do Relay.refuse event; Relay.finishRequest : Action δ Unit).Yields
        (fun _ => Departed behind) relay since :=
    .bind (h.yields (Relay.refuse_spares event)) fun _ _ _ => finished
  refine .current_bind ?_
  dsimp only
  split
  · split
    · exact h.did _
    · exact h
  · split
    · exact h.did _
    · exact h
  · split
    · split
      · exact h.startSending hsupplies _ _
      · exact .bind (h.keeps (Relay.spares_call fun _ => rfl))
          fun _ _ _ h => .bind (h.keeps (Relay.spares_call fun _ => rfl))
            fun _ _ _ => finished
    · split
      · refine .bind (h.keeps (Relay.spares_remark rfl)) fun _ _ _ h => ?_
        split
        · exact .bind (h.keeps (Relay.spares_remark rfl)) fun _ _ _ => refused _
        · exact refused _ h
      · split
        · exact .bind (h.keeps (Relay.spares_remark rfl)) fun _ _ _ => refused _
        · exact refused _ h

theorem handleDeleted (h : Departed behind relay since) (window : Window) (property : Atom) :
    (Relay.handleDeleted window property : Action δ Unit).Yields (fun _ => Departed behind) relay
      since := by
  refine .current_bind ?_
  split
  case h_1 => exact h
  case h_2 writer busy =>
    have hsupplies : since.supplies ≠ [] := fun hnone => by
      rw [h.free hnone] at busy
      cases busy
    split
    case isFalse => exact h
    case isTrue =>
      have hadvanced := h.supplied hsupplies (some (writer.advance relay.propertyLimit))
      refine .update_bind (.bind (hadvanced.keeps (Relay.spares_note rfl)) fun _ _ _ h => ?_)
      refine .bind (h.keeps (Relay.spares_call fun _ => rfl)) fun _ _ _ h => ?_
      split
      · exact .update_bind (finishRequest ⟨h.tail.requests, h.gone, fun _ => rfl⟩)
      · exact h

/-- Nothing brings a request back that has left the queue. -/
theorem kept [Display δ] : Kept δ (fun _ _ => True) (fun _ => False) (Departed behind) where
  lasting _ h := h.elim
  waits _ _ := .inr trivial
  resumes _ _ _ := .inr trivial
  seizes _ _ := .inr trivial
  still _ h := h.did _
  resized _ h := ⟨h.requests, h.gone, h.free⟩
  declines _ _ _ h := h.extend rfl (by simp)
  queues _ h := ((h.did _).yields (spares_of_fetching (Relay.spares_of_advancing
    (Relay.queueFetch_spares _)))).mono fun _ _ _ => .inr
  changes holder _ h := (h.changeHolder _ holder).mono fun _ _ _ => .inr
  supplies {relay history operation selection type data} hsupplies h := by
    have hsupplied : History.supplies (history ++ [⟨relay, .began operation⟩]) ≠ [] := by
      rcases hsupplies with rfl | rfl <;>
        simp [History.supplies, Moment.supply?, Operation.supply?]
    exact ((h.did _).deliver hsupplied _ _ _).mono fun _ _ _ => .inr
  handles {relay history event} hevent h := by
    refine Yields.mono ?_ fun _ _ _ => .inr
    have hpolled := h.did (.called .pollEvent (some event))
    cases event with
    | ownerChanged atom owner => exact following.handleOwner (fun _ _ _ => trivial) hpolled
    | selectionNotify notify =>
      refine .current_bind ?_
      split
      · exact following.handleTargets (fun _ _ _ => trivial) hpolled
      · exact hpolled.yields (spares_of_fetching (Relay.handleConversion_spares notify))
    | selectionRequest event => exact h.queueRequest event
    | propertyStored window property =>
      exact hpolled.yields (spares_of_fetching (Relay.handleStored_spares window property))
    | propertyDeleted window property => exact hpolled.handleDeleted window property
    | rootResized | protocolError | other | selectionCleared | mappingChanged => cases hevent

end Departed

end ClipboardRelay
