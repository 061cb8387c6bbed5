import ClipboardRelay.Proofs.Stage
import ClipboardRelay.Relay.Fetch
/-!
The queue of fetches, whatever calls fail. Each action on the queue changes the relay and says
something first, and then asks the owner for the fetch that has come to the head, if there is one.
Only this can fail.
-/

namespace ClipboardRelay.Relay

variable {δ : Type} {relay : Relay} {history : History} {post : Unit → Relay → History → Prop}
  {broken : Relay → History → Prop}

def asking (relay : Relay) (fetch : Fetch) : Relay :=
  relay.withAbandoned (relay.abandoned.filter (·.selection ≠ fetch.selection))

theorem startFetch_ensures_of (hidle : (∀ fetch ∈ relay.fetches.head?,
      relay.vocabulary.atom? fetch.selection = none) → post () relay history)
    (hstart : ∀ fetch rest atom, relay.fetches = fetch :: rest →
      relay.vocabulary.atom? fetch.selection = some atom →
      post () (relay.asking fetch) (history ++
        [⟨relay.asking fetch, .noted (.about fetch.selection (.converting fetch.target))⟩] ++
        [⟨relay.asking fetch, .called (.convertSelection atom fetch.target atom) ()⟩]) ∧
      ∀ fault, broken (relay.asking fetch) (history ++
        [⟨relay.asking fetch, .noted (.about fetch.selection (.converting fetch.target))⟩] ++
        [⟨relay.asking fetch, .failed (.convertSelection atom fetch.target atom) fault⟩])) :
    (startFetch : Action δ Unit).Ensures post broken relay history := by
  unfold startFetch
  rw [Action.ensures_bind, ensures_current]
  split
  case h_1 empty => exact hidle (by simp [empty])
  case h_2 fetch rest front =>
    split
    case h_1 unnamed => exact hidle (by simpa [front] using unnamed)
    case h_2 atom named =>
      rw [Action.ensures_bind, ensures_update, Action.ensures_bind, ensures_remark]
      obtain ⟨hasked, hfault⟩ := hstart fetch rest atom front named
      exact ⟨fun _ => hasked, hfault⟩

theorem queueFetch_ensures_of (fetch : Fetch)
    (hfirst : relay.fetches = [] →
      (startFetch : Action δ Unit).Ensures post broken (relay.withFetches [fetch]) history)
    (hlater : relay.fetches ≠ [] → post () (relay.withFetches (relay.fetches ++ [fetch])) history) :
    (queueFetch fetch : Action δ Unit).Ensures post broken relay history := by
  unfold queueFetch
  rw [Action.ensures_bind, ensures_update, Action.ensures_bind, ensures_current]
  split
  case isTrue first =>
    have hempty : relay.fetches = [] := by simpa using first
    rw [hempty]
    exact hfirst hempty
  case isFalse later => exact hlater fun hempty => later (by simp [hempty])

theorem fetchesOf_of_dropped {after : Relay} {selection other : Selection}
    (hfetches : after.fetches = relay.fetches.filter (·.selection ≠ selection))
    (h : other ≠ selection) : after.fetchesOf other = relay.fetchesOf other := by
  rw [fetchesOf, hfetches, List.filter_filter]
  refine List.filter_congr fun fetch _ => ?_
  by_cases hsame : fetch.selection = other <;> simp [hsame, h]

def dropping (relay : Relay) (selection : Selection) : History :=
  (.noted (.about selection (.fetchesDropped (relay.fetchesOf selection).length)) ::
    (relay.fetchesOf selection).map fun fetch => .sent (.noData fetch.selection)).map
      (Moment.mk (relay.withoutFetches selection))

theorem dropFetches_ensures_of (selection : Selection)
    (hnone : relay.fetchesOf selection = [] → post () relay history)
    (hfront : ∀ active rest, relay.fetches = active :: rest → relay.fetchesOf selection ≠ [] →
      active.selection = selection → (startFetch : Action δ Unit).Ensures post broken
        (((relay.withoutFetches selection).withReader relay.reader.abort).withAbandoned
          (relay.abandoned ++ [active])) (history ++ relay.dropping selection))
    (hbehind : ∀ active rest, relay.fetches = active :: rest → relay.fetchesOf selection ≠ [] →
      active.selection ≠ selection →
        post () (relay.withoutFetches selection) (history ++ relay.dropping selection)) :
    (dropFetches selection : Action δ Unit).Ensures post broken relay history := by
  have hof : relay.fetches.filter (·.selection = selection) = relay.fetchesOf selection := rfl
  unfold dropFetches
  rw [Action.ensures_bind, ensures_current]
  dsimp only
  rw [hof]
  split
  case isTrue none => exact hnone (List.isEmpty_iff.mp none)
  case isFalse found =>
    have hdropping : history ++ relay.dropping selection = history ++
        [⟨relay.withoutFetches selection,
          .noted (.about selection (.fetchesDropped (relay.fetchesOf selection).length))⟩] ++
        ((relay.fetchesOf selection).map fun fetch => Wire.Message.noData fetch.selection).map
          fun message => ⟨relay.withoutFetches selection, .sent message⟩ := by
      simp [dropping]
    rw [hdropping] at hfront hbehind
    rw [Action.ensures_bind, ensures_update, Action.ensures_bind, ensures_remark,
      Action.ensures_bind, ensures_sendAll]
    split
    case h_1 empty => simp [fetchesOf, empty] at found
    case h_2 active rest front =>
      split
      case isTrue same =>
        rw [Action.ensures_bind, ensures_update]
        exact hfront active rest front (by simpa using found) same
      case isFalse other => exact hbehind active rest front (by simpa using found) other

def finished (relay : Relay) (data : Option Bytes) (rest : List Fetch) : Relay :=
  (relay.withReader (if data.isNone then relay.reader.abort else relay.reader)).withFetches rest

def finishing (relay : Relay) (fetch : Fetch) (data : Option Bytes) (rest : List Fetch) :
    History :=
  ((if (relay.registry.typeFor fetch.target).isNone then
      [Deed.noted (.about fetch.selection (.unknownTarget fetch.target))] else []) ++
    [Deed.sent (relay.answer fetch data)]).map (Moment.mk (relay.finished data rest))

theorem finishFetch_ensures_of (data : Option Bytes)
    (hnone : relay.fetches = [] → post () (relay.finished data []) history)
    (hfront : ∀ fetch rest, relay.fetches = fetch :: rest →
      (startFetch : Action δ Unit).Ensures post broken (relay.finished data rest)
        (history ++ relay.finishing fetch data rest)) :
    (finishFetch data : Action δ Unit).Ensures post broken relay history := by
  unfold finishFetch
  cases data with
  | none =>
    simp only [Option.isNone_none, if_true, Action.ensures_bind, ensures_update, ensures_current]
    split
    case h_1 empty =>
      have hempty : relay.fetches = [] := empty
      have hrelay : relay.finished none [] = { relay with reader := relay.reader.abort } := by
        rw [← hempty]
        rfl
      exact hrelay ▸ hnone hempty
    case h_2 fetch rest front =>
      have started := hfront fetch rest front
      simp only [Action.ensures_bind, ensures_update]
      split
      case h_1 unknown =>
        simp only [Action.ensures_bind, ensures_remark, sendNoData, ensures_send]
        simpa [finishing, finished, answer, unknown, withReader, withFetches] using started
      case h_2 type known =>
        simp only [Action.ensures_bind, sendNoData, ensures_send]
        simpa [finishing, finished, answer, known, withReader, withFetches] using started
  | some bytes =>
    simp only [Option.isNone_some, Bool.false_eq_true, if_false, Action.ensures_bind,
      ensures_current]
    split
    case h_1 empty =>
      have hrelay : relay.finished (some bytes) [] = relay := by
        rw [← empty]
        rfl
      exact hrelay ▸ hnone empty
    case h_2 fetch rest front =>
      have started := hfront fetch rest front
      simp only [Action.ensures_bind, ensures_update]
      split
      case h_1 unknown =>
        simp only [Action.ensures_bind, ensures_remark, sendNoData, ensures_send]
        simpa [finishing, finished, answer, unknown, withReader, withFetches] using started
      case h_2 type known =>
        split
        case isTrue nothing =>
          simp only [Action.ensures_bind, sendNoData, ensures_send]
          simpa [finishing, finished, answer, known, nothing, withReader, withFetches] using started
        case isFalse something =>
          simp only [Action.ensures_bind, ensures_send]
          simpa [finishing, finished, answer, known, something, withReader, withFetches] using started

end ClipboardRelay.Relay
