import ClipboardRelay.Proofs.Following
import ClipboardRelay.Proofs.LateReplies
import ClipboardRelay.Proofs.Naming
/-!
Data on its way from an owner, chunk by chunk. Main statement: whatever else is done, the chunks
that were read stay in the reader, the fetch stays at the head of the queue, and nothing is sent for
it, as long as its selection does not change hands.
-/

namespace ClipboardRelay

theorem Vocabulary.exists_atom? (vocabulary : Vocabulary) {selection : Selection}
    (h : selection ≠ .secondary) : ∃ atom, vocabulary.atom? selection = some atom := by
  cases selection with
  | clipboard => exact ⟨_, rfl⟩
  | primary => exact ⟨_, rfl⟩
  | secondary => exact absurd rfl h

def Deed.regards (selection : Selection) : Deed → Bool
  | began operation => operation.asks selection
  | sent message => message.answers selection
  | _ => false

theorem Deed.not_regards_of_survey {selection : Selection} {moment : Moment}
    (h : moment.isSurvey = true) : moment.deed.regards selection = false := by
  rcases moment with ⟨relay, deed⟩
  cases deed with
  | began => cases h
  | sent message =>
    cases message with
    | data => cases h
    | _ => rfl
  | _ => rfl

def Moment.declines (selection : Selection) (moment : Moment) : Bool :=
  moment.deed.asks selection && moment.accepted?.isNone

namespace History

/-- Whether only questions that were turned down were answered for a selection. -/
def Silent (selection : Selection) (history : History) : Prop :=
  history.messages.filter (·.answers selection) =
    (history.filter (·.declines selection)).map fun _ => .noData selection

variable {first second history : History} {selection : Selection} {relay : Relay}
  {operation : Operation}

theorem Silent.append (hfirst : first.Silent selection) (hsecond : second.Silent selection) :
    Silent selection (first ++ second) := by
  unfold Silent at hfirst hsecond ⊢
  rw [messages_append, List.filter_append, List.filter_append, List.map_append, hfirst, hsecond]

theorem silent_of_unregarded (h : ∀ moment ∈ history, moment.deed.regards selection = false) :
    history.Silent selection := by
  have hanswers : history.messages.filter (·.answers selection) = [] := by
    rw [List.filter_eq_nil_iff]
    intro message hmessage
    obtain ⟨moment, hmoment, hsent⟩ := List.mem_filterMap.mp hmessage
    split at hsent
    case h_1 hdeed =>
      obtain rfl := Option.some.inj hsent
      have hunregarded := h moment hmoment
      rw [hdeed] at hunregarded
      exact Bool.eq_false_iff.mp hunregarded
    case h_2 => cases hsent
  have hdeclines : history.filter (·.declines selection) = [] := by
    rw [List.filter_eq_nil_iff]
    intro moment hmoment hdeclines
    obtain ⟨hasks, -⟩ := (Bool.and_eq_true _ _).mp hdeclines
    have hunregarded := h moment hmoment
    unfold Deed.asks at hasks
    split at hasks
    case h_1 hdeed =>
      rw [hdeed, Deed.regards, hasks] at hunregarded
      cases hunregarded
    case h_2 => cases hasks
  rw [Silent, hanswers, hdeclines, List.map_nil]

theorem silent_of_accepted {fetch : Fetch}
    (h : (Moment.mk relay (.began operation)).accepted? = some fetch) :
    Silent selection [⟨relay, .began operation⟩] := by
  simp [Silent, messages, Moment.declines, h]

theorem silent_of_declined {asked : Selection} {type : ContentType} {notice : Notice}
    (asks : operation.question? = some (asked, type)) (hnone : relay.fetch? asked type = none) :
    Silent selection [⟨relay, .began operation⟩, ⟨relay, .noted notice⟩,
      ⟨relay, .sent (.noData asked)⟩] := by
  have hdeclined : (Moment.mk relay (.began operation)).accepted? = none := by
    simp [Moment.accepted?, asks, hnone]
  by_cases hsame : asked = selection <;>
    simp [Silent, messages, Moment.declines, hdeclined, Deed.asks, Operation.asks, asks, hsame,
      Wire.Message.noData, Wire.Message.answers]

end History

/-- Data that comes in chunks through a property of the relay's window, for the fetch at the head of
the queue. -/
structure Download where
  fetch : Fetch
  type : ContentType
  atom : Atom
  window : Window
  vocabulary : Vocabulary
  registry : Registry
  named : vocabulary.atom? fetch.selection = some atom
  known : registry.typeFor fetch.target = some type
  meaningful : type ≠ .none
  apart : atom ≠ vocabulary.targets

namespace Download

variable (download : Download)

def names : Window × Vocabulary × Registry :=
  (download.window, download.vocabulary, download.registry)

/-- Whether the property is stored, or something is read and removed from it. -/
def carries : Deed → Bool
  | .called .pollEvent (some (.propertyStored window property)) =>
    window = download.window ∧ property = download.atom
  | .called (.getProperty window property true) _ =>
    window = download.window ∧ property = download.atom
  | _ => false

def carriage (history : History) : List Deed :=
  (history.map (·.deed)).filter download.carries

def parcel (chunk : Bytes) : List Deed :=
  [.called .pollEvent (some (.propertyStored download.window download.atom)),
    .called (.getProperty download.window download.atom true)
      (some ⟨download.fetch.target, 8, chunk⟩)]

def parcels (chunks : List Bytes) : List Deed :=
  chunks.flatMap download.parcel

def outcome (chunks : List Bytes) : Wire.Message :=
  if chunks = [] then .noData download.fetch.selection
  else .data download.fetch.selection download.type chunks.flatten

def Ended (history : History) : Prop :=
  Deed.called (.getProperty download.window download.atom true)
    (some ⟨download.fetch.target, 8, []⟩) ∈ history.map (·.deed)

variable {download}

@[simp] theorem carriage_append (first second : History) :
    download.carriage (first ++ second) = download.carriage first ++ download.carriage second := by
  simp [carriage]

theorem carriage_eq_nil {history : History}
    (h : ∀ moment ∈ history, download.carries moment.deed = false) :
    download.carriage history = [] := by
  simpa [carriage] using h

theorem parcels_concat (chunks : List Bytes) (chunk : Bytes) :
    download.parcels (chunks ++ [chunk]) = download.parcels chunks ++ download.parcel chunk := by
  simp [parcels]

def touches (download : Download) (deed : Deed) : Bool :=
  download.carries deed || deed.regards download.fetch.selection

theorem not_carries_of_not_touches {deed : Deed} (h : download.touches deed = false) :
    download.carries deed = false :=
  (Bool.or_eq_false_iff.mp h).1

theorem not_regards_of_not_touches {deed : Deed} (h : download.touches deed = false) :
    deed.regards download.fetch.selection = false :=
  (Bool.or_eq_false_iff.mp h).2

theorem not_touches_of_serving {deed : Deed} (h : deed.isServing = true) :
    download.touches deed = false := by
  unfold Deed.isServing at h
  split at h
  all_goals first | rfl | cases h

theorem not_touches_of_idle {relay : Relay} {deed : Deed}
    (h : (Moment.mk relay deed).isIdle = true)
    (hregards : deed.regards download.fetch.selection = false) :
    download.touches deed = false := by
  rw [touches, hregards, Bool.or_false]
  unfold carries
  split
  case h_3 => rfl
  all_goals cases h

theorem not_touches_of_still {relay : Relay} {deed : Deed}
    (h : (Moment.mk relay deed).isStill = true) : download.touches deed = false := by
  refine not_touches_of_idle (Moment.idle_of_still h) ?_
  unfold Deed.regards
  split
  case h_1 operation =>
    have hnone : operation.question? = none := Option.isNone_iff_eq_none.mp h
    rw [Operation.asks, hnone, Option.any_none]
  case h_2 message =>
    cases message with
    | data => cases h
    | _ => rfl
  case h_3 => rfl

theorem not_touches_of_survey {relay : Relay} (hnames : relay.names = download.names) {deed : Deed}
    (h : (Moment.mk relay deed).isSurvey = true) : download.touches deed = false := by
  have htargets : relay.vocabulary.targets = download.vocabulary.targets :=
    congrArg (·.2.1.targets) hnames
  rw [touches, Deed.not_regards_of_survey h, Bool.or_false]
  unfold carries
  split
  case h_1 => cases h
  case h_2 window property found =>
    have hproperty : property = relay.vocabulary.targets := (of_decide_eq_true h).2
    rw [hproperty, htargets]
    exact decide_eq_false fun same => download.apart same.2.symm
  case h_3 => rfl

/-- What has come of the data, and what was done about it. -/
structure Receipt (download : Download) (behind waiting : List Fetch) (chunks : List Bytes)
    (since : History) : Prop where
  /-- These chunks went through the property, each one stored and then read. -/
  carried : download.carriage since = download.parcels chunks
  silent : since.Silent download.fetch.selection
  queued : waiting.Sublist (behind ++ since.accepted)

namespace Receipt

variable {behind waiting fewer : List Fetch} {chunks : List Bytes} {since added : History}

theorem sublist (h : download.Receipt behind waiting chunks since)
    (hfewer : fewer.Sublist waiting) : download.Receipt behind fewer chunks since :=
  { h with queued := hfewer.trans h.queued }

theorem extend (h : download.Receipt behind waiting chunks since)
    (hcarried : ∀ moment ∈ added, download.carries moment.deed = false)
    (hsilent : added.Silent download.fetch.selection) :
    download.Receipt behind waiting chunks (since ++ added) where
  carried := by rw [carriage_append, carriage_eq_nil hcarried, List.append_nil, h.carried]
  silent := h.silent.append hsilent
  queued := by
    rw [History.accepted_append, ← List.append_assoc]
    exact h.queued.trans (List.sublist_append_left _ _)

theorem apart (h : download.Receipt behind waiting chunks since)
    (hadded : ∀ moment ∈ added, download.touches moment.deed = false) :
    download.Receipt behind waiting chunks (since ++ added) :=
  h.extend (fun moment hmoment => not_carries_of_not_touches (hadded moment hmoment))
    (History.silent_of_unregarded fun moment hmoment =>
      not_regards_of_not_touches (hadded moment hmoment))

theorem concat (h : download.Receipt behind waiting chunks since) (relay : Relay) (chunk : Bytes) :
    download.Receipt behind waiting (chunks ++ [chunk])
      (since ++ (download.parcel chunk).map (Moment.mk relay)) where
  carried := by
    rw [carriage_append, h.carried, parcels_concat]
    simp [carriage, parcel, carries]
  silent := h.silent.append (History.silent_of_unregarded (by simp [parcel, Deed.regards]))
  queued := by
    rw [History.accepted_append, ← List.append_assoc]
    exact h.queued.trans (List.sublist_append_left _ _)

theorem accept (h : download.Receipt behind waiting chunks since) {relay : Relay}
    {operation : Operation} {fetch : Fetch}
    (accepted : (Moment.mk relay (.began operation)).accepted? = some fetch) :
    download.Receipt behind (waiting ++ [fetch]) chunks (since ++ [⟨relay, .began operation⟩]) where
  carried := by rw [carriage_append, h.carried]; exact List.append_nil _
  silent := h.silent.append (History.silent_of_accepted accepted)
  queued := by
    have haccepted : History.accepted [⟨relay, .began operation⟩] = [fetch] := by
      simp [History.accepted, accepted]
    rw [History.accepted_append, haccepted, ← List.append_assoc]
    exact h.queued.append (.refl _)

theorem not_ended (h : download.Receipt behind waiting chunks since) (nonempty : [] ∉ chunks) :
    ¬ download.Ended since := by
  intro ended
  have hcarried : Deed.called (.getProperty download.window download.atom true)
      (some ⟨download.fetch.target, 8, []⟩) ∈ download.carriage since :=
    List.mem_filter.mpr ⟨ended, by simp [carries]⟩
  rw [h.carried, parcels, List.mem_flatMap] at hcarried
  obtain ⟨chunk, hchunk, hparcel⟩ := hcarried
  have hempty : chunk = [] := by simpa [parcel, eq_comm] using hparcel
  exact nonempty (hempty ▸ hchunk)

theorem ended (h : download.Receipt behind waiting (chunks ++ [[]]) since) :
    download.Ended since := by
  have hcarried : Deed.called (.getProperty download.window download.atom true)
      (some ⟨download.fetch.target, 8, []⟩) ∈ download.carriage since := by
    rw [h.carried, parcels_concat]
    simp [parcel]
  exact List.mem_of_mem_filter hcarried

end Receipt

theorem Ended.append {history : History} (h : download.Ended history) (added : History) :
    download.Ended (history ++ added) := by
  rw [Ended, List.map_append]
  exact List.mem_append_left _ h

end Download

open ClipboardRelay.Action (Spares Yields)

structure Assembling (download : Download) (behind : List Fetch) (chunks : List Bytes)
    (relay : Relay) (since : History) : Prop where
  nonempty : [] ∉ chunks
  front : relay.fetches.head? = some download.fetch
  receipt : download.Receipt behind relay.fetches.tail chunks since
  bridged : ∀ fetch ∈ relay.fetches, fetch.selection ≠ .secondary
  active : relay.reader.active = true
  received : relay.reader.data = chunks.flatten
  names : relay.names = download.names
  owned : relay.slots.owner download.fetch.selection = .desktop

namespace Assembling

variable {δ α : Type} {download : Download} {behind : List Fetch} {chunks : List Bytes}
  {relay after : Relay} {since added : History} {selection : Selection}

theorem fetches (h : Assembling download behind chunks relay since) :
    relay.fetches = download.fetch :: relay.fetches.tail :=
  List.eq_cons_of_mem_head? h.front

def engaged (selection : Selection) (relay : Relay) :
    (List Fetch × Incremental.Reader × Window × Vocabulary × Registry) × Owner :=
  ((relay.fetches, relay.reader, relay.names), relay.slots.owner selection)

theorem keep (h : Assembling download behind chunks relay since)
    (hkept : engaged download.fetch.selection after = engaged download.fetch.selection relay)
    {later : History} (receipt : download.Receipt behind relay.fetches.tail chunks later) :
    Assembling download behind chunks after later := by
  have hfetches : after.fetches = relay.fetches := congrArg (·.1.1) hkept
  exact {
    nonempty := h.nonempty
    front := hfetches ▸ h.front
    receipt := hfetches ▸ receipt
    bridged := hfetches ▸ h.bridged
    active := (congrArg (·.1.2.1.active) hkept :).trans h.active
    received := (congrArg (·.1.2.1.data) hkept :).trans h.received
    names := (congrArg (·.1.2.2) hkept :).trans h.names
    owned := (congrArg (·.2) hkept :).trans h.owned }

theorem did (h : Assembling download behind chunks relay since) {deed : Deed}
    (hdeed : download.touches deed = false) :
    Assembling download behind chunks relay (since ++ [⟨relay, deed⟩]) :=
  h.keep rfl (h.receipt.apart (List.forall_mem_singleton.mpr hdeed))

theorem yields (h : Assembling download behind chunks relay since) {action : Action δ α}
    (hspares : action.Spares (engaged download.fetch.selection)
      fun deed => !download.touches deed) :
    action.Yields (fun _ => Assembling download behind chunks) relay since :=
  hspares.yields fun _ _ _ hkept hadded => h.keep hkept (h.receipt.apart fun moment hmoment => by
    simpa using hadded moment hmoment)

theorem serves (h : Assembling download behind chunks relay since) {action : Action δ α}
    (hspares : action.Spares Relay.besidesRequests Deed.isServing) :
    action.Yields (fun _ => Assembling download behind chunks) relay since :=
  h.yields (hspares.mono (engaged download.fetch.selection) (fun _ => rfl) fun _ hserving => by
    rw [Download.not_touches_of_serving hserving, Bool.not_false])

theorem withSlots (h : Assembling download behind chunks relay since) {slots : Slots}
    (hslots : slots.holder download.fetch.selection =
      relay.slots.holder download.fetch.selection) :
    Assembling download behind chunks { relay with slots } since :=
  { h with owned := (congrArg Holder.owner hslots).trans h.owned }

theorem dropFetches (h : Assembling download behind chunks relay since)
    (other : selection ≠ download.fetch.selection) :
    (Relay.dropFetches selection : Action δ Unit).Yields
      (fun _ => Assembling download behind chunks) relay since := by
  refine Relay.dropFetches_ensures_of selection (fun _ => h) (fun active rest front _ same => ?_)
    fun active rest front _ _ => ?_
  · rw [h.fetches, List.cons.injEq] at front
    exact absurd (front.1 ▸ same) other.symm
  · have hkept : (relay.withoutFetches selection).fetches =
        download.fetch :: relay.fetches.tail.filter (·.selection ≠ selection) := by
      rw [Relay.withoutFetches, Relay.withFetches, h.fetches,
        List.filter_cons_of_pos (by simpa using other.symm), List.tail_cons]
    have hdropped : Assembling download behind chunks (relay.withoutFetches selection) since :=
      { h with
        front := by rw [hkept, List.head?_cons]
        receipt := by
          rw [hkept, List.tail_cons]
          exact h.receipt.sublist List.filter_sublist
        bridged := fun fetch hfetch => h.bridged fetch (List.mem_of_mem_filter hfetch) }
    refine hdropped.keep rfl (hdropped.receipt.apart fun moment hmoment => ?_)
    obtain ⟨deed, hdeed, rfl⟩ := List.mem_map.mp hmoment
    rcases List.mem_cons.mp hdeed with rfl | hsent
    · rfl
    · obtain ⟨fetch, hfetch, rfl⟩ := List.mem_map.mp hsent
      have hselection : fetch.selection = selection :=
        of_decide_eq_true (List.mem_filter.mp hfetch).2
      exact decide_eq_false (hselection ▸ other)

theorem changeHolder (h : Assembling download behind chunks relay since)
    (other : selection ≠ download.fetch.selection) (holder : Holder) :
    (Relay.changeHolder selection holder : Action δ Unit).Yields
      (fun _ => Assembling download behind chunks) relay since := by
  refine Relay.changeHolder_outlasts (h.serves (Relay.dropRequests_spares selection))
    (fun h => h.dropFetches other) (fun h => h.withSlots ?_) fun h => h.did rfl
  rw [Slots.holder_setHolder, if_neg other]

theorem following :
    Following δ (· ≠ download.fetch.selection) (Assembling download behind chunks) where
  surveys hsurvey h := h.did (Download.not_touches_of_survey h.names hsurvey)
  counts _ hslots h := h.withSlots (hslots _)
  changes holder other h := h.changeHolder other holder

theorem queueFetch (h : Assembling download behind chunks relay since) {operation : Operation}
    {fetch : Fetch} (accepted : (Moment.mk relay (.began operation)).accepted? = some fetch) :
    (Relay.queueFetch fetch : Action δ Unit).Yields (fun _ => Assembling download behind chunks)
      relay (since ++ [⟨relay, .began operation⟩]) := by
  refine Relay.queueFetch_ensures_of fetch (fun empty => ?_) fun _ => ?_
  · rw [h.fetches] at empty
    cases empty
  · have hqueued : (relay.withFetches (relay.fetches ++ [fetch])).fetches =
        download.fetch :: (relay.fetches.tail ++ [fetch]) := by
      rw [Relay.withFetches, ← List.cons_append, ← h.fetches]
    refine { h with front := ?_, receipt := ?_, bridged := fun other hother => ?_ }
    · rw [hqueued, List.head?_cons]
    · rw [hqueued, List.tail_cons]
      exact h.receipt.accept accepted
    · rcases List.mem_append.mp hother with hold | hnew
      · exact h.bridged other hold
      · rw [List.mem_singleton.mp hnew]
        exact Vocabulary.ne_secondary_of_atom? (Moment.bridged_of_accepted? accepted)

end Assembling

end ClipboardRelay
