import ClipboardRelay.Memory.Display
import ClipboardRelay.Proofs.Evicting
import ClipboardRelay.Proofs.FetchQueue
import ClipboardRelay.Proofs.Upholding
/-!
Replies that come late. When an owner loses its selection, the fetch that it was asked for is
dropped, and its reply may come at any time after. Main statements: a change of the holder makes the
fetch late that its owner was asked for, and nothing else does; the reply to the fetch of a
selection that was started last is put aside if this fetch was dropped, and disturbs no fetch of
another selection.
-/

namespace ClipboardRelay

namespace Moment

/-- The fetch at the head of the queue, if its owner was asked for it. -/
def converts? (moment : Moment) : Option Fetch :=
  match moment.deed with
  | .called (.convertSelection atom target property) _ =>
    moment.relay.fetches.head?.filter fun fetch =>
      moment.relay.vocabulary.atom? fetch.selection = some atom ∧ target = fetch.target ∧
        property = atom
  | _ => none

def replies (moment : Moment) : Bool :=
  match moment.event? with
  | some (.selectionNotify notify) => notify.target ≠ moment.relay.vocabulary.targets
  | _ => false

def repliesTo (moment : Moment) (fetch : Fetch) : Bool :=
  match moment.event? with
  | some (.selectionNotify notify) =>
    notify.target ≠ moment.relay.vocabulary.targets ∧
      Relay.answers moment.relay.vocabulary notify fetch
  | _ => false

/-- Whether neither a fetch for the selection was started nor a reply to it came. -/
def leaves (fetch : Fetch) (moment : Moment) : Bool :=
  !moment.repliesTo fetch && moment.converts?.all (·.selection ≠ fetch.selection)

end Moment

namespace History

def conversions (history : History) : List Fetch :=
  history.filterMap Moment.converts?

def converting? (history : History) : Option Fetch :=
  history.conversions.getLast?

def replies (history : History) : Nat :=
  history.countP (·.replies)

/-- Whether every reply is to a fetch that an owner was asked for before, and no two are to the same:
the reply with number `k` is to the fetch with number `answered k`. -/
def RepliesOnce (answered : Nat → Nat) (history : History) : Prop :=
  answered.Injective ∧ history.Always fun before moment => moment.replies = true →
    before.conversions[answered before.replies]?.any moment.repliesTo = true

/-- Whether a fetch was dropped while its owner's reply was still to come, and since then neither
another fetch for its selection was started nor a reply to it came. -/
def Late (fetch : Fetch) (history : History) : Prop :=
  ∃ (before : History) (drop : Moment) (since : History), history = before ++ drop :: since ∧
    before.converting? = some fetch ∧ drop.drops fetch.selection = true ∧
    ∀ moment ∈ since, moment.leaves fetch = true

variable {history added : History} {fetch : Fetch}

theorem converting?_append :
    (history ++ added).converting? = added.converting?.or history.converting? := by
  simp only [converting?, conversions, List.filterMap_append, List.getLast?_append]

theorem Late.of_append (h : Late fetch (history ++ added)) :
    (Late fetch history ∧ ∀ moment ∈ added, moment.leaves fetch = true) ∨
      ∃ before drop since, added = before ++ drop :: since ∧
        (history ++ before).converting? = some fetch ∧ drop.drops fetch.selection = true ∧
        ∀ moment ∈ since, moment.leaves fetch = true := by
  obtain ⟨before, drop, since, hsplit, hasked, hdrop, hsince⟩ := h
  rcases split_append hsplit with ⟨middle, rfl, rfl⟩ | ⟨middle, rfl, rfl⟩
  · exact .inl ⟨⟨before, drop, middle, rfl, hasked, hdrop, fun moment hmoment =>
      hsince moment (List.mem_append_left _ hmoment)⟩,
      fun moment hmoment => hsince moment (List.mem_append_right _ hmoment)⟩
  · exact .inr ⟨middle, drop, since, rfl, hasked, hdrop, hsince⟩

theorem Late.append (h : Late fetch history) (hadded : ∀ moment ∈ added, moment.leaves fetch = true) :
    Late fetch (history ++ added) := by
  obtain ⟨before, drop, since, rfl, hasked, hdrop, hsince⟩ := h
  refine ⟨before, drop, since ++ added, by simp, hasked, hdrop, fun moment hmoment => ?_⟩
  rcases List.mem_append.mp hmoment with hold | hnew
  · exact hsince moment hold
  · exact hadded moment hnew

theorem Late.of_append_kept (h : Late fetch (history ++ added))
    (hkept : ∀ moment ∈ added, moment.drops fetch.selection = false) :
    Late fetch history ∧ ∀ moment ∈ added, moment.leaves fetch = true := by
  rcases h.of_append with hold | ⟨before, drop, since, rfl, -, hdrop, -⟩
  · exact hold
  · rw [hkept drop (List.mem_append_right _ List.mem_cons_self)] at hdrop
    cases hdrop

theorem converting?_kept (h : ∀ moment ∈ added, moment.converts? = none) :
    (history ++ added).converting? = history.converting? := by
  rw [converting?_append]
  have hnone : added.converting? = none := by
    rw [converting?, conversions, List.filterMap_eq_nil_iff.mpr h, List.getLast?_nil]
  rw [hnone, Option.none_or]

end History

def Deed.keepsFetches : Deed → Bool
  | called (.convertSelection ..) _ | noted (.about _ (.fetchesDropped _)) => false
  | _ => true

namespace Moment

variable {moment : Moment}

theorem not_converts_of_kept (h : moment.deed.keepsFetches = true) : moment.converts? = none := by
  unfold converts?
  split
  case h_1 hdeed =>
    rw [hdeed] at h
    cases h
  case h_2 => rfl

theorem not_drops_of_kept (h : moment.deed.keepsFetches = true) (selection : Selection) :
    moment.drops selection = false := by
  unfold drops
  split
  case h_1 hdeed =>
    rw [hdeed] at h
    cases h
  case h_2 => rfl

theorem head?_of_converts? {fetch : Fetch} (h : moment.converts? = some fetch) :
    moment.relay.fetches.head? = some fetch := by
  unfold converts? at h
  split at h
  · exact (Option.filter_eq_some_iff.mp h).1
  · cases h

end Moment

theorem Moment.bridged_of_accepted? {moment : Moment} {fetch : Fetch}
    (h : moment.accepted? = some fetch) :
    (moment.relay.vocabulary.atom? fetch.selection).isSome = true := by
  unfold accepted? at h
  split at h
  · obtain ⟨⟨selection, type⟩, -, hfetch⟩ := Option.bind_eq_some_iff.mp h
    rw [Relay.selection_of_fetch? hfetch]
    simp only [Relay.fetch?, Option.ite_none_right_eq_some] at hfetch
    exact hfetch.1
  · cases h

structure Forsaken (relay : Relay) (history : History) : Prop where
  bridged : ∀ fetch ∈ relay.fetches, (relay.vocabulary.atom? fetch.selection).isSome = true
  late : ∀ fetch, fetch.target ≠ relay.vocabulary.targets → history.Late fetch →
    fetch ∈ relay.abandoned

/-- Late replies are told apart, and the owner was asked for the fetch at the head of the queue
last. -/
structure Abandoning (relay : Relay) (history : History) : Prop extends
    Forsaken relay history where
  front : ∀ fetch ∈ relay.fetches.head?, history.converting? = some fetch

namespace Forsaken

variable {δ : Type} {relay after : Relay} {history added : History}

theorem keep (h : Forsaken relay history) (hvocabulary : after.vocabulary = relay.vocabulary)
    (hfetches : after.fetches ⊆ relay.fetches) (habandoned : relay.abandoned ⊆ after.abandoned)
    (hadded : ∀ moment ∈ added, moment.deed.keepsFetches = true) :
    Forsaken after (history ++ added) := by
  refine ⟨fun fetch hfetch => ?_, fun fetch htarget hlate => ?_⟩
  · rw [hvocabulary]
    exact h.bridged fetch (hfetches hfetch)
  · rw [hvocabulary] at htarget
    refine habandoned (h.late fetch htarget (hlate.of_append_kept fun moment hmoment => ?_).1)
    exact Moment.not_drops_of_kept (hadded moment hmoment) _

open Relay in
theorem startFetch (h : Forsaken relay history) :
    (Relay.startFetch : Action δ Unit).Yields (fun _ => Abandoning) relay history := by
  refine startFetch_ensures_of (fun hunnamed => ?_) fun fetch rest atom front named =>
    ⟨?_, fun _ => trivial⟩
  · have hempty : relay.fetches.head? = none := by
      rw [Option.eq_none_iff_forall_ne_some]
      intro fetch hfetch
      have hbridged := h.bridged fetch (List.mem_of_mem_head? hfetch)
      rw [hunnamed fetch hfetch] at hbridged
      cases hbridged
    exact ⟨h, by simp [hempty]⟩
  · have hconverts : (Moment.mk (relay.asking fetch)
        (.called (.convertSelection atom fetch.target atom) ())).converts? = some fetch := by
      simp [Moment.converts?, asking, withAbandoned, front, named]
    refine ⟨⟨h.bridged, fun other htarget hlate => ?_⟩, fun other hother => ?_⟩
    · rw [List.append_assoc] at hlate
      obtain ⟨hlate, hleaves⟩ := hlate.of_append_kept (by simp [Moment.drops])
      have hleaves := hleaves _ (List.mem_append_right _ (List.mem_singleton.mpr rfl))
      simp only [Moment.leaves, hconverts, Option.all_some, Bool.and_eq_true] at hleaves
      refine List.mem_filter.mpr ⟨h.late other htarget hlate, ?_⟩
      exact decide_eq_true (Ne.symm (of_decide_eq_true hleaves.2))
    · rw [History.converting?_append]
      have hother : other ∈ relay.fetches.head? := hother
      rw [front] at hother
      obtain rfl := Option.some.inj hother
      simp [History.converting?, History.conversions, hconverts]

end Forsaken

namespace Abandoning

open Relay

variable {δ α : Type} {relay after : Relay} {history added : History}

def fetching (relay : Relay) : Vocabulary × List Fetch × List Fetch :=
  (relay.vocabulary, relay.fetches, relay.abandoned)

theorem keep (h : Abandoning relay history) (hvocabulary : after.vocabulary = relay.vocabulary)
    (hfetches : after.fetches = relay.fetches) (habandoned : relay.abandoned ⊆ after.abandoned)
    (hadded : ∀ moment ∈ added, moment.deed.keepsFetches = true) :
    Abandoning after (history ++ added) := by
  refine ⟨h.toForsaken.keep hvocabulary ?_ habandoned hadded, ?_⟩
  · rw [hfetches]
    exact List.Subset.refl _
  · rw [hfetches, History.converting?_kept fun moment hmoment =>
      Moment.not_converts_of_kept (hadded moment hmoment)]
    exact h.front

theorem yields (h : Abandoning relay history) {action : Action δ α}
    (hspares : action.Spares fetching Deed.keepsFetches) :
    action.Yields (fun _ => Abandoning) relay history := by
  refine hspares.yields fun _ after added hkept hadded => ?_
  have hvocabulary : after.vocabulary = relay.vocabulary := congrArg Prod.fst hkept
  have hfetches : after.fetches = relay.fetches := congrArg (·.2.1) hkept
  have habandoned : after.abandoned = relay.abandoned := congrArg (·.2.2) hkept
  refine h.keep hvocabulary hfetches ?_ hadded
  rw [habandoned]
  exact List.Subset.refl _

theorem spares_of_serving {action : Action δ α}
    (h : action.Spares besidesRequests Deed.isServing) :
    action.Spares fetching Deed.keepsFetches :=
  h.mono fetching (fun _ => rfl) fun deed hserving => by
    rw [Deed.keepsFetches]
    · rintro atom target property answer rfl
      cases hserving
    · rintro selection count rfl
      cases hserving

theorem spares_of_reading {action : Action δ α}
    (h : action.Spares besidesReader Deed.isReading) :
    action.Spares fetching Deed.keepsFetches :=
  h.mono fetching (fun _ => rfl) fun deed hreading => by
    rw [Deed.keepsFetches]
    · rintro atom target property answer rfl
      cases hreading
    · rintro selection count rfl
      cases hreading

theorem spares_of_looking {action : Action δ α}
    (h : action.Spares (fun relay => relay) Deed.isLooking) :
    action.Spares fetching Deed.keepsFetches :=
  spares_of_reading (reading_of_looking h)

theorem queueFetch (h : Abandoning relay history) {fetch : Fetch}
    (bridged : (relay.vocabulary.atom? fetch.selection).isSome = true) :
    (Relay.queueFetch fetch : Action δ Unit).Yields (fun _ => Abandoning) relay history := by
  refine queueFetch_ensures_of fetch (fun empty => ?_) fun waiting => ?_
  · refine Forsaken.startFetch ⟨?_, h.late⟩
    simpa [withFetches] using bridged
  · refine ⟨⟨?_, h.late⟩, ?_⟩
    · simpa [withFetches, or_imp, forall_and] using ⟨h.bridged, bridged⟩
    · obtain ⟨front, rest, hfetches⟩ := List.exists_cons_of_ne_nil waiting
      have hfront := h.front
      rw [hfetches] at hfront
      simpa [withFetches, hfetches] using hfront

theorem finishFetch (h : Abandoning relay history) (data : Option Bytes) :
    (Relay.finishFetch data : Action δ Unit).Yields (fun _ => Abandoning) relay history := by
  refine finishFetch_ensures_of data (fun empty => ?_) fun fetch rest front => ?_
  · exact ⟨⟨by simp [finished, withFetches], h.late⟩, by simp [finished, withFetches]⟩
  · have forsaken : Forsaken (relay.finished data rest)
        (history ++ relay.finishing fetch data rest) := by
      refine h.toForsaken.keep rfl ?_ (List.Subset.refl _) ?_
      · rw [front]
        exact List.subset_cons_self fetch rest
      · unfold finishing
        split <;> simp [Deed.keepsFetches]
    exact forsaken.startFetch

theorem not_converts_of_dropping (relay : Relay) (selection : Selection) :
    ∀ moment ∈ relay.dropping selection, moment.converts? = none := by
  simp [dropping, Moment.converts?]

theorem late_of_dropping (h : Abandoning relay history) {selection : Selection}
    {active fetch : Fetch} {rest : List Fetch} (front : relay.fetches = active :: rest)
    (hlate : History.Late fetch (history ++ relay.dropping selection)) :
    history.Late fetch ∨ fetch = active ∧ active.selection = selection := by
  have hdrops : ∀ moment ∈ relay.dropping selection, moment.drops fetch.selection = true →
      selection = fetch.selection := by
    simp [dropping, Moment.drops]
  have hconverts := not_converts_of_dropping relay selection
  rcases hlate.of_append with ⟨hold, -⟩ | ⟨before, drop, since, hsplit, hasked, hdrop, -⟩
  · exact .inl hold
  · rw [hsplit] at hconverts hdrops
    rw [History.converting?_kept fun moment hmoment =>
      hconverts moment (List.mem_append_left _ hmoment), h.front active (by rw [front]; rfl)] at hasked
    obtain rfl := Option.some.inj hasked
    have hselection := hdrops drop (List.mem_append_right _ List.mem_cons_self) hdrop
    exact .inr ⟨rfl, hselection.symm⟩

theorem dropFetches (h : Abandoning relay history) (selection : Selection) :
    (Relay.dropFetches selection : Action δ Unit).Yields (fun _ => Abandoning) relay history := by
  have bridged : ∀ fetch ∈ relay.fetches.filter (·.selection ≠ selection),
      (relay.vocabulary.atom? fetch.selection).isSome = true :=
    fun fetch hfetch => h.bridged fetch (List.mem_of_mem_filter hfetch)
  refine dropFetches_ensures_of selection (fun _ => h) (fun active rest front _ same => ?_)
    fun active rest front _ other => ?_
  · refine Forsaken.startFetch ⟨bridged, fun fetch htarget hlate => List.mem_append.mpr ?_⟩
    rcases h.late_of_dropping front hlate with hold | ⟨rfl, -⟩
    · exact .inl (h.late fetch htarget hold)
    · exact .inr (List.mem_singleton.mpr rfl)
  · have hhead : (relay.withoutFetches selection).fetches.head? = some active := by
      simp [withoutFetches, withFetches, front, other]
    refine ⟨⟨bridged, fun fetch htarget hlate => ?_⟩, ?_⟩
    · rcases h.late_of_dropping front hlate with hold | ⟨-, same⟩
      · exact h.late fetch htarget hold
      · exact absurd same other
    · rw [hhead, History.converting?_kept (not_converts_of_dropping relay selection),
        h.front active (by rw [front]; rfl)]
      exact fun fetch hfetch => hfetch

theorem changeHolder (h : Abandoning relay history) (selection : Selection) (holder : Holder) :
    (Relay.changeHolder selection holder : Action δ Unit).Yields (fun _ => Abandoning) relay
      history := by
  refine .bind (h.yields (spares_of_serving (dropRequests_spares selection))) fun _ _ _ h => ?_
  refine .bind (h.dropFetches selection) fun _ relay history h => ?_
  refine h.yields (.bind spares_current fun relay => .bind (spares_update fun _ => rfl) fun _ => ?_)
  split
  · exact spares_send rfl
  · exact .pure

theorem startFetch_late {fetch : Fetch} (hlate : history.Late fetch)
    (hother : ∀ other ∈ relay.fetches, other.selection ≠ fetch.selection) :
    (Relay.startFetch : Action δ Unit).Yields (fun _ _ => History.Late fetch) relay history := by
  refine startFetch_ensures_of (fun _ => hlate) fun next rest atom front named =>
    ⟨?_, fun _ => trivial⟩
  have hnext : next.selection ≠ fetch.selection := hother next (by simp [front])
  rw [List.append_assoc]
  refine hlate.append ?_
  simp [Moment.leaves, Moment.repliesTo, Moment.event?, Moment.converts?, asking, withAbandoned,
    front, named, hnext]

/-- Changing the holder of a selection makes the fetch late that its owner was asked for. -/
theorem changeHolder_late (h : Abandoning relay history) {fetch : Fetch} {rest : List Fetch}
    (front : relay.fetches = fetch :: rest) (holder : Holder) :
    (Relay.changeHolder fetch.selection holder : Action δ Unit).Yields
      (fun _ _ => History.Late fetch) relay history := by
  have hserved : (dropRequests fetch.selection : Action δ Unit).Yields
      (fun _ after later => Abandoning after later ∧ after.fetches = fetch :: rest)
      relay history := by
    have hspares := spares_of_serving (dropRequests_spares (δ := δ) fetch.selection)
    have hkept : (dropRequests fetch.selection : Action δ Unit).Yields
        (fun _ after _ => after.fetches = fetch :: rest) relay history :=
      hspares.yields fun _ after _ hkept _ => front ▸ (congrArg (·.2.1) hkept :)
    exact (h.yields hspares).and hkept
  refine .bind hserved fun _ relay history ⟨h, front⟩ => ?_
  have hdropped : (Relay.dropFetches fetch.selection : Action δ Unit).Yields
      (fun _ _ => History.Late fetch) relay history := by
    refine dropFetches_ensures_of fetch.selection (fun hnone => ?_)
      (fun active others hactive _ same => ?_) fun active others hactive _ other => ?_
    · simp [fetchesOf, front] at hnone
    · have hasked : history.converting? = some fetch := h.front fetch (by rw [front]; rfl)
      have hlate : History.Late fetch (history ++ relay.dropping fetch.selection) := by
        refine ⟨history, _, _, rfl, hasked, by simp [Moment.drops], ?_⟩
        simp [Moment.leaves, Moment.repliesTo, Moment.event?, Moment.converts?]
      exact startFetch_late hlate fun other hother => of_decide_eq_true (List.mem_filter.mp hother).2
    · rw [front] at hactive
      obtain ⟨rfl, -⟩ := List.cons.inj hactive
      exact absurd rfl other
  refine hdropped.bind fun _ relay history hlate => .current_bind (.update_bind ?_)
  split
  · exact hlate.append (by simp [Moment.leaves, Moment.repliesTo, Moment.event?, Moment.converts?])
  · exact hlate

theorem asked (h : Abandoning relay history) (atom target property : Atom) :
    Abandoning relay (history ++
      [⟨relay, .called (.convertSelection atom target property) ()⟩]) := by
  refine ⟨⟨h.bridged, fun fetch htarget hlate => ?_⟩, fun fetch hfetch => ?_⟩
  · exact h.late fetch htarget (hlate.of_append_kept (by simp [Moment.drops])).1
  · rw [History.converting?_append, Option.or_eq_some_iff]
    cases hconverts : (Moment.mk relay
        (.called (.convertSelection atom target property) ())).converts? with
    | none =>
      exact .inr ⟨by simp [History.converting?, History.conversions, hconverts],
        h.front fetch hfetch⟩
    | some other =>
      rw [Moment.head?_of_converts? hconverts, Option.mem_some_iff] at hfetch
      exact .inl (by simp [History.converting?, History.conversions, hconverts, hfetch])

theorem polled (h : Abandoning relay history) (event : Event) :
    Abandoning relay (history ++ [⟨relay, .called .pollEvent (some event)⟩]) :=
  h.keep rfl rfl (List.Subset.refl _) (by simp [Deed.keepsFetches])

theorem handleOwner (h : Abandoning relay history) (atom : Atom) (owner : Window) :
    (Relay.handleOwner atom owner : Action δ Unit).Yields (fun _ => Abandoning) relay history := by
  refine .current_bind ?_
  split
  · exact h
  refine .bind (h.yields (spares_remark rfl)) fun _ relay history h => ?_
  split
  · exact h
  refine .bind (h.changeHolder _ _) fun _ relay history h => ?_
  split
  · exact h
  · exact ensures_call_bind (fun _ => (h.asked _ _ _).yields (spares_update fun _ => rfl))
      fun _ => trivial

theorem handleTargets (h : Abandoning relay history) (notify : SelectionNotify) :
    (Relay.handleTargets notify : Action δ Unit).Yields (fun _ => Abandoning) relay history := by
  have discarded : (discardTargets notify : Action δ Unit).Spares fetching Deed.keepsFetches :=
    spares_of_looking (discardTargets_spares notify)
  refine .current_bind ?_
  split
  case h_1 => exact h.yields (.bind (spares_note rfl) fun _ => discarded)
  case h_2 selection _ =>
    rcases relay.slots.arrive selection with ⟨arrival, slots⟩
    refine .bind (h.yields (spares_update fun _ => rfl)) fun _ relay history h => ?_
    cases arrival with
    | unexpected | stale => exact h.yields (.bind (spares_remark rfl) fun _ => discarded)
    | current =>
      dsimp only
      split
      · exact h.yields (.bind (spares_remark rfl) fun _ => discarded)
      refine .bind (h.yields (spares_of_looking (readTargets_spares selection notify)))
        fun offered relay history h => ?_
      split
      · exact h
      refine .bind (h.yields (spares_remarkTargets (fun _ => rfl) fun _ => rfl))
        fun _ relay history h => .current_bind ?_
      split
      · exact h.yields (spares_remark rfl)
      · exact .bind (h.yields (spares_send rfl)) fun _ relay history h => h.changeHolder _ _

theorem receiveReply (h : Abandoning relay history) (notify : SelectionNotify) :
    (Relay.receiveReply notify : Action δ Unit).Yields (fun _ => Abandoning) relay history := by
  refine .current_bind ?_
  split
  · exact h.yields (spares_note rfl)
  refine .bind (h.yields (spares_of_looking (checkReply_spares _ notify)))
    fun fits relay history h => ?_
  split
  · refine .bind (h.yields (spares_of_reading (readReply_spares _ notify)))
      fun reply relay history h => ?_
    cases reply with
    | pending => exact h
    | data bytes => exact h.finishFetch _
    | failed => exact h.finishFetch _
  · exact h.finishFetch _

theorem handleConversion (h : Abandoning relay history) (notify : SelectionNotify)
    (data : notify.target ≠ relay.vocabulary.targets) :
    (Relay.handleConversion notify : Action δ Unit).Yields (fun _ => Abandoning) relay
      (history ++ [⟨relay, .called .pollEvent (some (.selectionNotify notify))⟩]) := by
  refine .current_bind ?_
  split
  case h_1 => exact (h.polled _).receiveReply notify
  case h_2 fetch _ =>
    have settled : Abandoning
        { relay with abandoned := relay.abandoned.eraseP (answers relay.vocabulary notify) }
        (history ++ [⟨relay, .called .pollEvent (some (.selectionNotify notify))⟩]) := by
      refine ⟨⟨h.bridged, fun other htarget hlate => ?_⟩, (h.polled _).front⟩
      obtain ⟨hlate, hleaves⟩ := hlate.of_append_kept (by simp [Moment.drops])
      have hleaves := hleaves _ (List.mem_singleton.mpr rfl)
      simp only [Moment.leaves, Moment.repliesTo, Moment.event?_polled, Bool.and_eq_true] at hleaves
      refine (List.mem_eraseP_of_neg ?_).mpr (h.late other htarget hlate)
      simpa [data] using hleaves.1
    rw [Action.Yields, Action.ensures_bind, ensures_update]
    split
    · exact settled.receiveReply notify
    · refine settled.yields (.bind (spares_remark rfl) fun _ => ?_)
      split
      · exact spares_call fun _ => rfl
      · exact .pure

theorem readChunk (h : Abandoning relay history) (fetch : Fetch) (property : Atom) :
    (Relay.readChunk fetch property : Action δ Unit).Yields (fun _ => Abandoning) relay
      history := by
  refine .current_bind ?_
  refine .bind (h.yields (spares_call fun _ => rfl)) fun found relay history h => ?_
  split
  · exact .bind (h.yields (spares_remark rfl)) fun _ relay history h => h.finishFetch _
  refine .bind (h.yields (spares_of_looking (checkProperty_spares _ _ _)))
    fun fits relay history h => ?_
  split
  · split
    · refine .current_bind (.bind (h.yields (spares_update fun _ => rfl))
        fun _ relay history h => ?_)
      split
      · exact .bind (h.yields (spares_remark rfl)) fun _ relay history h => h.finishFetch _
      · exact .bind (h.yields (spares_remark rfl)) fun _ relay history h => h.finishFetch _
    · refine h.yields (.bind (spares_update fun _ => rfl) fun _ => .bind spares_current fun _ => ?_)
      exact spares_remark rfl
  · exact h.finishFetch _

theorem handleStored (h : Abandoning relay history) (window : Window) (property : Atom) :
    (Relay.handleStored window property : Action δ Unit).Yields (fun _ => Abandoning) relay
      history := by
  refine .current_bind ?_
  split
  · split
    · exact h
    split
    · exact h.readChunk _ _
    · exact h
  · exact h

/-- Late replies are told apart as long as no call fails. -/
theorem upheld [Display δ] : Upheld δ (fun _ => False) Abandoning where
  lasting _ h := h
  fresh relay := by
    refine ⟨⟨by simp [fresh], ?_⟩, by simp [fresh]⟩
    rintro fetch - ⟨before, drop, since, hsplit, -⟩
    simp at hsplit
  idle {relay history deed} hidle h := by
    refine h.keep rfl rfl (List.Subset.refl _) (List.forall_mem_singleton.mpr ?_)
    unfold Moment.isIdle at hidle
    split at hidle <;> simp_all [Deed.keepsFetches]
  resized size h := ⟨⟨h.bridged, h.late⟩, h.front⟩
  queues {relay history operation fetch} haccepted h := by
    have began : Abandoning relay (history ++ [⟨relay, .began operation⟩]) :=
      h.keep rfl rfl (List.Subset.refl _) (by simp [Deed.keepsFetches])
    exact (began.queueFetch (Moment.bridged_of_accepted? haccepted)).mono fun _ _ _ => .inr
  changes selection holder h := (h.changeHolder selection holder).mono fun _ _ _ => .inr
  delivers selection type data h :=
    (h.yields (spares_of_serving (deliver_spares selection type data))).mono fun _ _ _ => .inr
  handles {relay history event} hevent h := by
    refine Action.Yields.mono ?_ fun _ _ _ => Or.inr
    cases event with
    | ownerChanged atom owner => exact (h.polled _).handleOwner atom owner
    | selectionNotify notify =>
      refine .current_bind ?_
      split
      case isTrue targets => exact (h.polled _).handleTargets notify
      case isFalse data => exact h.handleConversion notify data
    | selectionRequest request =>
      exact (h.polled _).yields (spares_of_serving (queueRequest_spares request))
    | propertyStored window property => exact (h.polled _).handleStored window property
    | propertyDeleted window property =>
      exact (h.polled _).yields (spares_of_serving (handleDeleted_spares window property))
    | rootResized | protocolError | other | selectionCleared | mappingChanged => cases hevent

end Abandoning

namespace Relay

theorem answers_unique {vocabulary : Vocabulary} {notify : SelectionNotify} {fetch other : Fetch}
    (h : answers vocabulary notify fetch = true) (hother : answers vocabulary notify other = true) :
    fetch = other := by
  simp only [answers, Bool.and_eq_true, decide_eq_true_eq] at h hother
  rcases fetch with ⟨selection, target⟩
  obtain rfl := Option.some.inj (h.1.symm.trans hother.1)
  obtain rfl := h.2.symm.trans hother.2
  rfl

/-- The reply to a fetch that was given up is put aside, unless something is fetched from the same
selection. The fetch is forgotten, and nothing else happens to the relay. -/
theorem handleConversion_of_late {δ : Type} {relay : Relay} (history : History)
    {notify : SelectionNotify} {fetch : Fetch}
    (hfound : relay.abandoned.find? (answers relay.vocabulary notify) = some fetch)
    (other : relay.fetches.head?.map (·.selection) ≠ some fetch.selection) :
    (handleConversion notify : Action δ Unit).Ensures
      (fun _ after later => after = relay.withAbandoned
        (relay.abandoned.eraseP (answers relay.vocabulary notify)) ∧
          later.messages = history.messages)
      (fun after later => after = relay.withAbandoned
        (relay.abandoned.eraseP (answers relay.vocabulary notify)) ∧
          later.messages = history.messages) relay history := by
  unfold handleConversion
  rw [Action.ensures_bind, ensures_current, hfound]
  rw [Action.ensures_bind, ensures_update, if_neg other, Action.ensures_bind, ensures_remark]
  split
  · exact ⟨fun _ => ⟨rfl, by simp [History.messages]⟩, fun _ => ⟨rfl, by simp [History.messages]⟩⟩
  · exact ⟨rfl, by simp [History.messages]⟩

theorem handle_late {δ : Type} {relay : Relay} (history : History) {notify : SelectionNotify}
    (data : notify.target ≠ relay.vocabulary.targets)
    (late : relay.fetches = [] ∨ ∃ fetch ∈ relay.abandoned,
      answers relay.vocabulary notify fetch = true ∧
        relay.fetches.head?.map (·.selection) ≠ some fetch.selection) :
    (Relay.handle (.selectionNotify notify) : Action δ Unit).Ensures
      (fun _ after later => after.fetches = relay.fetches ∧ after.reader = relay.reader ∧
        later.messages = history.messages)
      (fun after later => after.fetches = relay.fetches ∧ after.reader = relay.reader ∧
        later.messages = history.messages) relay history := by
  unfold Relay.handle
  rw [Action.ensures_bind, ensures_current, if_neg data]
  rcases hfound : relay.abandoned.find? (answers relay.vocabulary notify) with _ | found
  case none =>
    have empty : relay.fetches = [] := late.resolve_right fun ⟨fetch, hfetch, hanswers, _⟩ => by
      rw [List.find?_eq_none] at hfound
      exact hfound fetch hfetch hanswers
    unfold handleConversion
    rw [Action.ensures_bind, ensures_current, hfound]
    unfold receiveReply
    rw [Action.ensures_bind, ensures_current, empty]
    exact ⟨empty, rfl, by simp [History.messages]⟩
  case some =>
    have other : relay.fetches.head?.map (·.selection) ≠ some found.selection := by
      rcases late with empty | ⟨fetch, -, hanswers, other⟩
      · simp [empty]
      · rwa [answers_unique (List.find?_some hfound) hanswers]
    refine (handleConversion_of_late history hfound other).mono ?_ ?_
    · rintro _ _ later ⟨rfl, hmessages⟩
      exact ⟨rfl, rfl, hmessages⟩
    · rintro _ later ⟨rfl, hmessages⟩
      exact ⟨rfl, rfl, hmessages⟩

end Relay

namespace Course

variable {δ : Type} [Display δ]

/-- In every run, a fetch is late only because its selection changed hands after its owner was
asked. -/
theorem late_at_change {display : δ} {course : Course δ} (hstart : start display = some course)
    {moves : List (Move δ)} {history rest : History}
    (hsplit : (course.after moves).history = history ++ rest) {fetch : Fetch}
    (hlate : history.Late fetch) :
    ∃ (before : History) (change : Moment) (since : History),
      history = before ++ change :: since ∧ before.converting? = some fetch ∧
        change.relay.Reassigns fetch.selection before ∧
        ∀ moment ∈ since, moment.leaves fetch = true := by
  obtain ⟨before, drop, since, rfl, hasked, hdrop, hsince⟩ := hlate
  rw [List.append_assoc] at hsplit
  have change := always_occasioned hstart moves before drop (since ++ rest) hsplit fetch.selection
    (Moment.dropped?_of_drops hdrop)
  exact ⟨before, drop, since, rfl, hasked, change, hsince⟩

/-- As long as no call fails, a reply changes nothing if nothing is fetched, or if something is
fetched from another selection and the reply is to the fetch of its selection that was started
last, which was dropped. -/
theorem late_reply_put_aside {display : δ} {course : Course δ} (hstart : start display = some course)
    {moves : List (Move δ)} (hfaultless : (course.after moves).history.faultless = true)
    {before rest : History} {moment : Moment}
    (hsplit : (course.after moves).history = before ++ moment :: rest)
    {notify : SelectionNotify} (hpoll : moment.event? = some (.selectionNotify notify))
    (hreplies : moment.replies = true)
    (hlate : moment.relay.fetches = [] ∨ ∃ fetch, moment.repliesTo fetch = true ∧
      before.Late fetch ∧ moment.relay.fetches.head?.map (·.selection) ≠ some fetch.selection)
    (session : Session δ) (hsession : session.relay = moment.relay) :
    let after := ((Relay.handle (.selectionNotify notify)).run session).2
    after.outbox = session.outbox ∧ after.relay.fetches = session.relay.fetches ∧
      after.relay.reader = session.relay.reader := by
  have abandoning : Abandoning moment.relay before :=
    Abandoning.upheld.polled hstart hfaultless not_false hsplit (by rw [hpoll]; rfl)
  have data : notify.target ≠ moment.relay.vocabulary.targets := by
    simpa [Moment.replies, hpoll] using hreplies
  have late : moment.relay.fetches = [] ∨ ∃ fetch ∈ moment.relay.abandoned,
      Relay.answers moment.relay.vocabulary notify fetch = true ∧
        moment.relay.fetches.head?.map (·.selection) ≠ some fetch.selection := by
    refine hlate.imp_right fun ⟨fetch, hto, hdropped, hother⟩ => ?_
    simp only [Moment.repliesTo, hpoll, decide_eq_true_eq] at hto
    have htarget : notify.target = fetch.target := by
      simpa using (Bool.and_eq_true_iff.mp hto.2).2
    exact ⟨fetch, abandoning.late fetch (htarget ▸ data) hdropped, hto.2, hother⟩
  have aside := Relay.handle_late (δ := δ) [] data late
  rw [← hsession] at aside
  obtain ⟨hfetches, hreader, hmessages⟩ := aside.run_anyhow session
  exact ⟨Action.outbox_run_silent hmessages, hfetches, hreader⟩

def ownedByTwo : List (Move Memory.Display) :=
  [.elapse { events := [.ownerChanged ⟨100⟩ ⟨7⟩, .ownerChanged ⟨101⟩ ⟨8⟩] }, .operate .dispatch,
    .elapse {
      properties := { entries :=
        [⟨⟨1⟩, ⟨102⟩, (Content.words [105, 108]).toProperty Atom.atomType⟩] }
      events := [.selectionNotify ⟨0, ⟨1⟩, ⟨100⟩, ⟨102⟩, ⟨102⟩⟩] },
    .operate .dispatch,
    .elapse {
      properties := { entries := [⟨⟨1⟩, ⟨102⟩, (Content.words [105]).toProperty Atom.atomType⟩] }
      events := [.selectionNotify ⟨0, ⟨1⟩, ⟨101⟩, ⟨102⟩, ⟨102⟩⟩] },
    .operate .dispatch]

def changingHands : List (Move Memory.Display) :=
  ownedByTwo ++ [.operate (.ask .clipboard .utf8Text), .operate (.ask .primary .utf8Text),
    .elapse { events := [.ownerChanged ⟨100⟩ ⟨9⟩] }, .operate .dispatch,
    .elapse { events := [.selectionNotify ⟨0, ⟨1⟩, ⟨100⟩, ⟨105⟩, ⟨100⟩⟩] }, .operate .dispatch]

open History in
theorem late_reply_put_aside_changingHands : ∃ course, start {} = some course ∧
    (course.after changingHands).history.faultless = true ∧
    ∃ before moment rest, (course.after changingHands).history = before ++ moment :: rest ∧
      moment.event? = some (.selectionNotify ⟨0, ⟨1⟩, ⟨100⟩, ⟨105⟩, ⟨100⟩⟩) ∧
      moment.replies = true ∧ moment.repliesTo ⟨.clipboard, ⟨105⟩⟩ = true ∧
      Late ⟨.clipboard, ⟨105⟩⟩ before ∧ moment.relay.fetches = [⟨.primary, ⟨105⟩⟩] ∧
      ∀ session : Session Memory.Display, session.relay = moment.relay →
        let after := ((Relay.handle (.selectionNotify ⟨0, ⟨1⟩, ⟨100⟩, ⟨105⟩, ⟨100⟩⟩)).run session).2
        after.outbox = session.outbox ∧ after.relay.fetches = session.relay.fetches ∧
          after.relay.reader = session.relay.reader := by
  have hstart : start ({} : Memory.Display) =
      some ((start {}).get (by decide +kernel)) := (Option.some_get _).symm
  have hfaultless : (((start ({} : Memory.Display)).get (by decide +kernel)).after
      changingHands).history.faultless = true := by decide +kernel
  have hsplit := split_at (((start ({} : Memory.Display)).get (by decide +kernel)).after
      changingHands).history 55 (by decide +kernel)
  have hlate : Late ⟨.clipboard, ⟨105⟩⟩ ((((start ({} : Memory.Display)).get
      (by decide +kernel)).after changingHands).history.take 55) :=
    ⟨_, _, _, split_at _ 45 (by decide +kernel), by decide +kernel, by decide +kernel,
      by decide +kernel⟩
  refine ⟨_, hstart, hfaultless, _, _, _, hsplit, by decide +kernel, by decide +kernel,
    by decide +kernel, hlate, by decide +kernel, ?_⟩
  exact late_reply_put_aside hstart hfaultless hsplit
    (show Moment.event? _ = some (.selectionNotify ⟨0, ⟨1⟩, ⟨100⟩, ⟨105⟩, ⟨100⟩⟩) by decide +kernel)
    (by decide +kernel)
    (.inr ⟨⟨.clipboard, ⟨105⟩⟩, by decide +kernel, hlate, by decide +kernel⟩)

/-- The clipboard changes hands twice, each time before its owner has replied to a question of the
agent. -/
def changingTwice (second : ContentType) : List (Move Memory.Display) :=
  ownedByTwo ++ [.operate (.ask .clipboard .utf8Text),
    .elapse {
      properties := { entries :=
        [⟨⟨1⟩, ⟨102⟩, (Content.words [105, 108]).toProperty Atom.atomType⟩] }
      events := [.ownerChanged ⟨100⟩ ⟨9⟩, .selectionNotify ⟨0, ⟨1⟩, ⟨100⟩, ⟨102⟩, ⟨102⟩⟩] },
    .operate .dispatch, .operate (.ask .clipboard second), .operate (.ask .primary .utf8Text),
    .elapse { events := [.ownerChanged ⟨100⟩ ⟨10⟩] }, .operate .dispatch]

def firstReplies : List (Move Memory.Display) :=
  changingTwice .imagePng ++
    [.elapse { events := [.selectionNotify ⟨0, ⟨1⟩, ⟨100⟩, ⟨105⟩, ⟨100⟩⟩] }, .operate .dispatch]

/-- Both of two owners that were asked for the same target reply. -/
def bothReply : List (Move Memory.Display) :=
  changingTwice .utf8Text ++
    [.elapse { events := [.selectionNotify ⟨0, ⟨1⟩, ⟨100⟩, ⟨105⟩, ⟨100⟩⟩,
      .selectionNotify ⟨0, ⟨1⟩, ⟨100⟩, ⟨105⟩, ⟨100⟩⟩] }, .operate .dispatch]

open History in
/-- Of several fetches of a selection that were dropped, only the last is remembered, and only for
one reply: the reply to another ends the fetch of the other selection. -/
theorem late_reply_forgotten : ∃ course, start ({} : Memory.Display) = some course ∧
    ∀ moves ∈ [firstReplies, bothReply], (course.after moves).history.faultless = true ∧
      (course.after moves).history.RepliesOnce id ∧
      ∃ (before : History) (moment : Moment) (rest : History) (notify : SelectionNotify)
          (fetch : Fetch),
        (course.after moves).history = before ++ moment :: rest ∧
        moment.event? = some (.selectionNotify notify) ∧ moment.replies = true ∧
        before.conversions[before.replies]? = some fetch ∧
        (∃ (earlier : History) (drop : Moment) (since : History), before = earlier ++ drop :: since ∧
          earlier.conversions.length = before.replies + 1 ∧ drop.drops fetch.selection = true) ∧
        moment.relay.fetches.head?.map (·.selection) ≠ some fetch.selection ∧
        ((Relay.handle (.selectionNotify notify)).run
          { display := ({} : Memory.Display), relay := moment.relay }).2.relay.fetches ≠
            moment.relay.fetches := by
  have hstart : start ({} : Memory.Display) =
      some ((start {}).get (by decide +kernel)) := (Option.some_get _).symm
  refine ⟨_, hstart, List.forall_mem_cons.mpr ⟨?first, List.forall_mem_singleton.mpr ?both⟩⟩
  case first =>
    refine ⟨by decide +kernel, ⟨Function.injective_id, by decide +kernel⟩, _, _, _,
      ⟨0, ⟨1⟩, ⟨100⟩, ⟨105⟩, ⟨100⟩⟩, ⟨.clipboard, ⟨105⟩⟩, split_at _ 77 (by decide +kernel),
      by decide +kernel, by decide +kernel, by decide +kernel,
      ⟨_, _, _, split_at _ 42 (by decide +kernel), by decide +kernel, by decide +kernel⟩,
      by decide +kernel, by decide +kernel⟩
  case both =>
    refine ⟨by decide +kernel, ⟨Function.injective_id, by decide +kernel⟩, _, _, _,
      ⟨0, ⟨1⟩, ⟨100⟩, ⟨105⟩, ⟨100⟩⟩, ⟨.clipboard, ⟨105⟩⟩, split_at _ 81 (by decide +kernel),
      by decide +kernel, by decide +kernel, by decide +kernel,
      ⟨_, _, _, split_at _ 67 (by decide +kernel), by decide +kernel, by decide +kernel⟩,
      by decide +kernel, by decide +kernel⟩

end Course

end ClipboardRelay
