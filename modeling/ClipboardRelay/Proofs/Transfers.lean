import ClipboardRelay.Memory.Display
import ClipboardRelay.Proofs.FetchQueue
import ClipboardRelay.Proofs.Upholding
/-!
Data that comes in chunks. The relay has one reader for the transfers of all fetches, and chunks do
not say which transfer they belong to. Main statement: as long as no owner replies with all the data
in the middle of a transfer, what is received is made of the chunks that came since the fetch at the
head of the queue was announced, and of no others.
-/

namespace ClipboardRelay

def Event.isStored : Event → Bool
  | propertyStored .. => true
  | _ => false

namespace Moment

/-- Whether an owner's reply was found to say that its data comes in chunks. -/
def announces (moment : Moment) : Bool :=
  match moment.deed with
  | .called (.getProperty _ _ false) (some property) =>
    property.type = moment.relay.vocabulary.incr
  | _ => false

/-- Whether an owner's reply was found to be all the data, though a transfer was under way. -/
def interrupts (moment : Moment) : Bool :=
  match moment.deed with
  | .called (.getProperty _ _ false) (some property) =>
    moment.relay.reader.active && property.type ≠ moment.relay.vocabulary.incr &&
      property.format = 8 && !property.value.isEmpty &&
      moment.relay.fetches.head?.any fun fetch => property.type = fetch.target
  | _ => false

def removed? (moment : Moment) : Option Bytes :=
  match moment.deed with
  | .called (.getProperty _ _ true) (some property) => some property.value
  | _ => none

end Moment

namespace History

def storedAfter (stored : Bool) (history : History) : Bool :=
  history.foldl (fun stored moment => moment.event?.elim stored Event.isStored) stored

abbrev stored (history : History) : Bool :=
  history.storedAfter false

/-- What was read and removed from properties because it was stored. -/
def chunksAfter (stored : Bool) : History → List Bytes
  | [] => []
  | moment :: rest => (if stored then moment.removed?.toList else []) ++
      chunksAfter (moment.event?.elim stored Event.isStored) rest

abbrev chunks (history : History) : List Bytes :=
  history.chunksAfter false

variable {history added : History} {stored : Bool}

theorem storedAfter_append :
    (history ++ added).storedAfter stored = added.storedAfter (history.storedAfter stored) :=
  List.foldl_append

theorem stored_append : (history ++ added).stored = added.storedAfter history.stored :=
  storedAfter_append

theorem chunksAfter_append : (history ++ added).chunksAfter stored =
    history.chunksAfter stored ++ added.chunksAfter (history.storedAfter stored) := by
  induction history generalizing stored with
  | nil => rfl
  | cons moment history ih => simp [chunksAfter, storedAfter, ih]

theorem chunks_append :
    (history ++ added).chunks = history.chunks ++ added.chunksAfter history.stored :=
  chunksAfter_append

theorem chunksAfter_of_not_removed (h : ∀ moment ∈ added, moment.removed? = none) :
    added.chunksAfter stored = [] := by
  induction added generalizing stored with
  | nil => rfl
  | cons moment added ih =>
    obtain ⟨hmoment, hadded⟩ := List.forall_mem_cons.mp h
    simp [chunksAfter, hmoment, ih hadded]

theorem chunksAfter_of_not_stored (h : ∀ moment ∈ added, moment.event? = none) :
    added.chunksAfter false = [] := by
  induction added with
  | nil => rfl
  | cons moment added ih => simp_all [chunksAfter]

theorem storedAfter_of_not_polled (h : ∀ moment ∈ added, moment.event? = none) :
    added.storedAfter stored = stored := by
  induction added with
  | nil => rfl
  | cons moment added ih => simp_all [storedAfter]

end History

/-- A fetch was announced to come in chunks when it was at the head of the queue and no transfer was
under way. Since then `left` fetches of its selection have left the queue, nothing else was
announced, and the chunks that came make up what was received. -/
def Transfer (relay : Relay) (history : History) (fetch : Fetch) (received : Bytes)
    (left : Nat) : Prop :=
  ∃ (before : History) (announcement : Moment) (since : History),
    history = before ++ announcement :: since ∧ announcement.announces = true ∧
    before.stored = false ∧ announcement.relay.reader.active = false ∧
    announcement.relay.fetches.head? = some fetch ∧
    (∀ moment ∈ since, moment.announces = false) ∧
    (relay.fetchesOf fetch.selection).length + left =
      (announcement.relay.fetchesOf fetch.selection).length +
        (since.accepted.filter (·.selection = fetch.selection)).length ∧
    received = since.chunks.flatten

/-- If a transfer is under way, it is of the fetch at the head of the queue, which has been there
since the transfer was announced, and the reader holds the chunks that have come since. -/
def Intact (relay : Relay) (history : History) : Prop :=
  relay.reader.active = true → ∃ fetch, relay.fetches.head? = some fetch ∧
    Transfer relay history fetch relay.reader.data 0

/-- What holds when something is announced, and when data is sent that came in chunks. -/
structure Moment.Unmixed (before : History) (moment : Moment) : Prop where
  announced : moment.announces = true → Intact moment.relay before
  sent : ∀ selection type bytes, moment.deed = .sent (.data selection type bytes) → bytes ≠ [] →
    before.stored = true → ∃ fetch, fetch.selection = selection ∧
      moment.relay.registry.typeFor fetch.target = some type ∧
      Transfer moment.relay before fetch bytes 1

structure Receiving (relay : Relay) (history : History) : Prop where
  intact : Intact relay history
  unmixed : history.Always Moment.Unmixed

namespace Moment

structure IsPlain (moment : Moment) : Prop where
  unannounced : moment.announces = false
  unaccepted : moment.accepted? = none
  unsent : ∀ selection type bytes, moment.deed = .sent (.data selection type bytes) → bytes = []

variable {moment : Moment}

theorem event?_of_announces (h : moment.announces = true) : moment.event? = none := by
  unfold announces at h
  split at h
  case h_1 hdeed => rw [event?, hdeed]
  case h_2 => cases h

theorem IsPlain.unmixed (h : moment.IsPlain) (before : History) : moment.Unmixed before where
  announced hannounces := by
    rw [h.unannounced] at hannounces
    cases hannounces
  sent selection type bytes hdeed hbytes := absurd (h.unsent selection type bytes hdeed) hbytes

theorem IsPlain.of_idle (h : moment.isIdle = true) : moment.IsPlain where
  unannounced := by
    unfold announces
    split
    case h_1 hdeed =>
      rw [isIdle, hdeed] at h
      cases h
    case h_2 => rfl
  unaccepted := by
    unfold accepted?
    split
    case h_1 hdeed => simpa [isIdle, hdeed, accepted?] using h
    case h_2 => rfl
  unsent selection type bytes hdeed := by
    rw [isIdle, hdeed] at h
    cases type <;> cases bytes <;> first | rfl | cases h

theorem Unmixed.of_called {before : History} {relay : Relay} {asked : Call}
    {answer : asked.Answer}
    (h : (Moment.mk relay (.called asked answer)).announces = true → Intact relay before) :
    (Moment.mk relay (.called asked answer)).Unmixed before where
  announced := h
  sent selection type bytes hsent := by cases hsent

theorem removed?_of_idle (h : moment.isIdle = true) : moment.removed? = none := by
  unfold removed?
  split
  case h_1 hdeed =>
    rw [isIdle, hdeed] at h
    cases h
  case h_2 => rfl

end Moment

/-- Whether a deed has no part in a transfer, if it is not done because a property was stored. -/
def Deed.isPlain : Deed → Bool
  | began _ | called (.getProperty _ _ false) _ => false
  | sent (.data _ _ bytes) => bytes.isEmpty
  | _ => true

def Deed.isQuiescent : Deed → Bool
  | called (.getProperty ..) _ => false
  | deed => deed.isPlain

theorem Deed.isPlain_of_looking {deed : Deed} (h : deed.isLooking = true) :
    deed.isPlain = true := by
  rw [isPlain]
  all_goals
    intros
    subst_vars
    cases h

theorem Deed.not_poll_of_looking {deed : Deed} (h : deed.isLooking = true) :
    deed.isPoll = false := by
  rw [isPoll]
  rintro event rfl
  cases h

theorem Deed.isPlain_of_quiescent {deed : Deed} (h : deed.isQuiescent = true) :
    deed.isPlain = true := by
  unfold isQuiescent at h
  split at h
  · cases h
  · exact h

namespace Moment

variable {moment : Moment}

theorem removed?_of_quiescent (h : moment.deed.isQuiescent = true) : moment.removed? = none := by
  unfold removed?
  split
  case h_1 hdeed =>
    rw [hdeed] at h
    cases h
  case h_2 => rfl

theorem IsPlain.of_deed (h : moment.deed.isPlain = true) : moment.IsPlain where
  unannounced := by
    unfold announces
    split
    case h_1 hdeed =>
      rw [hdeed] at h
      cases h
    case h_2 => rfl
  unaccepted := by
    unfold accepted?
    split
    case h_1 hdeed =>
      rw [hdeed] at h
      cases h
    case h_2 => rfl
  unsent selection type bytes hdeed := by
    rw [hdeed] at h
    exact List.isEmpty_iff.mp h

end Moment

namespace Transfer

variable {relay after : Relay} {history added : History} {fetch : Fetch} {received : Bytes}
  {left more : Nat}

theorem extend (h : Transfer relay history fetch received left)
    (hannounces : ∀ moment ∈ added, moment.announces = false)
    (hcount : (after.fetchesOf fetch.selection).length + more =
      (relay.fetchesOf fetch.selection).length + left +
        (added.accepted.filter (·.selection = fetch.selection)).length) :
    Transfer after (history ++ added) fetch
      (received ++ (added.chunksAfter history.stored).flatten) more := by
  obtain ⟨before, announcement, since, rfl, hannounced, hstored, hidle, hfront, hsince, hleft, rfl⟩ := h
  refine ⟨before, announcement, since ++ added, by simp, hannounced, hstored, hidle, hfront,
    fun moment hmoment => ?_, ?_, ?_⟩
  · rcases List.mem_append.mp hmoment with hold | hnew
    · exact hsince moment hold
    · exact hannounces moment hnew
  · rw [History.accepted_append, List.filter_append, List.length_append]
    omega
  · have hsame : History.stored (before ++ announcement :: since) = since.stored := by
      rw [History.stored_append, hstored]
      simp [History.storedAfter, Moment.event?_of_announces hannounced]
    rw [hsame, History.chunks_append, List.flatten_append]

theorem calmly (h : Transfer relay history fetch received left)
    (hfetches : after.fetchesOf fetch.selection = relay.fetchesOf fetch.selection)
    (hplain : ∀ moment ∈ added, moment.IsPlain)
    (hchunks : added.chunksAfter history.stored = []) :
    Transfer after (history ++ added) fetch received left := by
  have haccepted : added.accepted = [] :=
    List.filterMap_eq_nil_iff.mpr fun moment hmoment => (hplain moment hmoment).unaccepted
  have extended : Transfer after (history ++ added) fetch (received ++ _) left :=
    h.extend (fun moment hmoment => (hplain moment hmoment).unannounced)
      (by simp [haccepted, hfetches])
  rwa [hchunks, List.flatten_nil, List.append_nil] at extended

theorem finished (h : Transfer relay history fetch received 0) {rest : List Fetch}
    (front : relay.fetches = fetch :: rest) (data : Option Bytes) :
    Transfer (relay.finished data rest) history fetch received 1 := by
  have hcount : ((relay.finished data rest).fetchesOf fetch.selection).length + 1 =
      (relay.fetchesOf fetch.selection).length := by
    simp [Relay.fetchesOf, Relay.finished, Relay.withFetches, front]
  obtain ⟨before, announcement, since, hsplit, hannounced, hstored, hidle, hfront, hsince, hleft,
    hreceived⟩ := h
  exact ⟨before, announcement, since, hsplit, hannounced, hstored, hidle, hfront, hsince,
    hcount.trans hleft, hreceived⟩

end Transfer

theorem Relay.eq_of_answer {relay : Relay} {fetch : Fetch} {data : Option Bytes}
    {selection : Selection} {type : ContentType} {bytes : Bytes}
    (h : relay.answer fetch data = .data selection type bytes) (hbytes : bytes ≠ []) :
    fetch.selection = selection ∧ relay.registry.typeFor fetch.target = some type ∧
      data = some bytes := by
  unfold answer at h
  split at h
  case h_1 known =>
    split at h
    case isTrue => exact absurd (Wire.Message.data.inj h).2.2.symm hbytes
    case isFalse =>
      obtain ⟨rfl, rfl, rfl⟩ := Wire.Message.data.inj h
      exact ⟨rfl, known, rfl⟩
  case h_2 => exact absurd (Wire.Message.data.inj h).2.2.symm hbytes

namespace Receiving

open Relay

variable {δ α : Type} {relay after : Relay} {history added : History}

theorem of_inactive (h : history.Always Moment.Unmixed) (hinactive : relay.reader.active = false) :
    Receiving relay history :=
  ⟨fun hactive => absurd hactive (by simp [hinactive]), h⟩

def transferring (relay : Relay) : List Fetch × Incremental.Reader :=
  (relay.fetches, relay.reader)

theorem calmly (h : Receiving relay history) (hkept : transferring after = transferring relay)
    (hplain : ∀ moment ∈ added, moment.IsPlain)
    (hchunks : added.chunksAfter history.stored = []) :
    Receiving after (history ++ added) := by
  have hfetches : after.fetches = relay.fetches := congrArg Prod.fst hkept
  have hreader : after.reader = relay.reader := congrArg Prod.snd hkept
  refine ⟨fun hactive => ?_, h.unmixed.append fun moment hmoment => (hplain moment hmoment).unmixed⟩
  rw [hreader] at hactive ⊢
  obtain ⟨fetch, hhead, htransfer⟩ := h.intact hactive
  refine ⟨fetch, by rwa [hfetches], htransfer.calmly ?_ hplain hchunks⟩
  rw [fetchesOf, hfetches, fetchesOf]

theorem yields (h : Receiving relay history) {action : Action δ α}
    (hspares : action.Spares transferring Deed.isQuiescent) :
    action.Yields (fun _ => Receiving) relay history := by
  refine hspares.yields fun _ after added hkept hadded => h.calmly hkept ?_ ?_
  · intro moment hmoment
    exact .of_deed (Deed.isPlain_of_quiescent (hadded moment hmoment))
  · refine History.chunksAfter_of_not_removed fun moment hmoment => ?_
    exact Moment.removed?_of_quiescent (hadded moment hmoment)

theorem did (h : Receiving relay history) {moment : Moment}
    (hmoment : moment.deed.isQuiescent = true) : Receiving relay (history ++ [moment]) := by
  have hplain := Moment.IsPlain.of_deed (Deed.isPlain_of_quiescent hmoment)
  refine h.calmly rfl (List.forall_mem_singleton.mpr hplain) ?_
  exact History.chunksAfter_of_not_removed
    (List.forall_mem_singleton.mpr (Moment.removed?_of_quiescent hmoment))

theorem looks (h : Receiving relay history) (hunstored : history.stored = false)
    {action : Action δ α} (hspares : action.Spares (fun relay => relay) Deed.isLooking) :
    action.Yields (fun _ after later => after = relay ∧ later.stored = false ∧
      Receiving after later) relay history := by
  refine hspares.yields fun _ after added hkept hadded => ⟨hkept, ?_, ?_⟩
  · rw [History.stored_append, hunstored]
    refine History.storedAfter_of_not_polled fun moment hmoment => ?_
    exact Moment.event?_of_not_poll (Deed.not_poll_of_looking (hadded moment hmoment))
  · refine h.calmly (congrArg transferring hkept) (fun moment hmoment => ?_) ?_
    · exact .of_deed (Deed.isPlain_of_looking (hadded moment hmoment))
    · rw [hunstored]
      refine History.chunksAfter_of_not_stored fun moment hmoment => ?_
      exact Moment.event?_of_not_poll (Deed.not_poll_of_looking (hadded moment hmoment))

theorem quiescent_of_serving {action : Action δ α}
    (h : action.Spares besidesRequests Deed.isServing) :
    action.Spares transferring Deed.isQuiescent :=
  h.mono transferring (fun _ => rfl) fun deed hserving => by
    rw [Deed.isQuiescent, Deed.isPlain]
    all_goals
      intros
      subst_vars
      cases hserving

theorem startFetch_spares :
    Action.Spares transferring Deed.isQuiescent (Relay.startFetch : Action δ Unit) := by
  refine .bind spares_current fun relay => ?_
  split
  · exact .pure
  split
  · exact .pure
  · refine .bind (spares_update fun _ => rfl) fun _ => .bind (spares_remark rfl) fun _ => ?_
    exact spares_call fun _ => rfl

theorem polled (h : Receiving relay history) (event : Event) :
    Receiving relay (history ++ [⟨relay, .called .pollEvent (some event)⟩]) := by
  refine h.calmly rfl (List.forall_mem_singleton.mpr (.of_deed rfl)) ?_
  exact History.chunksAfter_of_not_removed (List.forall_mem_singleton.mpr rfl)

theorem accept (h : Receiving relay history) {operation : Operation} {fetch : Fetch}
    (accepted : (Moment.mk relay (.began operation)).accepted? = some fetch) :
    Receiving (relay.withFetches (relay.fetches ++ [fetch]))
      (history ++ [⟨relay, .began operation⟩]) := by
  refine ⟨fun hactive => ?_, h.unmixed.concat ⟨nofun, nofun⟩⟩
  obtain ⟨front, hhead, htransfer⟩ := h.intact hactive
  have haccepted : History.accepted [⟨relay, .began operation⟩] = [fetch] := by
    simp [History.accepted, accepted]
  have hremoved : ∀ moment ∈ [Moment.mk relay (.began operation)], moment.removed? = none :=
    List.forall_mem_singleton.mpr rfl
  have extended : Transfer (relay.withFetches (relay.fetches ++ [fetch]))
      (history ++ [⟨relay, .began operation⟩]) front (relay.reader.data ++ _) 0 :=
    htransfer.extend (List.forall_mem_singleton.mpr rfl)
      (by simp [haccepted, fetchesOf, withFetches])
  rw [History.chunksAfter_of_not_removed hremoved, List.flatten_nil, List.append_nil] at extended
  exact ⟨front, by simp [withFetches, hhead], extended⟩

theorem queueFetch (h : Receiving relay history) {operation : Operation} {fetch : Fetch}
    (accepted : (Moment.mk relay (.began operation)).accepted? = some fetch) :
    (Relay.queueFetch fetch : Action δ Unit).Yields (fun _ => Receiving) relay
      (history ++ [⟨relay, .began operation⟩]) := by
  have queued := h.accept accepted
  refine queueFetch_ensures_of fetch (fun empty => ?_) fun _ => queued
  rw [empty] at queued
  exact queued.yields startFetch_spares

theorem dropFetches (h : Receiving relay history) (selection : Selection) :
    (Relay.dropFetches selection : Action δ Unit).Yields (fun _ => Receiving) relay history := by
  have hquiescent : ∀ moment ∈ relay.dropping selection, moment.deed.isQuiescent = true := by
    simp [dropping, Deed.isQuiescent, Deed.isPlain, Wire.Message.noData]
  have hplain : ∀ moment ∈ relay.dropping selection, moment.IsPlain := fun moment hmoment =>
    .of_deed (Deed.isPlain_of_quiescent (hquiescent moment hmoment))
  have hdropped := h.unmixed.append fun moment hmoment => (hplain moment hmoment).unmixed
  refine dropFetches_ensures_of selection (fun _ => h) (fun active rest front _ same => ?_)
    fun active rest front _ other => ⟨fun hactive => ?_, hdropped⟩
  · exact (of_inactive hdropped rfl).yields startFetch_spares
  · obtain ⟨fetch, hhead, htransfer⟩ := h.intact hactive
    rw [front, List.head?_cons, Option.some_inj] at hhead
    subst hhead
    refine ⟨active, by simp [withoutFetches, withFetches, front, other], ?_⟩
    refine htransfer.calmly ?_ hplain (History.chunksAfter_of_not_removed fun moment hmoment => ?_)
    · exact fetchesOf_of_dropped rfl other
    · exact Moment.removed?_of_quiescent (hquiescent moment hmoment)

theorem finishFetch (h : history.Always Moment.Unmixed) (data : Option Bytes)
    (hinactive : data.isSome = true → relay.reader.active = false)
    (hreceived : ∀ bytes, data = some bytes → history.stored = true →
      ∀ fetch ∈ relay.fetches.head?, Transfer relay history fetch bytes 0) :
    (Relay.finishFetch data : Action δ Unit).Yields (fun _ => Receiving) relay history := by
  have still (rest : List Fetch) : (relay.finished data rest).reader.active = false := by
    cases data with
    | none => rfl
    | some bytes => exact hinactive rfl
  refine finishFetch_ensures_of data (fun empty => of_inactive h (still [])) fun fetch rest front => ?_
  refine (of_inactive ?_ (still rest)).yields startFetch_spares
  unfold finishing
  split
  case isTrue unknown =>
    have hanswer : relay.answer fetch data = .noData fetch.selection := by
      simp [answer, Option.isNone_iff_eq_none.mp unknown]
    refine h.append fun moment hmoment => (Moment.IsPlain.of_deed ?_).unmixed
    rw [hanswer] at hmoment
    obtain ⟨deed, hdeed, rfl⟩ := List.mem_map.mp hmoment
    rcases List.mem_pair.mp hdeed with rfl | rfl <;> rfl
  case isFalse known =>
    refine h.concat ⟨fun hannounces => ?_, fun selection type bytes hsent hbytes hstored => ?_⟩
    · cases hannounces
    · obtain ⟨hselection, htype, hdata⟩ := eq_of_answer (Deed.sent.inj hsent) hbytes
      have received := hreceived bytes hdata hstored fetch (by rw [front]; rfl)
      exact ⟨fetch, hselection, htype, received.finished front data⟩

theorem changeHolder (h : Receiving relay history) (selection : Selection) (holder : Holder) :
    (Relay.changeHolder selection holder : Action δ Unit).Yields (fun _ => Receiving) relay
      history := by
  refine .bind (h.yields (quiescent_of_serving (dropRequests_spares selection))) fun _ _ _ h => ?_
  refine .bind (h.dropFetches selection) fun _ relay history h => ?_
  refine h.yields (.bind spares_current fun relay => .bind (spares_update fun _ => rfl) fun _ => ?_)
  split
  · exact spares_send rfl
  · exact .pure

theorem handleOwner (h : Receiving relay history) (atom : Atom) (owner : Window) :
    (Relay.handleOwner atom owner : Action δ Unit).Yields (fun _ => Receiving) relay history := by
  refine .current_bind ?_
  split
  · exact h
  refine .bind (h.yields (spares_remark rfl)) fun _ relay history h => ?_
  split
  · exact h
  refine .bind (h.changeHolder _ _) fun _ relay history h => ?_
  split
  · exact h
  · exact h.yields (.bind (spares_call fun _ => rfl) fun _ => spares_update fun _ => rfl)

theorem handleTargets (h : Receiving relay history) (hunstored : history.stored = false)
    (notify : SelectionNotify) :
    (Relay.handleTargets notify : Action δ Unit).Yields (fun _ => Receiving) relay history := by
  have discarded {relay : Relay} (h : Receiving relay history) (notice : Notice)
      (hnotice : (Deed.noted notice).isLooking = true) :
      (do note notice; discardTargets notify : Action δ Unit).Yields (fun _ => Receiving) relay
        history :=
    (h.looks hunstored (.bind (spares_note hnotice) fun _ => discardTargets_spares notify)).mono
      fun _ _ _ looked => looked.2.2
  refine .current_bind ?_
  split
  case h_1 => exact discarded h _ rfl
  case h_2 selection _ =>
    rcases relay.slots.arrive selection with ⟨arrival, slots⟩
    have arrived : Receiving { relay with slots } history := ⟨h.intact, h.unmixed⟩
    rw [Action.Yields, Action.ensures_bind, ensures_update]
    cases arrival with
    | unexpected | stale => exact discarded arrived _ rfl
    | current =>
      dsimp only
      split
      · exact discarded arrived _ rfl
      refine Action.Yields.bind (arrived.looks hunstored (readTargets_spares selection notify))
        fun offered relay history looked => ?_
      have h := looked.2.2
      split
      · exact h
      refine .bind (h.yields (spares_remarkTargets (fun _ => rfl) fun _ => rfl))
        fun _ relay history h => .current_bind ?_
      split
      · exact h.yields (spares_remark rfl)
      · exact .bind (h.yields (spares_send rfl)) fun _ relay history h => h.changeHolder _ _

end Receiving

structure Undisturbed (history : History) : Prop where
  unmixed : history.Always Moment.Unmixed
  unstored : history.stored = false

theorem Undisturbed.did {history : History} (h : Undisturbed history) {moment : Moment}
    (hunmixed : moment.Unmixed history) (hpoll : moment.event? = none) :
    Undisturbed (history ++ [moment]) := by
  refine ⟨h.unmixed.concat hunmixed, ?_⟩
  rw [History.stored_append, h.unstored]
  exact History.storedAfter_of_not_polled (List.forall_mem_singleton.mpr hpoll)

/-- Whether an owner sent all the data in the middle of a transfer. -/
def History.Interrupted (history : History) : Prop :=
  ∃ moment ∈ history, moment.interrupts = true

theorem History.Interrupted.upholds {δ α : Type} {relay : Relay} {history : History}
    (h : history.Interrupted) {action : Action δ α} {holds : Relay → History → Prop} :
    action.Upholds Interrupted holds relay history :=
  action.spares_begun.yields fun _ _ _ _ _ =>
    .inl (h.imp fun _ hmoment => hmoment.imp_left (List.mem_append_left _))

theorem Relay.checkProperty_ensures_of {δ : Type} {relay : Relay} {history : History}
    {post : Bool → Relay → History → Prop} {broken : Relay → History → Prop}
    (selection : Selection) {target : Atom} {property : Property}
    (hfits : property.type = target → property.format = 8 → post true relay history)
    (hunfit : ∀ what, post false relay (history ++ [⟨relay, .noted (.about selection what)⟩])) :
    (checkProperty selection target property : Action δ Bool).Ensures post broken relay
      history := by
  unfold checkProperty
  split
  case isTrue => exact hunfit _
  case isFalse type =>
    split
    case isTrue => exact hunfit _
    case isFalse format => exact hfits (not_not.mp type) (not_not.mp format)

namespace Receiving

open Relay

variable {δ : Type} {relay : Relay} {history : History}

theorem announced (h : history.Always Moment.Unmixed) (hunstored : history.stored = false)
    (hinactive : relay.reader.active = false) {fetch : Fetch}
    (front : relay.fetches.head? = some fetch) {window : Window} {atom : Atom}
    {property : Property} (incremental : property.type = relay.vocabulary.incr)
    {reader : Incremental.Reader} (hdata : reader.data = []) :
    Receiving { relay with reader }
      (history ++ [⟨relay, .called (.getProperty window atom false) (some property)⟩]) := by
  have hunmixed : Moment.Unmixed history
      ⟨relay, .called (.getProperty window atom false) (some property)⟩ :=
    .of_called fun _ hactive => absurd hactive (by simp [hinactive])
  refine ⟨fun _ => ⟨fetch, front, history, _, [], rfl, decide_eq_true incremental, hunstored,
    hinactive, front, by simp, rfl, ?_⟩, h.concat hunmixed⟩
  rw [hdata]
  rfl

theorem readReply (h : Receiving relay history) (hunstored : history.stored = false)
    {fetch : Fetch} (front : relay.fetches.head? = some fetch) (notify : SelectionNotify) :
    (Relay.readReply fetch notify : Action δ Relay.Reply).Yields (fun reply after later =>
      later.Interrupted ∨
        match reply with
        | .pending => Receiving after later
        | .data _ => Undisturbed later ∧ after.reader.active = false
        | .failed => Undisturbed later) relay history := by
  have said {history : History} (h : Undisturbed history) (notice : Notice) :
      Undisturbed (history ++ [⟨relay, .noted notice⟩]) :=
    h.did ((Moment.IsPlain.of_deed rfl).unmixed _) rfl
  have deleted {history : History} (h : Undisturbed history) (atom : Atom) :
      Undisturbed (history ++ [⟨relay, .called (.deleteProperty relay.window atom) ()⟩]) :=
    h.did ((Moment.IsPlain.of_deed rfl).unmixed _) rfl
  have begun : Undisturbed history := ⟨h.unmixed, hunstored⟩
  unfold Relay.readReply
  rw [Action.Yields, Action.ensures_bind, Relay.ensures_current]
  dsimp only
  split
  case isTrue refused => exact .inr (said begun _)
  case isFalse =>
    split
    case isTrue mismatch => exact .inr (said begun _)
    case isFalse =>
      refine Relay.ensures_call_bind (fun found => ?_) fun _ => trivial
      have read : Undisturbed (history ++
          [⟨relay, .called (.getProperty relay.window notify.property false) found⟩]) :=
        begun.did (.of_called fun _ => h.intact) rfl
      cases found with
      | none => exact .inr (said read _)
      | some property =>
        dsimp only
        split
        case isTrue incremental =>
          split
          case isTrue active =>
            rw [Action.ensures_bind, Relay.ensures_remark]
            exact Relay.ensures_call_bind (fun _ => .inr (deleted (said read _) _))
              fun _ => trivial
          case isFalse inactive =>
            rw [Action.ensures_bind, Relay.ensures_remark, Action.ensures_bind,
              Relay.ensures_update]
            refine Relay.ensures_call_bind (fun _ => ?_) fun _ => trivial
            refine Relay.ensures_call_bind (fun _ => ?_) fun _ => trivial
            have hinactive : relay.reader.active = false := by simpa using inactive
            refine .inr ((((announced h.unmixed hunstored hinactive front incremental ?_).did
              rfl).did rfl).did rfl)
            exact Incremental.Reader.data_begin ..
        case isFalse whole =>
          refine Relay.ensures_call_bind (fun _ => ?_) fun _ => trivial
          rw [Action.ensures_bind]
          refine Relay.checkProperty_ensures_of _ (fun type format => ?_) fun what => ?_
          · rw [if_pos rfl]
            split
            case isTrue empty => exact .inr (said (deleted read _) _)
            case isFalse nonempty =>
              cases hactive : relay.reader.active with
              | false => exact .inr ⟨deleted read _, hactive⟩
              | true =>
                refine .inl ⟨_, List.mem_append_left _ (List.mem_append_right _
                  (List.mem_singleton.mpr rfl)), ?_⟩
                simp [Moment.interrupts, hactive, format, nonempty, front, ← type, whole]
          · exact .inr (said (deleted read _) _)

theorem receiveReply (h : Receiving relay history) (hunstored : history.stored = false)
    (notify : SelectionNotify) :
    (Relay.receiveReply notify : Action δ Unit).Upholds History.Interrupted Receiving relay
      history := by
  have ended {relay : Relay} {history : History} (h : Undisturbed history) (data : Option Bytes)
      (hinactive : data.isSome = true → relay.reader.active = false) :
      (Relay.finishFetch data : Action δ Unit).Upholds History.Interrupted Receiving relay
        history := by
    refine (finishFetch h.unmixed data hinactive ?_).mono fun _ _ _ => .inr
    intro bytes _ hstored
    rw [h.unstored] at hstored
    cases hstored
  refine .current_bind ?_
  split
  case h_1 => exact .inr (h.did rfl)
  case h_2 fetch rest front =>
    have hfront : relay.fetches.head? = some fetch := congrArg List.head? front
    refine .bind (h.looks hunstored (checkReply_spares fetch notify)) ?_
    rintro fits _ history ⟨rfl, hunstored, h⟩
    split
    case isFalse => exact ended ⟨h.unmixed, hunstored⟩ none nofun
    case isTrue =>
      refine .bind (h.readReply hunstored hfront notify) ?_
      rintro reply after later (hinterrupted | hread)
      · exact hinterrupted.upholds
      cases reply with
      | pending => exact .inr hread
      | data bytes => exact ended hread.1 (some bytes) fun _ => hread.2
      | failed => exact ended hread none nofun

theorem handleConversion (h : Receiving relay history) (hunstored : history.stored = false)
    (notify : SelectionNotify) :
    (Relay.handleConversion notify : Action δ Unit).Upholds History.Interrupted Receiving relay
      history := by
  refine .current_bind ?_
  split
  case h_1 => exact h.receiveReply hunstored notify
  case h_2 fetch _ =>
    have settled : Receiving
        { relay with abandoned := relay.abandoned.eraseP (answers relay.vocabulary notify) }
        history := ⟨h.intact, h.unmixed⟩
    refine .update_bind ?_
    split
    · exact settled.receiveReply hunstored notify
    · refine (settled.yields (.bind (spares_remark rfl) fun _ => ?_)).mono fun _ _ _ => .inr
      split
      · exact spares_call fun _ => rfl
      · exact .pure

theorem readChunk (h : Receiving relay history) {fetch : Fetch} {window : Window} {atom : Atom}
    (front : relay.fetches.head? = some fetch) (active : relay.reader.active = true) :
    (Relay.readChunk fetch atom : Action δ Unit).Yields (fun _ => Receiving) relay
      (history ++ [⟨relay, .called .pollEvent (some (.propertyStored window atom))⟩]) := by
  have polled := h.polled (.propertyStored window atom)
  have failed {relay : Relay} {history : History} (h : history.Always Moment.Unmixed)
      (what : Notice) : (Relay.finishFetch none : Action δ Unit).Yields (fun _ => Receiving) relay
        (history ++ [⟨relay, .noted what⟩]) :=
    finishFetch (h.concat ((Moment.IsPlain.of_deed rfl).unmixed _)) none nofun nofun
  obtain ⟨head, hhead, htransfer⟩ := h.intact active
  obtain rfl := Option.some.inj (hhead.symm.trans front)
  unfold Relay.readChunk
  refine .current_bind ?_
  refine ensures_call_bind (fun found => ?_) fun _ => trivial
  have read : History.Always Moment.Unmixed
      (history ++ [⟨relay, .called .pollEvent (some (.propertyStored window atom))⟩] ++
        [⟨relay, .called (.getProperty relay.window atom true) found⟩]) :=
    polled.unmixed.concat ((Moment.IsPlain.of_deed rfl).unmixed _)
  cases found with
  | none => exact failed read _
  | some chunk =>
    have grown : Transfer relay
        (history ++ [⟨relay, .called .pollEvent (some (.propertyStored window atom))⟩] ++
          [⟨relay, .called (.getProperty relay.window atom true) (some chunk)⟩]) head
        (relay.reader.data ++ chunk.value) 0 := by
      have extended : Transfer relay (history ++
          [⟨relay, .called .pollEvent (some (.propertyStored window atom))⟩,
            ⟨relay, .called (.getProperty relay.window atom true) (some chunk)⟩]) head
          (relay.reader.data ++ _) 0 :=
        htransfer.extend (by simp [Moment.announces]) (by simp [History.accepted, Moment.accepted?])
      simpa [History.chunksAfter, Moment.removed?, Event.isStored] using extended
    dsimp only
    rw [Action.ensures_bind]
    refine checkProperty_ensures_of _ (fun _ _ => ?_) fun what => failed read _
    rw [if_pos rfl]
    split
    case isTrue last =>
      rw [Action.ensures_bind, ensures_current, Action.ensures_bind, ensures_update,
        Incremental.Reader.finish_eq]
      split
      case isTrue nothing =>
        rw [Action.ensures_bind, ensures_remark]
        exact failed read _
      case isFalse something =>
        rw [Action.ensures_bind, ensures_remark]
        refine finishFetch (read.concat ((Moment.IsPlain.of_deed rfl).unmixed _)) _ (fun _ => rfl) ?_
        rintro bytes hbytes - fetch hfetch
        obtain rfl := Option.some.inj hbytes
        obtain rfl := Option.some.inj (front.symm.trans hfetch)
        rw [List.isEmpty_iff.mp last, List.append_nil] at grown
        refine grown.calmly rfl (List.forall_mem_singleton.mpr (.of_deed rfl)) ?_
        exact History.chunksAfter_of_not_removed (List.forall_mem_singleton.mpr rfl)
    case isFalse more =>
      rw [Action.ensures_bind, ensures_update, Action.ensures_bind, ensures_current, ensures_remark]
      refine ⟨fun _ => ⟨head, front, ?_⟩, read.concat ((Moment.IsPlain.of_deed rfl).unmixed _)⟩
      rw [Incremental.Reader.data_push]
      refine grown.calmly rfl (List.forall_mem_singleton.mpr (.of_deed rfl)) ?_
      exact History.chunksAfter_of_not_removed (List.forall_mem_singleton.mpr rfl)

theorem handleStored (h : Receiving relay history) (window : Window) (atom : Atom) :
    (Relay.handleStored window atom : Action δ Unit).Yields (fun _ => Receiving) relay
      (history ++ [⟨relay, .called .pollEvent (some (.propertyStored window atom))⟩]) := by
  have polled := h.polled (.propertyStored window atom)
  refine .current_bind ?_
  split
  case isTrue active =>
    split
    case h_1 => exact polled
    case h_2 fetch rest front =>
      split
      case isTrue => exact h.readChunk (congrArg List.head? front) active
      case isFalse => exact polled
  case isFalse => exact polled

/-- Transfers are kept apart as long as no call fails and no owner interrupts its own. -/
theorem upheld [Display δ] : Upheld δ History.Interrupted Receiving where
  lasting added h := h.imp fun _ hmoment => hmoment.imp_left (List.mem_append_left added)
  fresh relay := ⟨nofun, .nil⟩
  idle hidle h := by
    refine h.calmly rfl (List.forall_mem_singleton.mpr (.of_idle hidle)) ?_
    exact History.chunksAfter_of_not_removed
      (List.forall_mem_singleton.mpr (Moment.removed?_of_idle hidle))
  resized size h := ⟨h.intact, h.unmixed⟩
  queues accepted h := (h.queueFetch accepted).mono fun _ _ _ => .inr
  changes selection holder h := (h.changeHolder selection holder).mono fun _ _ _ => .inr
  delivers selection type data h :=
    (h.yields (quiescent_of_serving (deliver_spares selection type data))).mono fun _ _ _ => .inr
  handles {relay history event} hevent h := by
    cases event with
    | ownerChanged atom owner => exact ((h.polled _).handleOwner atom owner).mono fun _ _ _ => .inr
    | selectionNotify notify =>
      have hunstored : History.stored
          (history ++ [⟨relay, .called .pollEvent (some (.selectionNotify notify))⟩]) = false :=
        History.stored_append
      refine .current_bind ?_
      split
      · exact ((h.polled _).handleTargets hunstored notify).mono fun _ _ _ => .inr
      · exact (h.polled _).handleConversion hunstored notify
    | selectionRequest request =>
      exact ((h.polled _).yields (quiescent_of_serving (queueRequest_spares request))).mono
        fun _ _ _ => .inr
    | propertyStored window property =>
      exact (h.handleStored window property).mono fun _ _ _ => .inr
    | propertyDeleted window property =>
      exact ((h.polled _).yields (quiescent_of_serving (handleDeleted_spares window property))).mono
        fun _ _ _ => .inr
    | rootResized | protocolError | other | selectionCleared | mappingChanged => cases hevent

end Receiving

namespace Course

variable {δ : Type} [Display δ]

/-- As long as no call fails and no owner sends all its data in the middle of a transfer, the
transfer under way is of the fetch at the head of the queue, also whenever an event was polled or
something was announced, and data that came in chunks is sent as it came since the announcement. -/
theorem transfers_kept_apart {display : δ} {course : Course δ} (hstart : start display = some course)
    {moves : List (Move δ)} (hfaultless : (course.after moves).history.faultless = true)
    (huninterrupted : ∀ moment ∈ (course.after moves).history, moment.interrupts = false) :
    Intact (course.after moves).relay (course.after moves).history ∧
      (course.after moves).history.Always fun before moment => moment.Unmixed before ∧
        (moment.event?.isSome = true → Intact moment.relay before) := by
  have hunexcused : ¬ (course.after moves).history.Interrupted := by
    rintro ⟨moment, hmoment, hinterrupts⟩
    rw [huninterrupted moment hmoment] at hinterrupts
    cases hinterrupts
  have receiving := (Receiving.upheld.after hstart hfaultless).resolve_left hunexcused
  refine ⟨receiving.intact, fun before moment rest hsplit => ⟨?_, fun hpoll => ?_⟩⟩
  · exact receiving.unmixed before moment rest hsplit
  · exact (Receiving.upheld.polled hstart hfaultless hunexcused hsplit hpoll).intact

def announcingPicture : List (Move Memory.Display) :=
  [.elapse { events := [.ownerChanged ⟨100⟩ ⟨7⟩] }, .operate .dispatch,
    .elapse {
      properties := { entries :=
        [⟨⟨1⟩, ⟨102⟩, (Content.words [105, 108]).toProperty Atom.atomType⟩] }
      events := [.selectionNotify ⟨0, ⟨1⟩, ⟨100⟩, ⟨102⟩, ⟨102⟩⟩] },
    .operate .dispatch, .operate (.ask .clipboard .imagePng),
    .elapse {
      properties := { entries := [⟨⟨1⟩, ⟨100⟩, (Content.words [3]).toProperty ⟨103⟩⟩] }
      events := [.selectionNotify ⟨0, ⟨1⟩, ⟨100⟩, ⟨108⟩, ⟨100⟩⟩] },
    .operate .dispatch]

def sendingPicture : List (Move Memory.Display) :=
  announcingPicture ++ [[1, 2], [3], []].flatMap fun chunk =>
    [.elapse {
      properties := { entries := [⟨⟨1⟩, ⟨100⟩, (Content.bytes chunk).toProperty ⟨108⟩⟩] }
      events := [.propertyStored ⟨1⟩ ⟨100⟩] },
    .operate .dispatch]

open History in
theorem transfers_kept_apart_sendingPicture : ∃ course, start ({} : Memory.Display) = some course ∧
    (course.after sendingPicture).history.faultless = true ∧
    (∀ moment ∈ (course.after sendingPicture).history, moment.interrupts = false) ∧
    (course.after sendingPicture).history.messages.getLast? =
      some (.data .clipboard .imagePng [1, 2, 3]) ∧
    Intact (course.after sendingPicture).relay (course.after sendingPicture).history ∧
    (course.after sendingPicture).history.Always fun before moment => moment.Unmixed before ∧
      (moment.event?.isSome = true → Intact moment.relay before) := by
  have hstart : start ({} : Memory.Display) =
      some ((start {}).get (by decide +kernel)) := (Option.some_get _).symm
  have hfaultless : (((start ({} : Memory.Display)).get (by decide +kernel)).after
      sendingPicture).history.faultless = true := by decide +kernel
  have huninterrupted : ∀ moment ∈ (((start ({} : Memory.Display)).get (by decide +kernel)).after
      sendingPicture).history, moment.interrupts = false := by decide +kernel
  exact ⟨_, hstart, hfaultless, huninterrupted, by decide +kernel,
    transfers_kept_apart hstart hfaultless huninterrupted⟩

/-- The application sends the whole picture in the middle of the transfer. The agent has asked for
the text in the meantime. -/
def sendingWhole : List (Move Memory.Display) :=
  announcingPicture ++ [.operate (.ask .clipboard .utf8Text),
    .elapse {
      properties := { entries := [⟨⟨1⟩, ⟨100⟩, (Content.bytes [1, 2]).toProperty ⟨108⟩⟩] }
      events := [.selectionNotify ⟨0, ⟨1⟩, ⟨100⟩, ⟨108⟩, ⟨100⟩⟩] },
    .operate .dispatch]

def announcingText : List (Move Memory.Display) :=
  sendingWhole ++ [.elapse {
      properties := { entries := [⟨⟨1⟩, ⟨100⟩, (Content.words [4]).toProperty ⟨103⟩⟩] }
      events := [.selectionNotify ⟨0, ⟨1⟩, ⟨100⟩, ⟨105⟩, ⟨100⟩⟩] },
    .operate .dispatch]

/-- What whole data in the middle of a transfer does: the transfer stays under way though its fetch
has ended, and the agent is told that there is no data for the next one because it is announced. -/
theorem transfer_outlives_fetch : ∃ course, start ({} : Memory.Display) = some course ∧
    ((course.after sendingWhole).history.faultless = true ∧
      (course.after sendingWhole).relay.reader.active = true ∧
      (course.after sendingWhole).relay.fetches = [⟨.clipboard, ⟨105⟩⟩] ∧
      ¬ Intact (course.after sendingWhole).relay (course.after sendingWhole).history) ∧
    (course.after announcingText).history.faultless = true ∧
    (course.after announcingText).relay.fetches = [] ∧
    (course.after announcingText).history.messages.drop 2 =
      [.data .clipboard .imagePng [1, 2], .noData .clipboard] := by
  have hstart : start ({} : Memory.Display) =
      some ((start {}).get (by decide +kernel)) := (Option.some_get _).symm
  refine ⟨_, hstart, ⟨by decide +kernel, by decide +kernel, by decide +kernel, fun intact => ?_⟩,
    by decide +kernel, by decide +kernel, by decide +kernel⟩
  obtain ⟨fetch, hhead, before, announcement, since, hsplit, hannounces, -, -, hfront, -⟩ :=
    intact (by decide +kernel)
  have hpicture : ∀ moment ∈ (((start ({} : Memory.Display)).get (by decide +kernel)).after
      sendingWhole).history, moment.announces = true →
        moment.relay.fetches.head? = some ⟨.clipboard, ⟨108⟩⟩ := by decide +kernel
  have htext : (((start ({} : Memory.Display)).get (by decide +kernel)).after
      sendingWhole).relay.fetches.head? = some ⟨.clipboard, ⟨105⟩⟩ := by decide +kernel
  have hmem : announcement ∈ (((start ({} : Memory.Display)).get (by decide +kernel)).after
      sendingWhole).history := by
    rw [hsplit]
    exact List.mem_append_right _ List.mem_cons_self
  rw [hpicture announcement hmem hannounces, ← hhead, htext] at hfront
  cases hfront

end Course

end ClipboardRelay
