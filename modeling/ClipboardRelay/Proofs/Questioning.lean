import ClipboardRelay.Proofs.Advertising
import ClipboardRelay.Proofs.FetchQueue
import ClipboardRelay.Proofs.OwnerReports
import ClipboardRelay.Proofs.Releasing
/-!
What becomes of a question of the agent for the data of a desktop owner. Main statement: it is
queued exactly if the application that holds the selection offers that kind of content, and for the
target that the relay prefers of those that were read from the owner's report. Every other question
is declined at once, and nothing else is done.
-/

namespace ClipboardRelay

def Deed.isGrab : Deed → Bool
  | sent (.grab ..) => true
  | _ => false

namespace History

variable {history added : History} {selection : Selection} {offered : List Atom}

theorem grabs_of_not_grab (h : ∀ moment ∈ added, moment.deed.isGrab = false)
    (selection : Selection) : added.grabs selection = [] := by
  refine List.filterMap_eq_nil_iff.mpr fun moment hmoment => ?_
  have hother := h moment hmoment
  split
  case h_1 hdeed =>
    rw [hdeed] at hother
    cases hother
  case h_2 => rfl

/-- Whether the relay read these atoms from a report of targets, right before it told the agent of
the latest desktop owner of a selection. -/
def Reported (history : History) (selection : Selection) (offered : List Atom) : Prop :=
  ∃ before relay property noted types rest,
    history = before ++ ⟨relay, .called (.getProperty relay.window relay.vocabulary.targets true)
      (some property)⟩ :: noted ++ ⟨relay, .sent (.grab selection types)⟩ :: rest ∧
    (∀ moment ∈ noted, ∃ notice, moment.deed = .noted notice) ∧
    property.words?.map (·.map Atom.mk) = some offered ∧ History.grabs selection rest = []

theorem Reported.extend (h : history.Reported selection offered)
    (hadded : added.grabs selection = []) :
    History.Reported (history ++ added) selection offered := by
  obtain ⟨before, relay, property, noted, types, rest, rfl, hnoted, hwords, hrest⟩ := h
  refine ⟨before, relay, property, noted, types, rest ++ added, ?_, hnoted, hwords, ?_⟩
  · simp
  · rw [grabs_append, hrest, hadded, List.append_nil]

def Backs (history : History) (registry : Registry) (selection : Selection) (holder : Holder) :
    Prop :=
  ∀ offers, holder = .desktop offers → ∃ offered, history.Reported selection offered ∧
    offers = (registry.negotiate offered).map fun (type, target) => ⟨type, target⟩

variable {registry : Registry} {holder : Holder}

theorem Backs.extend (h : history.Backs registry selection holder)
    (hadded : added.grabs selection = []) :
    History.Backs (history ++ added) registry selection holder := by
  intro offers hoffers
  obtain ⟨offered, hreported, htaken⟩ := h offers hoffers
  exact ⟨offered, hreported.extend hadded, htaken⟩

theorem backs_of_ne (h : holder.owner ≠ .desktop) : history.Backs registry selection holder := by
  rintro offers rfl
  exact absurd rfl h

theorem backs_nobody : history.Backs registry selection .nobody :=
  backs_of_ne Owner.noConfusion

theorem backs_agent (types : List ContentType) : history.Backs registry selection (.agent types) :=
  backs_of_ne Owner.noConfusion

end History

/-- A stage at which every application that holds a selection, or is about to, offers what was taken
from its report. -/
structure Sourced (stage : Stage) : Prop where
  wellFormed : stage.WellFormed
  held : ∀ selection, stage.history.Backs stage.relay.registry selection
    (stage.relay.slots.holder selection)
  owed : ∀ selection holder, stage.duty.owed = some (selection, holder) →
    stage.history.Backs stage.relay.registry selection holder

namespace Sourced

variable {stage next : Stage}

theorem extend (h : Sourced stage) (hnext : next.WellFormed)
    (hregistry : next.relay.registry = stage.relay.registry)
    (hslots : ∀ selection,
      next.relay.slots.holder selection = stage.relay.slots.holder selection)
    (howed : next.duty.owed = stage.duty.owed ∨ next.duty.owed = none) {relay : Relay}
    {deeds : List Deed} (hhistory : next.history = stage.history ++ deeds.map (Moment.mk relay))
    (hdeeds : ∀ deed ∈ deeds, deed.isGrab = false) : Sourced next := by
  have hgrabs : ∀ selection, History.grabs selection (deeds.map (Moment.mk relay)) = [] :=
    History.grabs_of_not_grab (List.forall_mem_map.mpr hdeeds)
  refine ⟨hnext, fun selection => ?_, fun selection holder hholder => ?_⟩
  · rw [hhistory, hregistry, hslots]
    exact (h.held selection).extend (hgrabs selection)
  · rcases howed with hsame | hnone
    · rw [hhistory, hregistry]
      exact (h.owed selection holder (hsame ▸ hholder)).extend (hgrabs selection)
    · rw [hnone] at hholder
      cases hholder

theorem silently (h : Sourced stage) (hnext : next.WellFormed)
    (hregistry : next.relay.registry = stage.relay.registry)
    (hslots : ∀ selection,
      next.relay.slots.holder selection = stage.relay.slots.holder selection)
    (howed : next.duty.owed = stage.duty.owed) (hhistory : next.history = stage.history) :
    Sourced next := by
  have hnothing : next.history = stage.history ++ [].map (Moment.mk stage.relay) := by
    simpa using hhistory
  exact h.extend hnext hregistry hslots (.inl howed) hnothing (by simp)

theorem settled (h : Sourced stage) (hnext : next.WellFormed) {selection : Selection}
    {holder : Holder} (hregistry : next.relay.registry = stage.relay.registry)
    (hslots : next.relay.slots = stage.relay.slots.setHolder selection holder)
    (howed : next.duty.owed = none) {added : History}
    (hhistory : next.history = stage.history ++ added)
    (hadded : ∀ moment ∈ added, moment.deed.isGrab = false)
    (hholder : stage.history.Backs stage.relay.registry selection holder) : Sourced next := by
  refine ⟨hnext, fun other => ?_, fun other owed hother => ?_⟩
  · rw [hhistory, hregistry, hslots, Slots.holder_setHolder]
    split
    case isTrue same => exact same ▸ hholder.extend (History.grabs_of_not_grab hadded selection)
    case isFalse => exact (h.held other).extend (History.grabs_of_not_grab hadded other)
  · rw [howed] at hother
    cases hother

theorem claimed (h : Sourced stage) (hnext : next.WellFormed) {selection : Selection}
    {property : Property} {words : List UInt32} {notices : List Notice}
    {types : List ContentType} (vacant : stage.relay.slots.owner selection ≠ .desktop)
    (hregistry : next.relay.registry = stage.relay.registry)
    (hslots : ∀ selection,
      next.relay.slots.holder selection = stage.relay.slots.holder selection)
    (hwords : property.words? = some words)
    (howed : next.duty.owed = some (selection, .desktop
      ((stage.relay.registry.negotiate (words.map Atom.mk)).map
        fun (type, target) => ⟨type, target⟩)))
    (hhistory : next.history = stage.history ++ (Deed.called (.getProperty next.relay.window
      next.relay.vocabulary.targets true) (some property) :: notices.map Deed.noted ++
        [Deed.sent (.grab selection types)]).map (Moment.mk next.relay)) : Sourced next := by
  refine ⟨hnext, fun other => ?_, fun other holder hother => ?_⟩
  · rw [hhistory, hregistry, hslots]
    by_cases hsame : selection = other
    · subst hsame
      exact History.backs_of_ne vacant
    · refine (h.held other).extend ?_
      have hread : History.grabs other ((Deed.called (.getProperty next.relay.window
          next.relay.vocabulary.targets true) (some property) :: notices.map .noted).map
            (Moment.mk next.relay)) = [] :=
        History.grabs_of_not_grab (by simp [Deed.isGrab]) other
      rw [List.map_append, History.grabs_append, hread]
      exact (History.grabs_sent next.relay selection other types).trans (if_neg (Ne.symm hsame))
  · rw [howed] at hother
    cases hother
    rintro _ ⟨rfl⟩
    refine ⟨words.map Atom.mk, ?_, by rw [hregistry]⟩
    refine ⟨stage.history, next.relay, property,
      notices.map fun notice => ⟨next.relay, .noted notice⟩, types, [], ?_, by simp,
      by rw [hwords, Option.map_some], rfl⟩
    rw [hhistory]
    simp

end Sourced

theorem Step.sourced {stage next : Stage} (step : Step stage next) (h : Sourced stage) :
    Sourced next := by
  have hnext : next.WellFormed := h.wellFormed.step step
  cases step with
  | plain deed plain =>
    refine h.extend hnext rfl (fun _ => rfl) (.inl rfl) rfl fun other hother => ?_
    rw [List.mem_singleton] at hother
    subst hother
    cases other with
    | sent message => cases plain
    | _ => rfl
  | dropRequests | dropFetches =>
    revert hnext
    dsimp only
    split <;> exact fun hnext => h.extend hnext rfl (fun _ => rfl) (.inl rfl) rfl
      (by simp [Deed.isGrab, Wire.Message.noData])
  | finishFetch data fetch rest front started =>
    refine h.extend hnext rfl (fun _ => rfl) (.inl rfl) rfl fun deed hdeed => ?_
    rcases List.mem_append.mp hdeed with hnoted | hsent
    · split at hnoted
      · rw [List.mem_singleton.mp hnoted]
        rfl
      · cases hnoted
    · rw [List.mem_singleton.mp hsent]
      unfold Relay.answer
      split
      · split <;> rfl
      · rfl
  | promise operation selection types taken idle =>
    refine ⟨hnext, fun other => ?_, ?_⟩
    · exact (h.held other).extend (History.grabs_of_not_grab (by simp [Deed.isGrab]) other)
    · rintro _ _ ⟨rfl⟩
      exact History.backs_agent types
  | surrender selection clear idle =>
    refine h.settled hnext rfl rfl (congrArg Duty.owed idle) rfl ?_ History.backs_nobody
    split <;> simp [Deed.isGrab]
  | install selection holder clear owed =>
    refine h.settled hnext rfl rfl rfl (List.append_nil _).symm (by simp) ?_
    exact h.owed selection holder (by rw [owed])
  | await atom selection named vacant idle =>
    exact h.extend hnext rfl (fun other => Slots.holder_await _ _ other) (.inl rfl) rfl
      (by simp [Deed.isGrab])
  | countOff selection =>
    exact h.silently hnext rfl (fun other => Slots.holder_arrive _ _ other) rfl rfl
  | claim selection property words notices idle current free content known plain =>
    have vacant : stage.relay.slots.owner selection ≠ .desktop :=
      h.wellFormed.relay.asked selection (by simp [(Slots.awaited_of_current current).1])
    exact h.claimed hnext vacant rfl (fun other => Slots.holder_arrive _ _ other) content rfl rfl
  | rest | skipStart | forget | read =>
    exact h.silently hnext rfl (fun _ => rfl) rfl rfl
  | queueFetch | arrive | turnAway | store | ask | settle | announce | chunk | report | lastChunk
  | startFetch | decline =>
    exact h.extend hnext rfl (fun _ => rfl) (.inl rfl) rfl
      (by simp [Deed.isGrab, Wire.Message.noData])

theorem Break.sourced {stage next : Stage} (broke : Break stage next) (h : Sourced stage) :
    Sourced next := by
  have hnext : next.WellFormed := h.wellFormed.broken broke
  cases broke <;>
    exact h.extend hnext rfl (fun _ => rfl) (.inr rfl) rfl
      (by simp [Deed.isGrab, or_imp, forall_and])

namespace Relay

variable {δ : Type} [Display δ] {session handled : Session δ} {flushed polled : δ} {fuel : Nat}

theorem history_drain_none (hflush : Display.perform .flush session.display = (.ok (), flushed))
    (hpoll : Display.perform .pollEvent flushed = (.ok none, polled)) :
    (drain (fuel + 1)).history session =
      [⟨session.relay, .called .flush ()⟩, ⟨session.relay, .called .pollEvent none⟩] := by
  rw [drain, history_call_bind hflush, history_call_bind hpoll]
  rfl

theorem history_drain_some {event : Event}
    (hflush : Display.perform .flush session.display = (.ok (), flushed))
    (hpoll : Display.perform .pollEvent flushed = (.ok (some event), polled))
    (hhandle : (handle event).run { session with display := polled } = (.ok (), handled)) :
    (drain (fuel + 1)).history session =
      [⟨session.relay, .called .flush ()⟩, ⟨session.relay, .called .pollEvent (some event)⟩] ++
        ((handle event).history { session with display := polled } ++
          (drain fuel).history handled) := by
  rw [drain, history_call_bind hflush, history_call_bind hpoll]
  dsimp only
  rw [Action.history_bind, hhandle]
  rfl

end Relay

namespace EventQueue

variable {δ : Type} [Display δ] {queue : EventQueue δ} {session after : Session δ}

/-- Whether nothing arrives during some of the calls. -/
def SilentOn (queue : EventQueue δ) (silent : Call → Bool) : Prop :=
  ∀ {asked : Call} {answer : asked.Answer} {display after : δ}, silent asked = true →
    Display.perform asked display = (.ok answer, after) →
      queue.waiting display = (asked.event? answer).toList ++ queue.waiting after

theorem SilentOn.dispatch_idle {silent : Call → Bool} (hsilent : queue.SilentOn silent)
    (hflush : silent .flush = true) (hpoll : silent .pollEvent = true)
    (hnone : queue.waiting session.display = [])
    (h : (Relay.dispatch).run session = (.ok (), after)) :
    after.relay = session.relay ∧ Relay.dispatch.history session =
      [⟨session.relay, .called .flush ()⟩, ⟨session.relay, .called .pollEvent none⟩] := by
  have hrun : (Relay.drain (Display.backlog session.display + 1)).run session =
      (.ok (), after) := h
  have hhistory : Relay.dispatch.history session =
      (Relay.drain (Display.backlog session.display + 1)).history session := rfl
  obtain ⟨_, flushed, hflushing, hrest⟩ := Action.exists_of_run_bind hrun
  obtain ⟨between, hflushed, rfl⟩ := Relay.exists_of_run_call hflushing
  obtain ⟨event, polled, hpolling, hrest⟩ := Action.exists_of_run_bind hrest
  obtain ⟨shorter, hpolled, rfl⟩ := Relay.exists_of_run_call hpolling
  have hwaiting : queue.waiting session.display = event.toList ++ queue.waiting shorter :=
    (hsilent hflush hflushed).trans (hsilent hpoll hpolled)
  rw [hnone] at hwaiting
  obtain rfl : event = none := by
    cases event with
    | none => rfl
    | some event => cases hwaiting
  cases hrest
  refine ⟨rfl, ?_⟩
  exact hhistory.trans (Relay.history_drain_none hflushed hpolled)

end EventQueue

def Call.isAsking : Call → Bool
  | flush | pollEvent | convertSelection .. => true
  | _ => false

namespace Relay

open ClipboardRelay.Action (Spares Yields)

variable {δ : Type} [Display δ] {relay : Relay} {history : History} {selection : Selection}
  {type : ContentType} {fetch : Fetch}

/-- The relay with a fetch at the end of its queue. If it is the only one, its owner is asked, and
no reply to an earlier question is waited for any more. -/
def queueing (relay : Relay) (fetch : Fetch) : Relay :=
  (relay.withFetches (relay.fetches ++ [fetch])).withAbandoned
    (if relay.fetches = [] then relay.abandoned.filter (·.selection ≠ fetch.selection)
      else relay.abandoned)

omit [Display δ] in
theorem queueFetch_yields (named : (relay.vocabulary.atom? fetch.selection).isSome = true) :
    (queueFetch fetch : Action δ Unit).Yields
      (fun _ after later => after = relay.queueing fetch ∧ later.messages = history.messages)
      relay history := by
  refine queueFetch_ensures_of fetch (fun empty => ?_) fun waiting => ?_
  · refine startFetch_ensures_of (fun unnamed => ?_) fun front rest atom hfront hatom => ?_
    · have hnone : relay.vocabulary.atom? fetch.selection = none := unnamed fetch (by rfl)
      rw [hnone] at named
      cases named
    · cases hfront
      refine ⟨⟨?_, by simp [History.messages]⟩, fun _ => trivial⟩
      simp only [queueing, asking, empty, if_true, List.nil_append]
      rfl
  · refine ⟨?_, rfl⟩
    simp only [queueing, waiting, if_false]
    rfl

theorem WellFormed.fetch?_isSome_iff (h : relay.WellFormed) (selection : Selection)
    (type : ContentType) :
    (relay.fetch? selection type).isSome = true ↔
      relay.slots.owner selection = .desktop ∧ type ∈ relay.slots.types selection := by
  have hnamed : relay.slots.owner selection = .desktop →
      (relay.vocabulary.atom? selection).isSome = true := by
    intro howner
    cases selection with
    | clipboard | primary => rfl
    | secondary =>
      rw [Slots.owner, Slots.holder, Slots.get, h.secondary] at howner
      cases howner
  cases hholder : relay.slots.holder selection with
  | nobody | agent types => simp [fetch?, Slots.owner, hholder, Holder.targetFor?, Holder.owner]
  | desktop offers =>
    have howner : relay.slots.owner selection = .desktop := by
      rw [Slots.owner, hholder]
      rfl
    simp [fetch?, hnamed howner, howner, Slots.types, hholder, Holder.targetFor?, Holder.types]

omit [Display δ] in
theorem exists_of_backed (h : history.Backs relay.registry selection
    (relay.slots.holder selection)) (hfetch : relay.fetch? selection type = some fetch) :
    fetch.selection = selection ∧ ∃ offered, history.Reported selection offered ∧
      ∃ format ∈ relay.registry.formats, format.type = type ∧
        format.targets.find? offered.contains = some fetch.target := by
  obtain ⟨-, target, htarget, rfl⟩ := exists_of_fetch? hfetch
  obtain ⟨offers, hholder, -⟩ := Holder.mem_of_targetFor? htarget
  obtain ⟨offered, hreported, rfl⟩ := h offers hholder
  rw [hholder] at htarget
  obtain ⟨offer, hfind, rfl⟩ := Option.map_eq_some_iff.mp htarget
  have htype : offer.type = type := by simpa using List.find?_some hfind
  obtain ⟨⟨taken, _⟩, htaken, rfl⟩ := List.mem_map.mp (List.mem_of_find?_eq_some hfind)
  obtain rfl : taken = type := htype
  exact ⟨rfl, offered, hreported, Registry.mem_negotiate.mp htaken⟩

def declined (session : Session δ) (selection : Selection) (what : Remark) : Session δ :=
  { session with
    outbox := session.outbox ++ [.noData selection]
    notices := session.notices ++ [.about selection what] }

theorem ask_of_declined {session : Session δ}
    (hnone : session.relay.fetch? selection type = none) : ∃ what,
      (ask selection type).run session = dispatch.run (declined session selection what) ∧
      (ask selection type).history session =
        ⟨session.relay, .noted (.about selection what)⟩ ::
          ⟨session.relay, .sent (.noData selection)⟩ ::
            dispatch.history (declined session selection what) := by
  unfold ask
  rw [run_current_bind, history_current_bind]
  split
  case isTrue => exact ⟨_, rfl, rfl⟩
  case isFalse bridged =>
    split
    case isTrue => exact ⟨_, rfl, rfl⟩
    case isFalse =>
      split
      case h_1 => exact ⟨_, rfl, rfl⟩
      case h_2 target available =>
        rw [Option.isNone_iff_eq_none, ← ne_eq, Option.ne_none_iff_isSome] at bridged
        simp [fetch?, bridged, available] at hnone

theorem ask_of_accepted {session : Session δ}
    (hfetch : session.relay.fetch? selection type = some fetch) :
    (ask selection type).run session = (queueFetch fetch >>= fun _ => dispatch).run session ∧
      (ask selection type).history session =
        (queueFetch fetch >>= fun _ => dispatch).history session := by
  obtain ⟨-, target, htarget, rfl⟩ := exists_of_fetch? hfetch
  have owned : session.relay.slots.owner selection = .desktop := by
    obtain ⟨offers, hholder, -⟩ := Holder.mem_of_targetFor? htarget
    rw [Slots.owner, hholder]
    rfl
  have named : ¬ (session.relay.vocabulary.atom? selection).isNone = true := by
    intro hnone
    simp [fetch?, Option.isNone_iff_eq_none.mp hnone] at hfetch
  unfold ask
  rw [run_current_bind, history_current_bind, if_neg named, if_neg (by simp [owned]), htarget]
  exact ⟨rfl, rfl⟩

end Relay

theorem EventQueue.Calm.silentOn_asking {δ : Type} [Display δ] {queue : EventQueue δ}
    (calm : queue.Calm) : queue.SilentOn Call.isAsking := by
  intro asked answer display after hasking hcalled
  cases asked with
  | flush | convertSelection => exact calm (.inr rfl) hcalled
  | pollEvent => exact calm (.inl rfl) hcalled
  | _ => cases hasking

namespace EventQueue.SilentOn

open Relay

variable {δ : Type} [Display δ] {queue : EventQueue δ} {session after : Session δ}
  {selection : Selection} {type : ContentType}

theorem ask_declined (hsilent : queue.SilentOn Call.isAsking)
    (hidle : queue.waiting session.display = [])
    (hnone : session.relay.fetch? selection type = none)
    (h : (ask selection type).run session = (.ok (), after)) :
    after.relay = session.relay ∧
      ((ask selection type).history session).messages = [.noData selection] ∧
      ∀ moment ∈ (ask selection type).history session, ∀ asked answer,
        moment.deed = .called asked answer → asked = .flush ∨ asked = .pollEvent := by
  obtain ⟨what, hrun, hhistory⟩ := ask_of_declined hnone
  rw [hrun] at h
  have hwaiting : queue.waiting (declined session selection what).display = [] := hidle
  obtain ⟨hrelay, hdispatched⟩ := hsilent.dispatch_idle rfl rfl hwaiting h
  rw [hhistory, hdispatched]
  refine ⟨hrelay, rfl, fun moment hmoment asked answer hdeed => ?_⟩
  simp only [List.mem_cons, List.not_mem_nil, or_false] at hmoment
  rcases hmoment with rfl | rfl | rfl | rfl <;> cases hdeed <;> simp

theorem ask_accepted (hsilent : queue.SilentOn Call.isAsking)
    (hidle : queue.waiting session.display = []) {fetch : Fetch}
    (hfetch : session.relay.fetch? selection type = some fetch)
    (h : (ask selection type).run session = (.ok (), after)) :
    after.relay = session.relay.queueing fetch ∧
      ((ask selection type).history session).messages = [] := by
  obtain ⟨hrun, hhistory⟩ := ask_of_accepted hfetch
  rw [hrun] at h
  obtain ⟨_, queued, hqueue, h⟩ := Action.exists_of_run_bind h
  have named : (session.relay.vocabulary.atom? fetch.selection).isSome = true := by
    obtain ⟨-, target, -, rfl⟩ := exists_of_fetch? hfetch
    by_contra hnone
    simp [fetch?, hnone] at hfetch
  have hqueued : (queueFetch fetch : Action δ Unit).Yields (fun _ after later =>
      after = session.relay.queueing fetch ∧ later.messages = History.messages [])
        session.relay [] :=
    queueFetch_yields named
  have hended := hqueued.run session
  rw [hqueue] at hended
  have hwaiting : queue.waiting queued.display = queue.waiting session.display := by
    apply (queueFetch_spares fetch).display_run
      (fun before after => queue.waiting after = queue.waiting before) (fun _ => rfl) _ _ hqueue
    · exact fun hfirst hrest => hrest.trans hfirst
    · intro asked answer display after hadvancing hcalled
      cases asked with
      | convertSelection => exact (hsilent rfl hcalled).symm
      | _ => cases hadvancing
  obtain ⟨hrelay, hdispatched⟩ := hsilent.dispatch_idle rfl rfl (hwaiting.trans hidle) h
  have hsaid : ((queueFetch fetch).history session).messages = [] := hended.2
  refine ⟨hrelay.trans hended.1, ?_⟩
  rw [hhistory, Action.history_bind, hqueue]
  dsimp only
  rw [History.messages_append, hsaid, hdispatched]
  rfl

end EventQueue.SilentOn

namespace Course

open Relay

variable {δ : Type} [Display δ]

theorem sourced_after {display : δ} {course : Course δ} (hstart : start display = some course)
    (moves : List (Move δ)) :
    Sourced ⟨(course.after moves).relay, {}, (course.after moves).history⟩ := by
  refine holds_after_prepared Sourced (fun relay after hprepare => ?_)
    (fun _ _ step => step.sourced) (fun _ _ broke => broke.sourced) hstart moves
  have hregistry : relay.registry.Proper := Registry.proper_of_prepare hprepare
  refine ⟨.idle (.fresh relay) hregistry rfl, fun selection => ?_, nofun⟩
  cases selection <;> exact History.backs_nobody

/-- In every state in which nothing waits to be handled, a question of the agent is queued exactly
if the desktop holds the selection and offers that kind of content: then for the target that the
table prefers of those that were read from the owner's report, and the agent is told nothing yet. If
not, the agent is told that there is no data, and nothing else is done. Nothing can ever be asked of
the secondary selection, and nothing is ever offered that says nothing. -/
theorem answerable_questions_queued {display : δ} {course : Course δ}
    (hstart : start display = some course) (moves : List (Move δ)) {queue : EventQueue δ}
    (hsilent : queue.SilentOn Call.isAsking)
    (hidle : queue.waiting (course.after moves).session.display = []) (selection : Selection)
    (type : ContentType) (hfaultless : History.faultless
      ((ask selection type).history (course.after moves).session) = true) :
    (∃ after, (ask selection type).run (course.after moves).session = (.ok (), after) ∧
      ((course.after moves).relay.slots.owner selection = .desktop ∧
          type ∈ (course.after moves).relay.slots.types selection →
        after.outbox = (course.after moves).session.outbox ∧
        ∃ offered, (course.after moves).history.Reported selection offered ∧
          ∃ format ∈ (course.after moves).relay.registry.formats, format.type = type ∧
            ∃ target, format.targets.find? offered.contains = some target ∧
              after.relay = (course.after moves).relay.queueing ⟨selection, target⟩) ∧
      (¬ ((course.after moves).relay.slots.owner selection = .desktop ∧
          type ∈ (course.after moves).relay.slots.types selection) →
        after.outbox = (course.after moves).session.outbox ++ [.noData selection] ∧
        after.relay = (course.after moves).relay ∧
        ∀ moment ∈ (ask selection type).history (course.after moves).session, ∀ asked answer,
          moment.deed = .called asked answer → asked = .flush ∨ asked = .pollEvent)) ∧
    (course.after moves).relay.slots.owner .secondary ≠ .desktop ∧
    .none ∉ (course.after moves).relay.slots.types selection := by
  have hsourced : Sourced ⟨(course.after moves).relay, {}, (course.after moves).history⟩ :=
    sourced_after hstart moves
  have hwellFormed : (course.after moves).relay.WellFormed := hsourced.wellFormed.relay
  have hanswerable := hwellFormed.fetch?_isSome_iff selection type
  obtain ⟨_, hok⟩ := (Action.faultless_history _ _).mp hfaultless
  have hrun := Action.run_of_ok hok
  have houtbox := (ask selection type).outbox_run (course.after moves).session
  refine ⟨⟨_, hrun, fun hoffered => ?_, fun hunoffered => ?_⟩, ?_, ?_⟩
  · obtain ⟨fetch, hfetch⟩ := Option.isSome_iff_exists.mp (hanswerable.mpr hoffered)
    obtain ⟨hrelay, hmessages⟩ := hsilent.ask_accepted hidle hfetch hrun
    obtain ⟨hselection, offered, hreported, format, hformat, htype, hpreferred⟩ :=
      exists_of_backed (hsourced.held selection) hfetch
    obtain ⟨_, target⟩ := fetch
    obtain rfl := hselection
    refine ⟨?_, offered, hreported, format, hformat, htype, target, hpreferred, hrelay⟩
    rw [houtbox, hmessages, List.append_nil]
  · have hnone : (course.after moves).relay.fetch? selection type = none :=
      Option.not_isSome_iff_eq_none.mp fun hsome => hunoffered (hanswerable.mp hsome)
    obtain ⟨hrelay, hmessages, hcalls⟩ := hsilent.ask_declined hidle hnone hrun
    exact ⟨by rw [houtbox, hmessages], hrelay, hcalls⟩
  · rw [Slots.owner, Slots.holder, Slots.get, hwellFormed.secondary]
    decide
  · exact (hwellFormed.held selection).meaningful

def offeringBoth : List (Move Memory.Display) :=
  [.elapse { events := [.ownerChanged ⟨100⟩ ⟨7⟩] }, .operate .dispatch,
    .elapse {
      properties := { entries :=
        [⟨⟨1⟩, ⟨102⟩, (Content.words [107, 108, 105]).toProperty Atom.atomType⟩] }
      events := [.selectionNotify ⟨0, ⟨1⟩, ⟨100⟩, ⟨102⟩, ⟨102⟩⟩] },
    .operate .dispatch]

/-- The agent asks for the text, and for a kind of picture that is not offered. -/
theorem answerable_questions_queued_offeringBoth : ∃ course, start {} = some course ∧
    (∃ after, (ask .clipboard .utf8Text).run (course.after offeringBoth).session =
        (.ok (), after) ∧
      ∃ offered, (course.after offeringBoth).history.Reported .clipboard offered ∧
        ∃ format ∈ (course.after offeringBoth).relay.registry.formats, format.type = .utf8Text ∧
          ∃ target, format.targets.find? offered.contains = some target ∧
            after.relay = (course.after offeringBoth).relay.queueing ⟨.clipboard, target⟩) ∧
    ∃ after, (ask .clipboard .imageBmp).run (course.after offeringBoth).session = (.ok (), after) ∧
      after.relay = (course.after offeringBoth).relay := by
  have hstart : start ({} : Memory.Display) =
      some ((start {}).get (by decide +kernel)) := (Option.some_get _).symm
  have hidle : Memory.Display.queue.waiting ((((start ({} : Memory.Display)).get
      (by decide +kernel)).after offeringBoth).session.display) = [] := by decide +kernel
  obtain ⟨after, hrun, htext, -⟩ := (answerable_questions_queued hstart offeringBoth
    Memory.Display.queue_calm.silentOn_asking hidle .clipboard .utf8Text (by decide +kernel)).1
  obtain ⟨other, hother, -, hpicture⟩ := (answerable_questions_queued hstart offeringBoth
    Memory.Display.queue_calm.silentOn_asking hidle .clipboard .imageBmp (by decide +kernel)).1
  exact ⟨_, hstart, ⟨after, hrun, (htext (by decide +kernel)).2⟩, other, hother,
    (hpicture (by decide +kernel)).2.1⟩

end Course

end ClipboardRelay
