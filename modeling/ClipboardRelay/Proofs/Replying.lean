import ClipboardRelay.Proofs.Assembly
import ClipboardRelay.Proofs.Booking
import ClipboardRelay.Proofs.Telling
/-!
What becomes of an owner's reply to the question at the head of the queue. Main statement: data
that is where it was asked for, of the target that was asked for, reaches the agent as the kind of
content that the agent asked for, and a reply that announces chunks leaves everything open. Every
other reply is taken for word that there is no data.
-/

namespace ClipboardRelay

structure Property.Carries (property : Property) (target : Atom) : Prop where
  type : property.type = target
  format : property.format = 8
  some : property.value ≠ []

theorem Action.perform_of_history_cons {δ α : Type} [Display δ] {action : Action δ α}
    {session : Session δ} {relay : Relay} {asked : Call} {answer : asked.Answer} {rest : History}
    (h : action.history session = ⟨relay, .called asked answer⟩ :: rest) :
    ∃ after, Display.perform asked session.display = (.ok answer, after) := by
  induction action generalizing session with
  | done value => cases h
  | step effect next ih =>
    cases effect with
    | current => exact ih session.relay h
    | display => exact ih session.display h
    | update change =>
      have hnext : (next ()).history { session with relay := change session.relay } =
          ⟨relay, .called asked answer⟩ :: rest := h
      obtain ⟨after, hafter⟩ := ih () hnext
      exact ⟨after, hafter⟩
    | call first =>
      rcases hperform : Display.perform first session.display with ⟨fault | given, after⟩
      · simp [history, Effect.moments, Effect.perform, hperform] at h
      · simp only [history, Effect.moments, hperform, List.singleton_append, List.cons.injEq,
          Moment.mk.injEq] at h
        obtain ⟨⟨-, hsame⟩, -⟩ := h
        cases hsame
        exact ⟨after, hperform⟩
    | send messages =>
      cases messages with
      | nil =>
        have hnext : (next ()).history { session with outbox := session.outbox ++ [] } =
            ⟨relay, .called asked answer⟩ :: rest := h
        obtain ⟨after, hafter⟩ := ih () hnext
        exact ⟨after, hafter⟩
      | cons message messages => simp [history, Effect.moments] at h
    | note notices =>
      cases notices with
      | nil =>
        have hnext : (next ()).history { session with notices := session.notices ++ [] } =
            ⟨relay, .called asked answer⟩ :: rest := h
        obtain ⟨after, hafter⟩ := ih () hnext
        exact ⟨after, hafter⟩
      | cons notice notices => simp [history, Effect.moments] at h

namespace Relay

open ClipboardRelay.Action (Yields)

variable {δ : Type} {relay : Relay} {history : History} {fetch : Fetch} {rest : List Fetch}
  {notify : SelectionNotify}

def inquiry? (relay : Relay) : Option Call :=
  relay.fetches.head?.bind fun fetch =>
    (relay.vocabulary.atom? fetch.selection).map fun atom =>
      .convertSelection atom fetch.target atom

structure Silently (calls : List Call) (history later : History) : Prop where
  grows : history <+: later
  messages : later.messages = history.messages
  calls : later.calls = history.calls ++ calls

theorem Silently.refl : Silently [] history history :=
  ⟨List.prefix_rfl, rfl, (List.append_nil _).symm⟩

theorem Silently.remarked {calls : List Call} {later : History} (h : Silently calls history later)
    (relay : Relay) (notice : Notice) :
    Silently calls history (later ++ [⟨relay, .noted notice⟩]) where
  grows := h.grows.trans (List.prefix_append _ _)
  messages := by rw [History.messages_append, h.messages]; exact List.append_nil _
  calls := by rw [History.calls_append, h.calls]; exact List.append_nil _

theorem Silently.called {calls : List Call} {later : History} (h : Silently calls history later)
    (relay : Relay) (asked : Call) (answer : asked.Answer) :
    Silently (calls ++ [asked]) history (later ++ [⟨relay, .called asked answer⟩]) where
  grows := h.grows.trans (List.prefix_append _ _)
  messages := by rw [History.messages_append, h.messages]; exact List.append_nil _
  calls := by rw [History.calls_append, h.calls, List.append_assoc]; rfl

theorem startFetch_yields {calls : List Call} {later : History}
    (h : Silently calls history later) : (startFetch : Action δ Unit).Yields (fun _ after last =>
      after.fetches = relay.fetches ∧ Silently (calls ++ relay.inquiry?.toList) history last)
      relay later := by
  refine startFetch_ensures_of (fun unnamed => ⟨rfl, ?_⟩) fun front rest atom hfront named =>
    ⟨⟨rfl, ?_⟩, fun _ => trivial⟩
  · have hnone : relay.inquiry? = none := by
      rw [inquiry?, Option.bind_eq_none_iff]
      intro fetch hfetch
      rw [unnamed fetch hfetch]
      rfl
    rw [hnone]
    exact (List.append_nil calls).symm ▸ h
  · have hsome : relay.inquiry? = some (.convertSelection atom front.target atom) := by
      simp [inquiry?, hfront, named]
    rw [hsome]
    exact (h.remarked _ _).called _ (.convertSelection atom front.target atom) ()

structure Ended (relay : Relay) (rest : List Fetch) (message : Wire.Message) (calls : List Call)
    (history : History) (after : Relay) (later : History) : Prop where
  fetches : after.fetches = rest
  grows : history <+: later
  messages : later.messages = history.messages ++ [message]
  calls : later.calls = history.calls ++ calls ++ (relay.withFetches rest).inquiry?.toList

theorem finishFetch_yields {calls : List Call} {later : History} (data : Option Bytes)
    (front : relay.fetches = fetch :: rest) (h : Silently calls history later) :
    (finishFetch data : Action δ Unit).Yields (fun _ after last =>
      Ended relay rest (relay.answer fetch data) calls history after last) relay later := by
  refine finishFetch_ensures_of data (fun empty => ?_) fun other behind hfront => ?_
  · rw [front] at empty
    cases empty
  · rw [front] at hfront
    cases hfront
    have hanswered : (later ++ relay.finishing fetch data rest).messages =
        history.messages ++ [relay.answer fetch data] := by
      rw [History.messages_append, h.messages]
      congr 1
      simp only [finishing]
      split <;> rfl
    have hcalls : (later ++ relay.finishing fetch data rest).calls = history.calls ++ calls := by
      have hnone : History.calls (relay.finishing fetch data rest) = [] := by
        simp only [finishing]
        split <;> rfl
      rw [History.calls_append, hnone, List.append_nil, h.calls]
    refine (startFetch_yields .refl).mono ?_
    rintro _ after last ⟨hfetches, started⟩
    refine ⟨hfetches, ?_, ?_, ?_⟩
    · exact (h.grows.trans (List.prefix_append _ _)).trans started.grows
    · rw [started.messages, hanswered]
    · rw [started.calls, hcalls]
      rfl

theorem checkProperty_yields {calls : List Call} {later : History}
    (h : Silently calls history later) (selection : Selection) (target : Atom)
    (property : Property) :
    (checkProperty selection target property : Action δ Bool).Yields (fun fits after last =>
      after = relay ∧ Silently calls history last ∧
        (fits = true ↔ property.type = target ∧ property.format = 8)) relay later := by
  unfold checkProperty
  split
  case isTrue htype => exact ⟨rfl, h.remarked _ _, by simp [htype]⟩
  case isFalse htype =>
    split
    case isTrue hformat => exact ⟨rfl, h.remarked _ _, by simp [hformat]⟩
    case isFalse hformat => exact ⟨rfl, h, by simp_all⟩

/-- What a reply turns out to be, if the property was found like this, and what is done to find
out. -/
def Takes (relay : Relay) (fetch : Fetch) (name : Atom) (found : Option Property) (after : Relay)
    (history later : History) : Reply → Prop
  | .data bytes => after = relay ∧ Silently [.deleteProperty relay.window name] history later ∧
      ∃ property, found = some property ∧ property.type ≠ relay.vocabulary.incr ∧
        property.Carries fetch.target ∧ property.value = bytes
  | .pending => after.fetches = relay.fetches ∧ after.reader.active = true ∧
      Silently [.watchProperties relay.window, .deleteProperty relay.window name] history later ∧
      ∃ property, found = some property ∧ property.type = relay.vocabulary.incr
  | .failed => after = relay ∧
      (∃ calls, calls <+: [.deleteProperty relay.window name] ∧ Silently calls history later) ∧
      ∀ property, found = some property →
        property.type ≠ relay.vocabulary.incr ∧ ¬ property.Carries fetch.target

theorem readReply_yields (hreply : relay.Heeds fetch notify) (hnull : notify.property ≠ Atom.null)
    (idle : relay.reader.active = false) :
    (readReply fetch notify : Action δ Reply).Yields (fun reply after later => ∃ found,
      Takes relay fetch notify.property found after (history ++
        [⟨relay, .called (.getProperty relay.window notify.property false) found⟩]) later reply)
      relay history := by
  have hfits : ¬ (notify.requestor ≠ relay.window ∨
      relay.vocabulary.atom? fetch.selection ≠ some notify.property) := by
    simp [hreply.requestor, hreply.property]
  refine .current_bind ?_
  dsimp only
  rw [if_neg hnull, if_neg hfits]
  refine ensures_call_bind (fun found => ?_) fun _ => trivial
  split
  case h_1 =>
    exact ⟨none, rfl, ⟨[], List.nil_prefix, Silently.refl.remarked _ _⟩, nofun⟩
  case h_2 property =>
    split
    case isTrue announced =>
      rw [if_neg (by simp [idle]), Action.ensures_bind, ensures_remark, Action.ensures_bind,
        ensures_update]
      refine ensures_call_bind (fun watched => ensures_call_bind (fun deleted => ?_)
        fun _ => trivial) fun _ => trivial
      refine ⟨some property, rfl, rfl, ?_, property, rfl, announced⟩
      exact ((Silently.refl.remarked _ _).called _ _ watched).called _ _ deleted
    case isFalse whole =>
      refine ensures_call_bind (fun deleted => ?_) fun _ => trivial
      refine Yields.bind (checkProperty_yields (Silently.refl.called _ _ deleted) fetch.selection
        fetch.target property) ?_
      rintro fits relay later ⟨rfl, silently, hfits⟩
      split
      case isTrue fit =>
        obtain ⟨htype, hformat⟩ := hfits.mp fit
        split
        case isTrue hempty =>
          refine ⟨some property, rfl, ⟨_, List.prefix_rfl, silently.remarked _ _⟩, ?_⟩
          rintro _ ⟨rfl⟩
          exact ⟨whole, fun hcarries => hcarries.some (List.isEmpty_iff.mp hempty)⟩
        case isFalse hsome =>
          refine ⟨some property, rfl, silently, property, rfl, whole, ⟨htype, hformat, ?_⟩, rfl⟩
          exact fun hempty => hsome (List.isEmpty_iff.mpr hempty)
      case isFalse unfit =>
        refine ⟨some property, rfl, ⟨_, List.prefix_rfl, silently⟩, ?_⟩
        rintro _ ⟨rfl⟩
        exact ⟨whole, fun hcarries => unfit (hfits.mpr ⟨hcarries.type, hcarries.format⟩)⟩

structure Received (relay : Relay) (fetch : Fetch) (rest : List Fetch) (name : Atom)
    (found : Option Property) (history : History) (after : Relay) (later : History) : Prop where
  grows : history <+: later
  announced : ∀ property, found = some property → property.type = relay.vocabulary.incr →
    after.fetches = relay.fetches ∧ after.reader.active = true ∧ later.messages = history.messages
  carried : ∀ property, found = some property → property.type ≠ relay.vocabulary.incr →
    property.Carries fetch.target → Ended relay rest (relay.answer fetch (some property.value))
      [.deleteProperty relay.window name] history after later
  refused : (∀ property, found = some property → property.type ≠ relay.vocabulary.incr ∧
      ¬ property.Carries fetch.target) →
    ∃ calls, calls <+: [.deleteProperty relay.window name] ∧
      Ended relay rest (.noData fetch.selection) calls history after later

theorem answer_none (relay : Relay) (fetch : Fetch) :
    relay.answer fetch none = .noData fetch.selection := by
  simp [answer]

theorem answer_of_typeFor {type : ContentType} {bytes : Bytes}
    (known : relay.registry.typeFor fetch.target = some type) (meaningful : type ≠ .none) :
    relay.answer fetch (some bytes) = .data fetch.selection type bytes := by
  simp [answer, known, meaningful]

theorem receiveReply_heeding (front : relay.fetches = fetch :: rest)
    (hreply : relay.Heeds fetch notify) (hnull : notify.property ≠ Atom.null)
    (idle : relay.reader.active = false) :
    (receiveReply notify : Action δ Unit).Yields (fun _ after later => ∃ found,
      Received relay fetch rest notify.property found (history ++
        [⟨relay, .called (.getProperty relay.window notify.property false) found⟩]) after later)
      relay history := by
  refine .current_bind ?_
  rw [front]
  rw [Yields, Action.ensures_bind]
  refine checkReply_of_heeds hreply ?_
  rw [if_pos rfl]
  refine Yields.bind (readReply_yields hreply hnull idle) fun reply after later => ?_
  rintro ⟨found, htakes⟩
  cases reply with
  | pending =>
    obtain ⟨hfetches, hactive, silently, property, rfl, announced⟩ := htakes
    refine ⟨some property, silently.grows, ?_, ?_, ?_⟩
    · exact fun _ _ _ => ⟨hfetches, hactive, silently.messages⟩
    · rintro _ ⟨rfl⟩ whole
      exact absurd announced whole
    · exact fun hnone => absurd announced (hnone property rfl).1
  | data bytes =>
    obtain ⟨rfl, silently, property, rfl, whole, carries, rfl⟩ := htakes
    refine (finishFetch_yields _ front silently).mono fun _ after last ended => ?_
    refine ⟨some property, ended.grows, ?_, ?_, ?_⟩
    · rintro _ ⟨rfl⟩ announced
      exact absurd announced whole
    · rintro _ ⟨rfl⟩ _ _
      exact ended
    · exact fun hnone => absurd carries (hnone property rfl).2
  | failed =>
    obtain ⟨rfl, ⟨calls, hcalls, silently⟩, hnone⟩ := htakes
    refine (finishFetch_yields none front silently).mono fun _ _ _ ended => ?_
    rw [answer_none] at ended
    refine ⟨found, ended.grows, ?_, ?_, fun _ => ⟨calls, hcalls, ended⟩⟩
    · exact fun property hfound announced => absurd announced (hnone property hfound).1
    · exact fun property hfound _ carries => absurd carries (hnone property hfound).2

theorem checkReply_yields (fetch : Fetch) (notify : SelectionNotify) :
    (checkReply fetch notify : Action δ Bool).Yields (fun fits after later =>
      after = relay ∧ Silently [] history later ∧
        (fits = true → relay.vocabulary.selection? notify.selection = some fetch.selection ∧
          (notify.target = fetch.target ∨ notify.target = relay.vocabulary.incr)))
      relay history := by
  refine .current_bind ?_
  dsimp only
  split
  · rw [Yields, Action.ensures_bind, ensures_remark]
    split
    · rw [Action.ensures_bind, ensures_remark]
      exact ⟨rfl, (Silently.refl.remarked _ _).remarked _ _, by simp_all⟩
    · exact ⟨rfl, Silently.refl.remarked _ _, by simp_all⟩
  · split
    · rw [Yields, Action.ensures_bind, ensures_remark]
      exact ⟨rfl, Silently.refl.remarked _ _, by simp_all⟩
    · exact ⟨rfl, .refl, by simp_all⟩

theorem readReply_unheeding (hreply : notify.property = Atom.null ∨
      notify.requestor ≠ relay.window ∨
      relay.vocabulary.atom? fetch.selection ≠ some notify.property) {later : History}
    (h : Silently [] history later) :
    (readReply fetch notify : Action δ Reply).Yields (fun reply after last =>
      reply = .failed ∧ after = relay ∧ Silently [] history last) relay later := by
  refine .current_bind ?_
  dsimp only
  split
  · exact ⟨rfl, rfl, h.remarked _ _⟩
  case isFalse hnull =>
    rw [if_pos (hreply.resolve_left hnull)]
    exact ⟨rfl, rfl, h.remarked _ _⟩

theorem receiveReply_unheeding (front : relay.fetches = fetch :: rest)
    (hreply : ¬ relay.Heeds fetch notify) :
    (receiveReply notify : Action δ Unit).Yields (fun _ after later =>
      Ended relay rest (.noData fetch.selection) [] history after later) relay history := by
  refine .current_bind ?_
  rw [front]
  refine Yields.bind (checkReply_yields fetch notify) ?_
  rintro fits relay later ⟨rfl, silently, hfits⟩
  have hended {later : History} (silently : Silently [] history later) :
      (finishFetch none : Action δ Unit).Yields (fun _ after last =>
        Ended relay rest (.noData fetch.selection) [] history after last) relay later :=
    answer_none relay fetch ▸ finishFetch_yields none front silently
  split
  case isFalse => exact hended silently
  case isTrue fit =>
    obtain ⟨hselection, htarget⟩ := hfits fit
    have hunheeded : notify.property = Atom.null ∨ notify.requestor ≠ relay.window ∨
        relay.vocabulary.atom? fetch.selection ≠ some notify.property := by
      by_contra hheeded
      simp only [not_or, not_not] at hheeded
      exact hreply ⟨hselection, htarget, hheeded.2.1, hheeded.2.2⟩
    refine Yields.bind (readReply_unheeding hunheeded silently) ?_
    rintro _ relay later ⟨rfl, rfl, silently⟩
    exact hended silently

end Relay

namespace Session

variable {δ : Type} [Display δ]

def Stores (session : Session δ) (name : Atom) (property : Property) : Prop :=
  (Display.perform (.getProperty session.relay.window name false) session.display).1 =
    .ok (some property)

instance (session : Session δ) (name : Atom) (property : Property) :
    Decidable (session.Stores name property) :=
  inferInstanceAs (Decidable ((_ : Except Fault (Option Property)) = _))

/-- Whether a reply is to a fetch, and data of the target that was asked for can be read. -/
structure Brings (session : Session δ) (fetch : Fetch) (notify : SelectionNotify) (bytes : Bytes) :
    Prop where
  heeds : session.relay.Heeds fetch notify
  stores : session.Stores notify.property ⟨fetch.target, 8, bytes⟩
  some : bytes ≠ []

/-- Whether a reply is to a fetch, and says that the data comes in chunks. -/
structure Announces (session : Session δ) (fetch : Fetch) (notify : SelectionNotify) : Prop where
  heeds : session.relay.Heeds fetch notify
  stores : ∃ property, session.Stores notify.property property ∧
    property.type = session.relay.vocabulary.incr

/-- What is known when the fetch at the head of the queue has ended with a message, after these
calls: the owner of the next one was asked. -/
structure Concludes (session : Session δ) (rest : List Fetch) (message : Wire.Message)
    (calls : List Call) (after : Session δ) (history : History) : Prop where
  fetches : after.relay.fetches = rest
  outbox : after.outbox = session.outbox ++ [message]
  last : rest = [] → history.calls = calls
  next : ∀ next ∈ rest.head?, ∃ atom, session.relay.vocabulary.atom? next.selection = some atom ∧
    history.calls = calls ++ [.convertSelection atom next.target atom]

variable {session after : Session δ} {fetch : Fetch} {rest : List Fetch} {notify : SelectionNotify}

theorem concludes_of_ended {message : Wire.Message} {first calls : List Call} {before : History}
    {action : Action δ Unit} (hrun : action.run session = (.ok (), after))
    (silent : before.messages = []) (hfirst : before.calls = first)
    (bridged : ∀ fetch ∈ rest, fetch.selection ≠ .secondary)
    (h : Relay.Ended session.relay rest message calls before after.relay (action.history session)) :
    session.Concludes rest message (first ++ calls) after (action.history session) where
  fetches := h.fetches
  outbox := by
    have houtbox := action.outbox_run session
    rw [hrun, h.messages, silent] at houtbox
    exact houtbox
  last := by
    rintro rfl
    rw [h.calls, hfirst]
    exact List.append_nil _
  next next hnext := by
    obtain ⟨atom, hatom⟩ :=
      session.relay.vocabulary.exists_atom? (bridged next (List.mem_of_mem_head? hnext))
    refine ⟨atom, hatom, ?_⟩
    have hinquiry : (session.relay.withFetches rest).inquiry? =
        some (.convertSelection atom next.target atom) := by
      have hhead : rest.head? = some next := hnext
      simp [Relay.inquiry?, Relay.withFetches, hhead, hatom]
    rw [h.calls, hfirst, hinquiry]
    rfl

end Session

namespace Relay

open ClipboardRelay.Action (Yields)

/-- Whether a reply comes while one to the fetch at the head of the queue is waited for. It brings
content, and none of the questions that were dropped can have had it. -/
structure Expects (relay : Relay) (fetch : Fetch) (rest : List Fetch) (notify : SelectionNotify) :
    Prop where
  front : relay.fetches = fetch :: rest
  idle : relay.reader.active = false
  content : notify.target ≠ relay.vocabulary.targets
  fresh : relay.abandoned.find? (answers relay.vocabulary notify) = none

variable {δ : Type} {relay : Relay} {history : History} {fetch : Fetch} {rest : List Fetch}
  {notify : SelectionNotify}

theorem Expects.handle (h : relay.Expects fetch rest notify)
    {post : Unit → Relay → History → Prop}
    (hreceive : (receiveReply notify : Action δ Unit).Yields post relay history) :
    (Relay.handle (.selectionNotify notify) : Action δ Unit).Yields post relay history := by
  refine .current_bind ?_
  rw [if_neg h.content]
  refine .current_bind ?_
  rw [h.fresh]
  exact hreceive

end Relay

namespace Session

variable {δ : Type} [Display δ]

/-- What becomes of a reply to the fetch at the head of the queue: data of the target that was asked
for, where it was asked for, reaches the agent as what it asked for. Nothing is said yet when the
data comes in chunks. Every other reply ends the fetch with word that there is no data. -/
structure Settles (session : Session δ) (fetch : Fetch) (rest : List Fetch) (type : ContentType)
    (notify : SelectionNotify) (after : Session δ) (history : History) : Prop where
  brought : ∀ bytes, session.Brings fetch notify bytes →
    session.Concludes rest (.data fetch.selection type bytes)
      [.getProperty session.relay.window notify.property false,
        .deleteProperty session.relay.window notify.property] after history
  announced : session.Announces fetch notify →
    after.relay.fetches = fetch :: rest ∧ after.outbox = session.outbox
  refused : (∀ bytes, ¬ session.Brings fetch notify bytes) → ¬ session.Announces fetch notify →
    ∃ calls, calls <+: [.getProperty session.relay.window notify.property false,
        .deleteProperty session.relay.window notify.property] ∧
      session.Concludes rest (.noData fetch.selection) calls after history

variable {session after : Session δ} {fetch : Fetch} {rest : List Fetch} {notify : SelectionNotify}
  {type : ContentType}

theorem settles_of_unheeding (h : session.relay.Expects fetch rest notify)
    (bridged : ∀ fetch ∈ rest, fetch.selection ≠ .secondary)
    (hreply : ¬ session.relay.Heeds fetch notify)
    (hrun : (Relay.handle (.selectionNotify notify)).run session = (.ok (), after)) :
    session.Settles fetch rest type notify after
      ((Relay.handle (.selectionNotify notify)).history session) where
  brought _ brings := absurd brings.heeds hreply
  announced announces := absurd announces.heeds hreply
  refused _ _ := by
    have hended : (Relay.handle (.selectionNotify notify) : Action δ Unit).Yields
        (fun _ after later => Relay.Ended session.relay rest (.noData fetch.selection) [] []
          after later) session.relay [] :=
      h.handle (Relay.receiveReply_unheeding h.front hreply)
    have hafter := hended.run session
    rw [hrun] at hafter
    exact ⟨[], List.nil_prefix, concludes_of_ended hrun rfl rfl bridged hafter⟩

theorem settles_of_heeding (h : session.relay.Expects fetch rest notify)
    (bridged : ∀ fetch ∈ rest, fetch.selection ≠ .secondary)
    (happart : session.relay.TellsApart)
    (known : session.relay.registry.typeFor fetch.target = some type) (meaningful : type ≠ .none)
    (hreply : session.relay.Heeds fetch notify)
    (hrun : (Relay.handle (.selectionNotify notify)).run session = (.ok (), after)) :
    session.Settles fetch rest type notify after
      ((Relay.handle (.selectionNotify notify)).history session) := by
  have hnull : notify.property ≠ .null := (happart.atom?_ne hreply.property).2
  have hreceived : (Relay.handle (.selectionNotify notify) : Action δ Unit).Yields
      (fun _ after later => ∃ found, Relay.Received session.relay fetch rest notify.property found
        ([] ++ [⟨session.relay,
          .called (.getProperty session.relay.window notify.property false) found⟩])
        after later) session.relay [] :=
    h.handle (Relay.receiveReply_heeding h.front hreply hnull h.idle)
  have hafter := hreceived.run session
  rw [hrun] at hafter
  obtain ⟨found, received⟩ := hafter
  have hstores : ∀ property, session.Stores notify.property property ↔ found = some property := by
    obtain ⟨tail, htail⟩ := received.grows
    obtain ⟨read, hread⟩ := Action.perform_of_history_cons htail.symm
    intro property
    simp [Stores, hread]
  have hother : fetch.target ≠ session.relay.vocabulary.incr := happart.target_ne_incr known
  refine ⟨fun bytes brings => ?_, fun announces => ?_, fun unbrought unannounced => ?_⟩
  · have hended := received.carried _ ((hstores _).mp brings.stores) hother ⟨rfl, rfl, brings.some⟩
    rw [Relay.answer_of_typeFor known meaningful] at hended
    exact concludes_of_ended hrun rfl rfl bridged hended
  · obtain ⟨property, stores, htype⟩ := announces.stores
    obtain ⟨hfetches, -, hmessages⟩ := received.announced property ((hstores _).mp stores) htype
    have hsilent : ((Relay.handle (.selectionNotify notify)).history session).messages = [] :=
      hmessages
    have houtbox := Action.outbox_run_silent hsilent
    rw [hrun] at houtbox
    exact ⟨hfetches.trans h.front, houtbox⟩
  · have hnone : ∀ property, found = some property →
        property.type ≠ session.relay.vocabulary.incr ∧ ¬ property.Carries fetch.target := by
      intro property hfound
      have hstored := (hstores property).mpr hfound
      refine ⟨fun htype => unannounced ⟨hreply, property, hstored, htype⟩, fun carries => ?_⟩
      obtain ⟨_, _, bytes⟩ := property
      obtain ⟨rfl, rfl, some⟩ := carries
      exact unbrought bytes ⟨hreply, hstored, some⟩
    obtain ⟨calls, hcalls, hended⟩ := received.refused hnone
    refine ⟨.getProperty session.relay.window notify.property false :: calls, ?_, ?_⟩
    · exact List.prefix_cons_inj _ |>.mpr hcalls
    · exact concludes_of_ended hrun rfl rfl bridged hended

end Session

namespace Course

variable {δ : Type} [Display δ] {display : δ} {course : Course δ} {moves : List (Move δ)}

/-- A reply to a question of the agent, after any run on a display that tells names apart. -/
theorem settles_of_expects (hstart : start display = some course)
    (happart : course.relay.TellsApart) {fetch : Fetch} {rest : List Fetch}
    {notify : SelectionNotify} (expects : (course.after moves).relay.Expects fetch rest notify)
    {asking : Moment} {type : ContentType} (hasking : asking ∈ (course.after moves).history)
    (hasks : asking.Asks fetch type) {after : Session δ}
    (hrun : (Relay.handle (.selectionNotify notify)).run (course.after moves).session =
      (.ok (), after)) :
    (course.after moves).session.Settles fetch rest type notify after
      ((Relay.handle (.selectionNotify notify)).history (course.after moves).session) := by
  have hcued := cued_after hstart moves
  have hnames : (course.after moves).relay.names = course.relay.names := hcued.same
  have hregistry : (course.after moves).relay.registry = course.relay.registry :=
    congrArg (·.2.2) hnames
  obtain ⟨known, meaningful⟩ := known_of_asks hstart happart hasking hasks
  have bridged : ∀ fetch ∈ rest, fetch.selection ≠ .secondary := by
    intro other hother
    have hqueued : other ∈ (course.after moves).relay.fetches := by
      rw [expects.front]
      exact List.mem_cons_of_mem _ hother
    exact hcued.wellFormed.relay.bridged other (List.mem_append_left _ hqueued)
  by_cases hreply : (course.after moves).relay.Heeds fetch notify
  · exact Session.settles_of_heeding expects bridged (happart.of_names hnames)
      (hregistry.symm ▸ known) meaningful hreply hrun
  · exact Session.settles_of_unheeding expects bridged hreply hrun

/-- On a display that tells names apart the agent gets data only from a reply to the question that
is at the head of the queue, of the target that was asked for, and as the kind of content that it
asked for. Data that comes in chunks is waited for, and every other reply ends the question with
word that there is no data. In every run the agent is told that there is no data exactly if it is
sent none. -/
theorem replies_settled (hstart : start display = some course) (moves : List (Move δ)) :
    (∀ selection type data, .data selection type data ∈ (course.after moves).history.messages →
      (type = .none ↔ data = [])) ∧
    (course.relay.TellsApart → ∀ fetch rest notify, (course.after moves).relay.Expects fetch rest
        notify → ∀ asking ∈ (course.after moves).history, ∀ type, asking.Asks fetch type →
      History.faultless ((Relay.handle (.selectionNotify notify)).history
        (course.after moves).session) = true →
      ∃ after, (Relay.handle (.selectionNotify notify)).run (course.after moves).session =
          (.ok (), after) ∧
        (course.after moves).session.Settles fetch rest type notify after
          ((Relay.handle (.selectionNotify notify)).history (course.after moves).session)) := by
  refine ⟨fun _ _ _ => honest_after hstart moves, ?_⟩
  intro happart fetch rest notify expects asking hasking type hasks hfaultless
  obtain ⟨_, hok⟩ := (Action.faultless_history _ _).mp hfaultless
  have hrun := Action.run_of_ok hok
  exact ⟨_, hrun, settles_of_expects hstart happart expects hasking hasks hrun⟩

def storingPicture : List (Move Memory.Display) :=
  ownedByTwo ++ [.operate (.ask .clipboard .imagePng), .operate (.ask .primary .utf8Text),
    .elapse {
      properties := { entries := [⟨⟨1⟩, ⟨100⟩, (Content.bytes [1, 2]).toProperty ⟨108⟩⟩] } }]

/-- A reply says where the picture is, or that there is none. -/
theorem replies_settled_storingPicture : ∃ course, start ({} : Memory.Display) = some course ∧
    (∃ after, (Relay.handle (.selectionNotify ⟨0, ⟨1⟩, ⟨100⟩, ⟨108⟩, ⟨100⟩⟩)).run
        (course.after storingPicture).session = (.ok (), after) ∧
      (course.after storingPicture).session.Concludes [⟨.primary, ⟨105⟩⟩]
        (.data .clipboard .imagePng [1, 2])
        [.getProperty ⟨1⟩ ⟨100⟩ false, .deleteProperty ⟨1⟩ ⟨100⟩] after
        ((Relay.handle (.selectionNotify ⟨0, ⟨1⟩, ⟨100⟩, ⟨108⟩, ⟨100⟩⟩)).history
          (course.after storingPicture).session)) ∧
    ∃ after calls, (Relay.handle (.selectionNotify ⟨0, ⟨1⟩, ⟨100⟩, ⟨108⟩, ⟨0⟩⟩)).run
        (course.after storingPicture).session = (.ok (), after) ∧
      (course.after storingPicture).session.Concludes [⟨.primary, ⟨105⟩⟩] (.noData .clipboard)
        calls after ((Relay.handle (.selectionNotify ⟨0, ⟨1⟩, ⟨100⟩, ⟨108⟩, ⟨0⟩⟩)).history
          (course.after storingPicture).session) := by
  have hstart : start ({} : Memory.Display) =
      some ((start {}).get (by decide +kernel)) := (Option.some_get _).symm
  have happart : ((start ({} : Memory.Display)).get (by decide +kernel)).relay.TellsApart :=
    ⟨by decide +kernel, by decide +kernel⟩
  have hasking := List.get_mem ((((start ({} : Memory.Display)).get (by decide +kernel)).after
      storingPicture).history) ⟨33, by decide +kernel⟩
  have settled := (replies_settled hstart storingPicture).2 happart ⟨.clipboard, ⟨108⟩⟩
    [⟨.primary, ⟨105⟩⟩]
  obtain ⟨after, hrun, brought⟩ := settled ⟨0, ⟨1⟩, ⟨100⟩, ⟨108⟩, ⟨100⟩⟩
    ⟨by decide +kernel, by decide +kernel, by decide +kernel, by decide +kernel⟩ _ hasking .imagePng
    ⟨by decide +kernel, by decide +kernel⟩ (by decide +kernel)
  obtain ⟨other, hother, refused⟩ := settled ⟨0, ⟨1⟩, ⟨100⟩, ⟨108⟩, ⟨0⟩⟩
    ⟨by decide +kernel, by decide +kernel, by decide +kernel, by decide +kernel⟩ _ hasking .imagePng
    ⟨by decide +kernel, by decide +kernel⟩ (by decide +kernel)
  have hwindow : (((start ({} : Memory.Display)).get (by decide +kernel)).after
      storingPicture).session.relay.window = ⟨1⟩ := by decide +kernel
  have hpicture := brought.brought [1, 2]
    ⟨⟨by decide +kernel, by decide +kernel, by decide +kernel, by decide +kernel⟩,
      by decide +kernel, by decide⟩
  rw [hwindow] at hpicture
  obtain ⟨calls, -, hnothing⟩ := refused.refused
    (fun bytes brings => absurd brings.heeds.property (by decide +kernel))
    (fun announces => absurd announces.heeds.property (by decide +kernel))
  exact ⟨_, hstart, ⟨after, hrun, hpicture⟩, other, calls, hother, hnothing⟩

end Course

end ClipboardRelay
