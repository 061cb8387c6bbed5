import ClipboardRelay.Proofs.Downloads
import ClipboardRelay.Proofs.Prompting
import ClipboardRelay.Proofs.Resuming
/-!
Putting together the data that an owner sends in chunks, from the reply that announces them on. Main
statement: the agent is sent exactly the chunks, one behind the other, when the empty one was read,
whatever else is done in between, as long as the selection does not change hands and each chunk is
there when it is said to be stored.
-/

namespace ClipboardRelay

open ClipboardRelay.Action (Yields Upholds)

namespace Download

/-- What may keep the data from coming together. -/
inductive Disturbs (download : Download) (moment : Moment) : Prop
  | unsettled (unsettles : moment.Unsettles download.fetch.selection)
  | told (notify : SelectionNotify) (polled : moment.event? = some (.selectionNotify notify))
    (targets : notify.target = download.vocabulary.targets)
    (same : download.vocabulary.selection? notify.selection = some download.fetch.selection)
  | replied (notify : SelectionNotify) (polled : moment.event? = some (.selectionNotify notify))
    (content : notify.target ≠ download.vocabulary.targets)
    (kept : ∀ late ∈ moment.relay.abandoned.find? (Relay.answers download.vocabulary notify),
      late.selection = download.fetch.selection)
  | unannounced (found : Option Property)
    (read : moment.deed = .called (.getProperty download.window download.atom false) found)
    (other : ∀ property ∈ found, property.type ≠ download.vocabulary.incr)
  | missing (found : Option Property)
    (read : moment.deed = .called (.getProperty download.window download.atom true) found)
    (other : ∀ chunk, found ≠ some ⟨download.fetch.target, 8, chunk⟩)

def Disturbed (download : Download) (since : History) : Prop :=
  ∃ before moment rest, since = before ++ moment :: rest ∧ download.Disturbs moment ∧
    ¬ download.Ended before

/-- The chunks were read, and the empty one behind them. Then the agent is told, and the next fetch
is started. -/
structure Completed (download : Download) (behind : List Fetch) (chunks : List Bytes)
    (first : History) (last : Moment) (rest : History) : Prop where
  nonempty : [] ∉ chunks
  receipt : download.Receipt behind last.relay.fetches (chunks ++ [[]]) first
  told : last.deed = .sent (download.outcome chunks)
  idle : last.relay.reader.active = false
  next : ∀ next ∈ last.relay.fetches.head?, ∃ atom,
    download.vocabulary.atom? next.selection = some atom ∧
      [.noted (.about next.selection (.converting next.target)),
        .called (.convertSelection atom next.target atom) ()] <+: rest.map (·.deed)
  /-- If the agent waits for nothing else, it is answered nothing more before it asks again. -/
  quiet : (∀ fetch ∈ last.relay.fetches, fetch.selection ≠ download.fetch.selection) →
    rest.Prompted download.fetch.selection

/-- Whether all the data has come, and the agent was told. -/
def Assembled (download : Download) (behind : List Fetch) (since : History) : Prop :=
  ∃ chunks first last rest, since = first ++ last :: rest ∧
    download.Completed behind chunks first last rest

def Continued (download : Download) (behind : List Fetch) (since : History) : Prop :=
  ∃ chunks first last rest, since = first ++ last :: rest ∧
    download.Completed behind chunks first last rest ∧
    ∃ fetch ∈ last.relay.fetches, fetch.selection = download.fetch.selection

/-- Whether all the data has come, and nothing was fetched from the selection since unless the agent
asked for it. -/
def Settled (download : Download) (behind : List Fetch) (relay : Relay) (since : History) : Prop :=
  ∃ chunks first last rest, since = first ++ last :: rest ∧
    download.Completed behind chunks first last rest ∧ Resting download.fetch.selection relay rest

def Over (download : Download) (behind : List Fetch) (since : History) : Prop :=
  download.Disturbed since ∨ download.Continued behind since

def Underway (download : Download) (behind : List Fetch) (relay : Relay) (since : History) : Prop :=
  ∃ chunks, Assembling download behind chunks relay since

def Proceeds (download : Download) (behind : List Fetch) (relay : Relay) (since : History) : Prop :=
  download.Underway behind relay since ∨ download.Settled behind relay since

variable {δ : Type} {download : Download} {behind waiting : List Fetch} {chunks : List Bytes}
  {relay after : Relay} {since first rest added : History} {last : Moment}

theorem Disturbed.append (h : download.Disturbed since) (added : History) :
    download.Disturbed (since ++ added) := by
  obtain ⟨before, moment, rest, rfl, hdisturbs, hended⟩ := h
  exact ⟨before, moment, rest ++ added, by simp, hdisturbs, hended⟩

theorem Completed.append (h : download.Completed behind chunks first last rest)
    (hquiet : (∀ fetch ∈ last.relay.fetches, fetch.selection ≠ download.fetch.selection) →
      History.Prompted download.fetch.selection (rest ++ added)) :
    download.Completed behind chunks first last (rest ++ added) := by
  refine { h with next := fun next hnext => ?_, quiet := hquiet }
  obtain ⟨atom, hatom, hprefix⟩ := h.next next hnext
  rw [List.map_append]
  exact ⟨atom, hatom, hprefix.trans (List.prefix_append _ _)⟩

theorem Continued.append (h : download.Continued behind since) (added : History) :
    download.Continued behind (since ++ added) := by
  obtain ⟨chunks, first, last, rest, rfl, completed, fetch, hfetch, same⟩ := h
  exact ⟨chunks, first, last, rest ++ added, by simp,
    completed.append fun hnone => absurd same (hnone fetch hfetch), fetch, hfetch, same⟩

theorem Continued.assembled (h : download.Continued behind since) :
    download.Assembled behind since := by
  obtain ⟨chunks, first, last, rest, hsplit, completed, -⟩ := h
  exact ⟨chunks, first, last, rest, hsplit, completed⟩

theorem Completed.settles (h : download.Completed behind chunks first last rest)
    (hfetches : after.fetches ⊆ last.relay.fetches)
    (hprompted : rest.Prompted download.fetch.selection) :
    download.Over behind (first ++ last :: rest) ∨
      download.Proceeds behind after (first ++ last :: rest) := by
  by_cases waits : ∃ fetch ∈ last.relay.fetches, fetch.selection = download.fetch.selection
  · exact .inl (.inr ⟨chunks, first, last, rest, rfl, h, waits⟩)
  · refine .inr (.inr ⟨chunks, first, last, rest, rfl, h, fun _ fetch hfetch same => ?_, hprompted⟩)
    exact waits ⟨fetch, hfetches hfetch, same⟩

namespace Settled

theorem ended (h : download.Settled behind relay since) : download.Ended since := by
  obtain ⟨chunks, first, last, rest, rfl, completed, -⟩ := h
  exact completed.receipt.ended.append _

theorem assembled (h : download.Settled behind relay since) :
    download.Assembled behind since := by
  obtain ⟨chunks, first, last, rest, hsplit, completed, -⟩ := h
  exact ⟨chunks, first, last, rest, hsplit, completed⟩

theorem keep (h : download.Settled behind relay since)
    (hkept : ∀ {rest}, Resting download.fetch.selection relay rest →
      Resting download.fetch.selection after (rest ++ added)) :
    download.Settled behind after (since ++ added) := by
  obtain ⟨chunks, first, last, rest, rfl, completed, resting⟩ := h
  exact ⟨chunks, first, last, rest ++ added, by simp,
    completed.append fun _ => (hkept resting).prompted, hkept resting⟩

theorem upholds (h : download.Settled behind relay since) {action : Action δ Unit}
    (haction : ∀ {rest}, Resting download.fetch.selection relay rest →
      action.Upholds (fun _ => False) (Resting download.fetch.selection) relay (rest ++ added)) :
    action.Upholds (download.Over behind) (download.Proceeds behind) relay (since ++ added) := by
  obtain ⟨chunks, first, last, rest, rfl, completed, resting⟩ := h
  have hmore : action.Yields (fun _ _ later => ∃ more, later = rest ++ added ++ more) relay
      (rest ++ added) := action.spares_begun.yields fun _ _ more _ _ => ⟨more, rfl⟩
  have hsince := ((haction resting).and hmore).since (first ++ [last])
  rw [← List.append_assoc, List.append_assoc first, List.singleton_append] at hsince
  refine hsince.mono ?_
  rintro - after _ ⟨_, rfl, ⟨⟨⟩⟩ | resting, more, rfl⟩
  rw [List.append_assoc rest] at resting ⊢
  exact .inr (.inr ⟨chunks, first, last, rest ++ (added ++ more), by simp,
    completed.append fun _ => resting.prompted, resting⟩)

end Settled

theorem Over.append (h : download.Over behind since) (added : History) :
    download.Over behind (since ++ added) :=
  h.imp (·.append added) (·.append added)

theorem Over.yields {α : Type} (h : download.Over behind since)
    {post : α → Relay → History → Prop} {action : Action δ α} :
    action.Yields (fun value after later => download.Over behind later ∨ post value after later)
      relay since :=
  action.spares_begun.yields fun _ _ added _ _ => .inl (h.append added)

theorem Disturbs.ends {moment : Moment} (h : download.Disturbs moment)
    (hended : ¬ download.Ended since) : download.Over behind (since ++ [moment]) :=
  .inl ⟨since, moment, [], rfl, h, hended⟩

theorem Disturbs.yields {α : Type} {moment : Moment} (h : download.Disturbs moment)
    (hended : ¬ download.Ended since) {post : α → Relay → History → Prop} {action : Action δ α} :
    action.Yields (fun value after later => download.Over behind later ∨ post value after later)
      relay (since ++ [moment]) :=
  (h.ends hended).yields

theorem answer_of_known (hregistry : relay.registry = download.registry) :
    relay.answer download.fetch (if chunks = [] then none else some chunks.flatten) =
      download.outcome chunks := by
  unfold Relay.answer outcome
  rw [hregistry, download.known]
  by_cases hchunks : chunks = []
  · simp [hchunks]
  · simp [hchunks, download.meaningful]

theorem finishFetch (front : relay.fetches = download.fetch :: waiting)
    (receipt : download.Receipt behind waiting (chunks ++ [[]]) since) (nonempty : [] ∉ chunks)
    (bridged : ∀ fetch ∈ waiting, fetch.selection ≠ .secondary)
    (names : relay.names = download.names) (idle : relay.reader.active = false) :
    (Relay.finishFetch (if chunks = [] then none else some chunks.flatten) :
      Action δ Unit).Upholds (download.Over behind) (download.Proceeds behind) relay since := by
  have hregistry : relay.registry = download.registry := congrArg (·.2.2) names
  have hvocabulary : relay.vocabulary = download.vocabulary := congrArg (·.2.1) names
  refine Relay.finishFetch_ensures_of _ (fun empty => ?_) fun fetch rest hfetches => ?_
  · rw [front] at empty
    cases empty
  rw [front, List.cons.injEq] at hfetches
  obtain ⟨rfl, rfl⟩ := hfetches
  have hidle (data : Option Bytes) : (relay.finished data waiting).reader.active = false := by
    cases data with
    | none => rfl
    | some bytes => exact idle
  have hfinishing : relay.finishing download.fetch
      (if chunks = [] then none else some chunks.flatten) waiting =
      [⟨relay.finished (if chunks = [] then none else some chunks.flatten) waiting,
        .sent (download.outcome chunks)⟩] := by
    rw [Relay.finishing, answer_of_known hregistry, hregistry, download.known]
    rfl
  rw [hfinishing]
  refine Relay.startFetch_ensures_of (fun unnamed => ?_) fun next others atom hnext hatom =>
    ⟨?_, fun _ => trivial⟩
  · have hprompted : History.Prompted download.fetch.selection [] := .nil
    refine Completed.settles ⟨nonempty, receipt, rfl, hidle _, fun next hnext => ?_,
      fun _ => hprompted⟩ (List.Subset.refl _) hprompted
    have hbridged := bridged next (List.mem_of_mem_head? hnext)
    have hunnamed : relay.vocabulary.atom? next.selection = none := unnamed next hnext
    obtain ⟨atom, hatom⟩ := download.vocabulary.exists_atom? hbridged
    rw [hvocabulary, hatom] at hunnamed
    cases hunnamed
  · have hfront : waiting = next :: others := hnext
    have hprompted (asking : Relay) : History.Prompted download.fetch.selection
        [⟨asking, .noted (.about next.selection (.converting next.target))⟩,
          ⟨asking, .called (.convertSelection atom next.target atom) ()⟩] :=
      .of_forall (by simp [Deed.answers])
    rw [List.append_assoc, List.append_assoc]
    refine Completed.settles ⟨nonempty, receipt, rfl, hidle _, fun other hother => ?_,
      fun _ => hprompted _⟩ (List.Subset.refl _) (hprompted _)
    have hsame : waiting.head? = some other := hother
    rw [hfront, List.head?_cons, Option.some_inj] at hsame
    subst hsame
    exact ⟨atom, hvocabulary ▸ hatom, List.prefix_refl _⟩

end Download

theorem Relay.checkProperty_of_fit {δ : Type} {selection : Selection} {target : Atom}
    {bytes : Bytes} : (checkProperty selection target ⟨target, 8, bytes⟩ : Action δ Bool) =
      pure true := by
  simp [checkProperty]

namespace Assembling

variable {δ : Type} {download : Download} {behind : List Fetch} {chunks : List Bytes}
  {relay : Relay} {since : History}

theorem flatten_eq_nil_iff (h : Assembling download behind chunks relay since) :
    chunks.flatten = [] ↔ chunks = [] := by
  refine ⟨fun hflatten => List.eq_nil_iff_forall_not_mem.mpr fun chunk hchunk => ?_, ?_⟩
  · have hempty := List.flatten_eq_nil_iff.mp hflatten chunk hchunk
    exact h.nonempty (hempty ▸ hchunk)
  · rintro rfl
    rfl

theorem finishFetch (h : Assembling download behind chunks relay since) {later : History}
    (receipt : download.Receipt behind relay.fetches.tail (chunks ++ [[]]) later)
    {data : Option Bytes} (hdata : (if chunks = [] then none else some chunks.flatten) = data) :
    (Relay.finishFetch data : Action δ Unit).Upholds (download.Over behind)
      (download.Proceeds behind) { relay with reader := relay.reader.abort } later := by
  have hbridged : ∀ fetch ∈ relay.fetches.tail, fetch.selection ≠ .secondary :=
    fun fetch hfetch => h.bridged fetch (List.mem_of_mem_tail hfetch)
  rw [← hdata]
  exact Download.finishFetch h.fetches receipt h.nonempty hbridged h.names rfl

theorem readChunk (h : Assembling download behind chunks relay since) :
    (Relay.readChunk download.fetch download.atom : Action δ Unit).Upholds (download.Over behind)
      (download.Proceeds behind) relay (since ++ [⟨relay, .called .pollEvent
        (some (.propertyStored download.window download.atom))⟩]) := by
  have hwindow : relay.window = download.window := congrArg (·.1) h.names
  refine .current_bind ?_
  rw [hwindow]
  refine Relay.ensures_call_bind (fun found => ?_) fun _ => trivial
  by_cases hchunk : ∃ chunk, found = some ⟨download.fetch.target, 8, chunk⟩
  case neg =>
    have hmissing : download.Disturbs ⟨relay, .called (.getProperty download.window download.atom
        true) found⟩ := .missing found rfl fun chunk hfound => hchunk ⟨chunk, hfound⟩
    refine hmissing.yields fun ended => h.receipt.not_ended h.nonempty ?_
    simpa [Download.Ended] using ended
  case pos =>
    obtain ⟨chunk, rfl⟩ := hchunk
    have received (after : Relay) (notice : Notice) :
        download.Receipt behind relay.fetches.tail (chunks ++ [chunk])
          (since ++ [⟨relay, .called .pollEvent (some (.propertyStored download.window
            download.atom))⟩] ++ [⟨relay, .called (.getProperty download.window download.atom true)
              (some ⟨download.fetch.target, 8, chunk⟩)⟩] ++ [⟨after, .noted notice⟩]) := by
      rw [List.append_assoc since]
      exact (h.receipt.concat relay chunk).apart (List.forall_mem_singleton.mpr rfl)
    dsimp only
    rw [Action.ensures_bind, Relay.checkProperty_of_fit, Action.ensures_pure, if_pos rfl]
    split
    case isTrue last =>
      have hlast : chunk = [] := List.isEmpty_iff.mp last
      subst hlast
      rw [Action.ensures_bind, Relay.ensures_current, Action.ensures_bind, Relay.ensures_update]
      have hdata : relay.reader.finish = (chunks.flatten, relay.reader.abort) := by
        rw [Incremental.Reader.finish_eq, h.received]
      have hnothing : chunks.flatten.isEmpty = true ↔ chunks = [] := by
        rw [List.isEmpty_iff, h.flatten_eq_nil_iff]
      rw [hdata]
      split
      case isTrue nothing => exact h.finishFetch (received _ _) (if_pos (hnothing.mp nothing))
      case isFalse something =>
        exact h.finishFetch (received _ _) (if_neg (something ∘ hnothing.mpr))
    case isFalse more =>
      rw [Action.ensures_bind, Relay.ensures_update, Action.ensures_bind, Relay.ensures_current,
        Relay.ensures_remark]
      refine .inr (.inl ⟨chunks ++ [chunk], ?_, h.front, received _ _, h.bridged, ?_, ?_, h.names,
        h.owned⟩)
      · rw [List.mem_append, List.mem_singleton]
        rintro (hold | rfl)
        · exact h.nonempty hold
        · exact more rfl
      · rw [Incremental.Reader.active_push, h.active]
      · rw [Incremental.Reader.data_push, h.received, List.flatten_append, List.flatten_singleton]

theorem handleStored (h : Assembling download behind chunks relay since) (window : Window)
    (property : Atom) :
    (Relay.handleStored window property : Action δ Unit).Upholds (download.Over behind)
      (download.Proceeds behind) relay
      (since ++ [⟨relay, .called .pollEvent (some (.propertyStored window property))⟩]) := by
  have hwindow : relay.window = download.window := congrArg (·.1) h.names
  have hvocabulary : relay.vocabulary = download.vocabulary := congrArg (·.2.1) h.names
  refine .current_bind ?_
  rw [if_pos h.active, h.fetches]
  dsimp only
  rw [hwindow, hvocabulary, download.named]
  split
  case isTrue here =>
    obtain ⟨rfl, hproperty⟩ := here
    obtain rfl := Option.some.inj hproperty
    exact h.readChunk
  case isFalse elsewhere =>
    refine .inr (.inl ⟨chunks, h.did ?_⟩)
    have hcarries : download.carries (.called .pollEvent (some (.propertyStored window property))) =
        false := decide_eq_false fun same => elsewhere ⟨same.1, congrArg some same.2.symm⟩
    rw [Download.touches, hcarries]
    rfl

theorem upholds {action : Action δ Unit}
    (h : action.Yields (fun _ => Assembling download behind chunks) relay since) :
    action.Upholds (download.Over behind) (download.Proceeds behind) relay since :=
  h.mono fun _ _ _ assembling => .inr (.inl ⟨chunks, assembling⟩)

theorem handleConversion (h : Assembling download behind chunks relay since)
    (notify : SelectionNotify) (content : notify.target ≠ download.vocabulary.targets) :
    (Relay.handleConversion notify : Action δ Unit).Upholds (download.Over behind)
      (download.Proceeds behind) relay
      (since ++ [⟨relay, .called .pollEvent (some (.selectionNotify notify))⟩]) := by
  have hvocabulary : relay.vocabulary = download.vocabulary := congrArg (·.2.1) h.names
  by_cases hlate : ∀ late ∈ relay.abandoned.find? (Relay.answers download.vocabulary notify),
      late.selection = download.fetch.selection
  case pos =>
    have hreplied : download.Disturbs
        ⟨relay, .called .pollEvent (some (.selectionNotify notify))⟩ :=
      .replied notify rfl content hlate
    exact hreplied.yields (h.receipt.not_ended h.nonempty)
  case neg =>
    simp only [not_forall, exists_prop] at hlate
    obtain ⟨late, hfound, other⟩ := hlate
    have hfront : relay.fetches.head?.map (·.selection) ≠ some late.selection := by
      simpa [h.front] using fun same => other same.symm
    have hpolled : Assembling download behind chunks
        { relay with abandoned := relay.abandoned.eraseP (Relay.answers relay.vocabulary notify) }
        (since ++ [⟨relay, .called .pollEvent (some (.selectionNotify notify))⟩]) :=
      { h.did rfl with }
    refine .current_bind ?_
    rw [hvocabulary, hfound]
    refine .update_bind ?_
    rw [if_neg hfront]
    refine upholds (hpolled.yields (.bind (Relay.spares_remark rfl) fun _ => ?_))
    split
    · exact Relay.spares_call fun _ => rfl
    · exact .pure

end Assembling

namespace Download

variable {δ : Type} {download : Download} {behind : List Fetch} {relay : Relay} {since : History}

def Free (download : Download) (selection : Selection) (since : History) : Prop :=
  selection ≠ download.fetch.selection ∨ download.Ended since

theorem Free.append {selection : Selection} (h : download.Free selection since)
    (added : History) : download.Free selection (since ++ added) :=
  h.imp_right (·.append added)

/-- Whatever is done, the chunks stay together as long as nothing disturbs this, until the empty one
comes. -/
theorem kept [Display δ] :
    Kept δ download.Free (download.Over behind) (download.Proceeds behind) where
  lasting added h := h.append added
  waits _ hfree := .inr (hfree.append _)
  resumes hfree _ _ := .inr (hfree.append _)
  seizes {relay history operation selection} hchanges := by
    rintro (⟨chunks, h⟩ | settled)
    · by_cases hselection : selection = download.fetch.selection
      · have unsettles : Moment.Unsettles download.fetch.selection ⟨relay, .began operation⟩ :=
          .inr ⟨operation, rfl, hselection ▸ hchanges⟩
        have ended := h.receipt.not_ended h.nonempty
        exact .inl (.inl ⟨history, _, [], rfl, .unsettled unsettles, ended⟩)
      · exact .inr (.inl hselection)
    · exact .inr (.inr (settled.ended.append _))
  still hstill := by
    rintro (⟨chunks, h⟩ | settled)
    · exact .inl ⟨chunks, h.did (not_touches_of_still hstill)⟩
    · exact .inr (settled.keep ((Resting.kept (δ := δ)).still hstill))
  resized size := by
    rintro (⟨chunks, h⟩ | ⟨chunks, first, last, rest, hsplit, completed, resting⟩)
    · exact .inl ⟨chunks, { h with }⟩
    · exact .inr ⟨chunks, first, last, rest, hsplit, completed,
        (Resting.kept (δ := δ)).resized size resting⟩
  declines asks hnone hstill := by
    rintro (⟨chunks, h⟩ | settled)
    · exact .inl ⟨chunks, h.keep rfl (h.receipt.extend (by simp [carries])
        (History.silent_of_declined asks hnone))⟩
    · exact .inr (settled.keep ((Resting.kept (δ := δ)).declines asks hnone hstill))
  queues accepted := by
    rintro (⟨chunks, h⟩ | settled)
    · exact Assembling.upholds (h.queueFetch accepted)
    · exact settled.upholds (Resting.kept.queues accepted)
  changes {relay history selection} holder hfree := by
    rintro (⟨chunks, h⟩ | settled)
    · have hother := hfree.resolve_right (h.receipt.not_ended h.nonempty)
      exact Assembling.upholds (h.changeHolder hother holder)
    · rw [← List.append_nil history]
      refine settled.upholds fun {rest} resting => ?_
      rw [List.append_nil]
      exact Resting.kept.changes holder trivial resting
  supplies {relay history operation selection type data} hsupplies := by
    rintro (⟨chunks, h⟩ | settled)
    · have hbegan : download.touches (.began operation) = false := by
        rcases hsupplies with rfl | rfl <;> rfl
      exact Assembling.upholds ((h.did hbegan).serves (Relay.deliver_spares selection type data))
    · exact settled.upholds (Resting.kept.supplies hsupplies)
  handles {relay history event} hevent := by
    rintro (⟨chunks, h⟩ | settled)
    case inr => exact settled.upholds (Resting.kept.handles hevent)
    have hvocabulary : relay.vocabulary = download.vocabulary := congrArg (·.2.1) h.names
    cases event with
    | ownerChanged atom owner =>
      by_cases displaced : (Moment.mk relay (.called .pollEvent
          (some (.ownerChanged atom owner)))).displaces download.fetch.selection = true
      · have unsettled : download.Disturbs ⟨relay, .called .pollEvent
            (some (.ownerChanged atom owner))⟩ := .unsettled (.inl displaced)
        exact unsettled.yields (h.receipt.not_ended h.nonempty)
      · exact Assembling.upholds
          (Assembling.following.handleOwner_of_settled displaced (h.did rfl))
    | selectionNotify notify =>
      refine .current_bind ?_
      split
      case isTrue targets =>
        by_cases same : download.vocabulary.selection? notify.selection =
            some download.fetch.selection
        · have told : download.Disturbs ⟨relay, .called .pollEvent
              (some (.selectionNotify notify))⟩ := .told notify rfl (hvocabulary ▸ targets) same
          exact told.yields (h.receipt.not_ended h.nonempty)
        · refine Assembling.upholds (Assembling.following.handleTargets ?_ (h.did rfl))
          rintro selection named - rfl
          exact same (hvocabulary ▸ named)
      case isFalse content => exact h.handleConversion notify (hvocabulary ▸ content)
    | selectionRequest event =>
      exact Assembling.upholds ((h.did rfl).serves (Relay.queueRequest_spares event))
    | propertyStored window property => exact h.handleStored window property
    | propertyDeleted window property =>
      exact Assembling.upholds ((h.did rfl).serves (Relay.handleDeleted_spares window property))
    | rootResized | protocolError | other | selectionCleared | mappingChanged => cases hevent

end Download

def Moment.question? (moment : Moment) : Option (Selection × ContentType) :=
  match moment.deed with
  | .began operation => operation.question?
  | _ => none

theorem Moment.cue_of_question? {moment : Moment} {asked : Selection × ContentType}
    (h : moment.question? = some asked) : moment.deed.isCue = true := by
  unfold question? at h
  split at h
  case h_1 hdeed =>
    rw [hdeed]
    rfl
  case h_2 => cases h

/-- Whether the agent asks for some content, and the question becomes a fetch. -/
structure Moment.Asks (moment : Moment) (fetch : Fetch) (type : ContentType) : Prop where
  question : moment.question? = some (fetch.selection, type)
  accepted : moment.relay.fetch? fetch.selection type = some fetch

/-- Whether a reply is to a fetch, and the data is in the property of its selection. -/
structure Relay.Heeds (relay : Relay) (fetch : Fetch) (notify : SelectionNotify) : Prop where
  selection : relay.vocabulary.selection? notify.selection = some fetch.selection
  target : notify.target = fetch.target ∨ notify.target = relay.vocabulary.incr
  requestor : notify.requestor = relay.window
  property : relay.vocabulary.atom? fetch.selection = some notify.property

theorem Relay.checkReply_of_heeds {δ : Type} {relay : Relay} {history : History} {fetch : Fetch}
    {notify : SelectionNotify} (h : relay.Heeds fetch notify)
    {post : Bool → Relay → History → Prop} (hpost : post true relay history) :
    (checkReply fetch notify : Action δ Bool).Yields post relay history := by
  refine .current_bind ?_
  simp only [h.selection, h.target, decide_true, Bool.not_true, Bool.false_eq_true, if_false]
  exact hpost

structure Awaited (download : Download) (behind : List Fetch) (relay : Relay) : Prop where
  front : relay.fetches = download.fetch :: behind
  bridged : ∀ fetch ∈ relay.fetches, fetch.selection ≠ .secondary
  names : relay.names = download.names
  owned : relay.slots.owner download.fetch.selection = .desktop
  idle : relay.reader.active = false

namespace Awaited

variable {δ : Type} {download : Download} {behind : List Fetch} {relay : Relay}
  {notify : SelectionNotify}

theorem begin (h : Awaited download behind relay) (grow : Incremental.GrowthPolicy) (hint : Nat) :
    Assembling download behind [] { relay with reader := relay.reader.begin grow hint } [] where
  nonempty := List.not_mem_nil
  front := congrArg List.head? h.front
  receipt := by
    rw [show relay.fetches.tail = behind from congrArg List.tail h.front]
    exact ⟨rfl, rfl, List.sublist_append_left _ _⟩
  bridged := h.bridged
  active := rfl
  received := Incremental.Reader.data_begin ..
  names := h.names
  owned := h.owned

theorem readReply (h : Awaited download behind relay) (hreply : relay.Heeds download.fetch notify)
    (hnull : notify.property ≠ .null) :
    (Relay.readReply download.fetch notify : Action δ Relay.Reply).Yields (fun reply after later =>
      download.Over behind later ∨ reply = .pending ∧ Assembling download behind [] after later)
      relay [] := by
  have hwindow : relay.window = download.window := congrArg (·.1) h.names
  have hvocabulary : relay.vocabulary = download.vocabulary := congrArg (·.2.1) h.names
  have hproperty : notify.property = download.atom := by
    have hnamed := hreply.property
    rw [hvocabulary, download.named] at hnamed
    exact (Option.some.inj hnamed).symm
  have hfits : ¬ (notify.requestor ≠ relay.window ∨
      relay.vocabulary.atom? download.fetch.selection ≠ some notify.property) := by
    simp [hreply.requestor, hreply.property]
  refine .current_bind ?_
  dsimp only
  rw [if_neg hnull, if_neg hfits, hwindow, hproperty, hvocabulary]
  refine Relay.ensures_call_bind (fun found => ?_) fun _ => trivial
  by_cases hannounced : ∃ property, found = some property ∧
    property.type = download.vocabulary.incr
  case neg =>
    have hunannounced : download.Disturbs
        ⟨relay, .called (.getProperty download.window download.atom false) found⟩ :=
      .unannounced found rfl fun property hfound htype => hannounced ⟨property, hfound, htype⟩
    exact hunannounced.yields List.not_mem_nil
  case pos =>
    obtain ⟨property, rfl, htype⟩ := hannounced
    dsimp only
    rw [if_pos htype, h.idle, if_neg Bool.false_ne_true]
    rw [Action.ensures_bind, Relay.ensures_remark, Action.ensures_bind, Relay.ensures_update]
    refine Relay.ensures_call_bind (fun _ => ?_) fun _ => trivial
    refine Relay.ensures_call_bind (fun _ => .inr ⟨rfl, ?_⟩) fun _ => trivial
    rw [List.append_assoc, List.append_assoc, List.append_assoc]
    have begun := h.begin Incremental.doubling
      ((property.words?.bind List.head?).getD 0).toNat
    exact begun.keep rfl (begun.receipt.apart (by simp [Download.touches, Download.carries,
      Deed.regards]))

theorem receiveReply (h : Awaited download behind relay)
    (hreply : relay.Heeds download.fetch notify) (hnull : notify.property ≠ .null) :
    (Relay.receiveReply notify : Action δ Unit).Upholds (download.Over behind)
      (download.Proceeds behind) relay [] := by
  refine .current_bind ?_
  rw [h.front]
  rw [Yields, Action.ensures_bind]
  refine Relay.checkReply_of_heeds hreply ?_
  rw [if_pos rfl]
  refine Yields.bind (h.readReply hreply hnull) ?_
  rintro reply after later (hended | ⟨rfl, assembling⟩)
  · exact hended.yields
  · exact .inr (.inl ⟨[], assembling⟩)

theorem handle (h : Awaited download behind relay) (hreply : relay.Heeds download.fetch notify)
    (hnull : notify.property ≠ .null) (content : notify.target ≠ relay.vocabulary.targets) :
    (Relay.handle (.selectionNotify notify) : Action δ Unit).Upholds (download.Over behind)
      (download.Proceeds behind) relay [] := by
  refine .current_bind ?_
  rw [if_neg content]
  refine .current_bind ?_
  split
  case h_1 => exact h.receiveReply hreply hnull
  case h_2 late hfound =>
    have hsame : late.selection = download.fetch.selection := by
      have hanswers := List.find?_some hfound
      simp only [Relay.answers, Bool.and_eq_true, decide_eq_true_eq, hreply.selection,
        Option.some_inj] at hanswers
      exact hanswers.1.symm
    have hfront : relay.fetches.head?.map (·.selection) = some late.selection := by
      rw [h.front, hsame]
      rfl
    refine .update_bind ?_
    rw [if_pos hfront]
    have awaited : Awaited download behind { relay with
        abandoned := relay.abandoned.eraseP (Relay.answers relay.vocabulary notify) } :=
      { h with }
    exact awaited.receiveReply { hreply with } hnull

theorem after [Display δ] {moment : Moment} (h : Awaited download behind moment.relay)
    (hpoll : moment.event? = some (.selectionNotify notify))
    (hreply : moment.relay.Heeds download.fetch notify) (hnull : notify.property ≠ .null)
    (content : notify.target ≠ moment.relay.vocabulary.targets) {display : δ} {course : Course δ}
    (hstart : Course.start display = some course) {moves : List (Move δ)}
    (hfaultless : (course.after moves).history.faultless = true) {before since : History}
    (hsplit : (course.after moves).history = before ++ moment :: since) :
    download.Disturbed since ∨ download.Assembled behind since ∨
      download.Underway behind (course.after moves).relay since := by
  have howned {relay : Relay} {since : History} {selection : Selection}
      (proceeds : download.Proceeds behind relay since)
      (own : relay.slots.owner selection = .agent) :
      download.Over behind since ∨ download.Free selection since := by
    refine .inr ?_
    rcases proceeds with ⟨chunks, assembling⟩ | settled
    · refine .inl ?_
      rintro rfl
      rw [assembling.owned] at own
      cases own
    · exact .inr settled.ended
  rcases Download.kept.after_event howned hpoll rfl (h.handle hreply hnull content) hstart
    hfaultless hsplit with (disturbed | continued) | underway | settled
  · exact .inl disturbed
  · exact .inr (.inl continued.assembled)
  · exact .inr (.inr underway)
  · exact .inr (.inl settled.assembled)

end Awaited

theorem Relay.Heeds.content {relay : Relay} {fetch : Fetch} {notify : SelectionNotify}
    (h : relay.Heeds fetch notify) (happart : relay.TellsApart) {type : ContentType}
    (known : relay.registry.typeFor fetch.target = some type) :
    notify.target ≠ relay.vocabulary.targets := by
  rcases h.target with htarget | htarget
  · rw [htarget]
    exact happart.target_ne_targets known
  · rw [htarget]
    exact happart.incr_ne_targets

namespace Course

variable {δ : Type} [Display δ] {display : δ} {course : Course δ} {moves : List (Move δ)}
  {moment : Moment} {fetch : Fetch} {type : ContentType}

theorem known_of_asks (hstart : start display = some course) (happart : course.relay.TellsApart)
    (hmoment : moment ∈ (course.after moves).history) (hasks : moment.Asks fetch type) :
    course.relay.registry.typeFor fetch.target = some type ∧ type ≠ .none := by
  obtain ⟨hwellFormed, hnames⟩ :=
    wellFormed_at_cue hstart hmoment (Moment.cue_of_question? hasks.question)
  have hregistry : moment.relay.registry = course.relay.registry := congrArg (·.2.2) hnames
  rw [← hregistry]
  exact ⟨hwellFormed.typeFor_of_fetch? (happart.of_names hnames).targets_nodup hasks.accepted,
    hwellFormed.meaningful_of_fetch? hasks.accepted⟩

def storing (chunk : Bytes) : List (Move Memory.Display) :=
  [.elapse {
      properties := { entries := [⟨⟨1⟩, ⟨100⟩, (Content.bytes chunk).toProperty ⟨108⟩⟩] }
      events := [.propertyStored ⟨1⟩ ⟨100⟩] },
    .operate .dispatch]

end Course

end ClipboardRelay
