import ClipboardRelay.Proofs.Filing
/-!
The ledger of the requests in runs in which calls may fail. It leaves out the requests for
selections that are not kept in step. A request that could not be answered stays at the head of the
queue, so the ledger agrees with the queue all the same. Main statement: every step of the relay
keeps them in agreement, and so does every call that fails, unless a request was taken out of the
queue and could not be refused.
-/

namespace ClipboardRelay

/-- Whether a moment concerns no request for a selection that is not kept in step. -/
def Moment.isBridged (moment : Moment) : Bool :=
  match moment.deed with
  | .called .pollEvent (some (.selectionRequest event)) | .called (.notifyRequestor event _) _ =>
    (moment.relay.vocabulary.selection? event.selection).isSome
  | _ => true

/-- Whether a request that was taken out of the queue could not be refused. -/
def Moment.forsakes (moment : Moment) : Bool :=
  match moment.deed with
  | .failed (.notifyRequestor event _) _ =>
    (moment.relay.vocabulary.selection? event.selection).any fun selection =>
      ⟨selection, event⟩ ∉ moment.relay.requests
  | _ => false

theorem Moment.bridged_of_aside {moment : Moment} (h : moment.deed.isAside = true) :
    moment.isBridged = true := by
  unfold isBridged
  split
  case h_1 hdeed | h_2 hdeed =>
    rw [hdeed] at h
    cases h
  case h_3 => rfl

/-- What was done for the requests for selections that are kept in step, and besides requests. -/
def History.bridged (history : History) : History :=
  history.filter Moment.isBridged

namespace History

@[simp] theorem bridged_append (first second : History) :
    (first ++ second).bridged = first.bridged ++ second.bridged :=
  List.filter_append _ _

theorem bridged_eq_self {history : History} (h : ∀ moment ∈ history, moment.isBridged = true) :
    history.bridged = history :=
  List.filter_eq_self.mpr h

theorem isBridged_of_aside {relay : Relay} {deeds : List Deed}
    (aside : ∀ deed ∈ deeds, deed.isAside = true) :
    ∀ moment ∈ deeds.map (Moment.mk relay), moment.isBridged = true :=
  List.forall_mem_map.mpr fun deed hdeed => Moment.bridged_of_aside (aside deed hdeed)

end History

def Stage.bridged (stage : Stage) : Stage :=
  { stage with history := stage.history.bridged }

theorem Stage.bridged_extend {stage next : Stage} {added : History}
    (hhistory : next.history = stage.history ++ added)
    (hadded : ∀ moment ∈ added, moment.isBridged = true) :
    next.bridged.history = stage.bridged.history ++ added := by
  rw [← History.bridged_eq_self hadded]
  exact (congrArg History.bridged hhistory).trans (History.bridged_append _ _)

theorem Stage.bridged_concat {stage next : Stage} {moment : Moment}
    (hhistory : next.history = stage.history ++ [moment]) (hmoment : moment.isBridged = true) :
    next.bridged.history = stage.bridged.history ++ [moment] :=
  Stage.bridged_extend hhistory (List.forall_mem_singleton.mpr hmoment)

namespace Tallied

variable {stage next : Stage}

theorem beside (h : Tallied stage.bridged) {relay : Relay} {deeds : List Deed}
    (hhistory : next.history = stage.history ++ deeds.map (Moment.mk relay))
    (aside : ∀ deed ∈ deeds, deed.isAside = true)
    (hrelay : relay.writer = stage.relay.writer) (hwriter : next.relay.writer = stage.relay.writer)
    (hrequests : next.relay.requests = stage.relay.requests)
    (hvocabulary : next.relay.vocabulary = stage.relay.vocabulary)
    (hserve : stage.duty.serve = false → next.duty.serve = false) : Tallied next.bridged :=
  (h.did (Stage.bridged_extend hhistory (History.isBridged_of_aside aside)) aside hrelay hwriter
    hrequests hvocabulary hserve).2

theorem silently (h : Tallied stage.bridged) (hhistory : next.history = stage.history)
    (hwriter : next.relay.writer = stage.relay.writer)
    (hrequests : next.relay.requests = stage.relay.requests)
    (hvocabulary : next.relay.vocabulary = stage.relay.vocabulary)
    (hserve : stage.duty.serve = false → next.duty.serve = false) : Tallied next.bridged :=
  h.beside (show next.history = stage.history ++ [].map (Moment.mk stage.relay) by
    simpa using hhistory) (by simp) rfl hwriter hrequests hvocabulary hserve

theorem passedOver (h : Tallied stage.bridged) {event : SelectionRequest} (deeds : List Deed)
    (foreign : stage.relay.vocabulary.selection? event.selection = none)
    (hhistory : next.history = stage.history ++
      ([⟨stage.relay, .called .pollEvent (some (.selectionRequest event))⟩,
        ⟨stage.relay, .noted (.requestForUnknownSelection event.selection)⟩] ++
          deeds.map (Moment.mk stage.relay)))
    (hdeeds : ∀ deed ∈ deeds, deed.isAside = true ∨ (Moment.mk stage.relay deed).isBridged = false)
    (hrelay : next.relay = stage.relay)
    (hserve : stage.duty.serve = false → next.duty.serve = false) : Tallied next.bridged := by
  have hbridged : next.bridged.history = stage.bridged.history ++
      (.noted (.requestForUnknownSelection event.selection) ::
        deeds.filter fun deed => (Moment.mk stage.relay deed).isBridged).map
          (Moment.mk stage.relay) := by
    refine (congrArg History.bridged hhistory).trans ?_
    rw [History.bridged_append, History.bridged_append]
    simp [Stage.bridged, History.bridged, Moment.isBridged, foreign, List.filter_cons,
      List.filter_map, Function.comp_def]
  refine (h.did hbridged ?_ rfl (congrArg Relay.writer hrelay) (congrArg Relay.requests hrelay)
    (congrArg Relay.vocabulary hrelay) hserve).2
  refine List.forall_mem_cons.mpr ⟨rfl, fun deed hdeed => ?_⟩
  obtain ⟨hdeed, hkept⟩ := List.mem_filter.mp hdeed
  refine (hdeeds deed hdeed).resolve_right fun hforeign => ?_
  rw [hforeign] at hkept
  cases hkept

theorem sentOn (h : Tallied stage.bridged) {writer : Incremental.Writer} {deeds : List Deed}
    (busy : stage.relay.writer = some writer) (aside : ∀ deed ∈ deeds, deed.isAside = true)
    (hrelay : next.relay = stage.relay.withWriter
      (some (writer.advance stage.relay.propertyLimit)))
    (hhistory : next.history = stage.history ++ deeds.map (Moment.mk next.relay))
    (hserve : stage.duty.serve = false → next.duty.serve = false) : Tallied next.bridged :=
  And.right (h.chunkSent busy aside hrelay
    (Stage.bridged_extend hhistory (History.isBridged_of_aside aside)) hserve)

theorem selection_of_mem (h : Tallied stage.bridged) {request : DesktopRequest}
    (hrequest : request ∈ stage.relay.requests) :
    stage.relay.vocabulary.selection? request.event.selection = some request.selection :=
  h.tallies.selection_of_mem hrequest

theorem isBridged_dropDeeds (h : Tallied stage.bridged) (selection : Selection) :
    ∀ moment ∈ (stage.relay.dropDeeds selection).map
      (Moment.mk (stage.relay.withoutRequests selection)), moment.isBridged = true := by
  refine List.forall_mem_map.mpr (List.forall_mem_cons.mpr
    ⟨rfl, List.forall_mem_map.mpr fun request hrequest => ?_⟩)
  exact Option.isSome_of_eq_some (h.selection_of_mem (List.mem_of_mem_filter hrequest))

end Tallied

/-- Every step keeps the ledger in agreement with the queue. -/
theorem Step.tallied {stage next : Stage} (step : Step stage next) (h : Tallied stage.bridged) :
    Tallied next.bridged := by
  cases step with
  | plain deed plain =>
    exact h.beside rfl (by simpa using Moment.isAside_of_plain plain) rfl rfl rfl rfl id
  | decline operation selection type remark asks declined plain =>
    refine h.beside rfl ?_ rfl rfl rfl rfl id
    simpa [Deed.isAside, Wire.Message.noData] using Moment.isAside_of_plain plain
  | report | queueFetch | startFetch | promise | await | store =>
    exact h.beside rfl (by simp [Deed.isAside]) rfl rfl rfl rfl id
  | claim selection property words notices idle current free content known plain =>
    exact h.beside rfl (Deed.isAside_claiming plain) rfl rfl rfl rfl id
  | dropFetches =>
    dsimp only
    split <;> exact h.beside rfl (by simp [Deed.isAside, Wire.Message.noData, or_imp, forall_and])
      rfl rfl rfl rfl id
  | finishFetch data fetch rest front started =>
    exact h.beside rfl (Relay.isAside_finishing _ fetch data) rfl rfl rfl rfl id
  | surrender selection clear idle =>
    refine h.beside rfl ?_ rfl rfl rfl rfl id
    split <;> simp [Deed.isAside]
  | skipStart | forget | read | countOff => exact h.silently rfl rfl rfl rfl id
  | install | rest => exact h.silently rfl rfl rfl rfl fun _ => rfl
  | arrive event selection named idle => 
    exact And.right (h.arrived named
      (Stage.bridged_concat rfl (Option.isSome_of_eq_some named)) rfl rfl)
  | turnAway event foreign =>
    refine h.passedOver [.called (.notifyRequestor event Atom.null) ()] foreign rfl ?_ rfl id
    simp [Moment.isBridged, foreign]
  | ask request rest type due front =>
    exact And.right (h.asked front (Stage.bridged_concat rfl rfl) rfl rfl)
  | settle request rest property front free reply =>
    have hnamed := h.selection_of_mem (front ▸ List.mem_cons_self)
    exact And.right (h.answered front (free.elim h.free_of_due id)
      (Stage.bridged_concat rfl (Option.isSome_of_eq_some hnamed)) rfl)
  | announce request rest data front served free =>
    have hnamed := h.selection_of_mem (front ▸ List.mem_cons_self)
    exact And.right (h.announced front free
      (Stage.bridged_concat rfl (Option.isSome_of_eq_some hnamed)) rfl served)
  | chunk writer busy served more => exact h.sentOn busy (by simp [Deed.isAside]) rfl rfl id
  | lastChunk writer busy served done =>
    -- The empty chunk is stored while the transfer is still under way.
    have sent : Tallied ((stage.become (stage.relay.withWriter
        (some (writer.advance stage.relay.propertyLimit)))).did
          [.noted (.sendingDone writer.data.length),
            .called (.changeProperty writer.requestor writer.property writer.target
              (.bytes (writer.chunk stage.relay.propertyLimit))) ()]).bridged :=
      h.sentOn busy (by simp [Deed.isAside]) rfl rfl id
    exact And.right (sent.finished rfl rfl rfl)
  | dropRequests selection found served =>
    dsimp only
    split
    case isTrue active =>
      exact And.right (h.dropped (Stage.bridged_extend rfl (h.isBridged_dropDeeds selection)) rfl
        rfl (if_pos active).symm (absurd active))
    case isFalse other =>
      exact And.right (h.dropped (Stage.bridged_extend rfl (h.isBridged_dropDeeds selection)) rfl
        rfl (if_neg other).symm fun _ => id)

/-- So does a call that fails, unless it was to refuse a request that is in the queue no more. -/
theorem Break.tallied {stage next : Stage} (broke : Break stage next) (h : Tallied stage.bridged)
    (hkept : ∀ moment ∈ next.history, moment.forsakes = false) : Tallied next.bridged := by
  cases broke with
  | call asked fault => exact h.beside rfl (by simp [Deed.isAside]) rfl rfl rfl rfl fun _ => rfl
  | turnAway event fault foreign =>
    refine h.passedOver [.failed (.notifyRequestor event Atom.null) fault] foreign rfl ?_ rfl
      fun _ => rfl
    simp [Deed.isAside]
  | dropRequests selection told untold request fault found =>
    have hrequest : request ∈ stage.relay.requestsOf selection := by simp [found]
    obtain ⟨hmem, hselection⟩ := List.mem_filter.mp hrequest
    have hnamed := h.selection_of_mem hmem
    have hforsaken := hkept ⟨stage.relay.withoutRequests selection,
      .failed (.notifyRequestor request.event Atom.null) fault⟩
      (by simp [Stage.did, Stage.due, Stage.become])
    simp only [Moment.forsakes, Relay.withoutRequests, Relay.withRequests, hnamed] at hforsaken
    simp [of_decide_eq_true hselection] at hforsaken
  | chunk writer notice fault busy plain =>
    refine h.sentOn busy ?_ rfl rfl fun _ => rfl
    simpa [Deed.isAside] using Moment.isAside_of_plain plain
  | startFetch fetch rest atom fault front =>
    exact h.beside rfl (by simp [Deed.isAside]) rfl rfl rfl rfl fun _ => rfl

end ClipboardRelay
