import ClipboardRelay.Proofs.Booking
/-!
The pipeline of the applications' requests. Main statement: every step of the relay keeps the ledger
booked, from the arrival of a request to its last answer.
-/

namespace ClipboardRelay

namespace Booked

variable {stage next : Stage} {request : DesktopRequest} {rest : List DesktopRequest}
  {selection : Selection} {event : SelectionRequest}

theorem arrived (h : Booked stage)
    (bridged : stage.relay.vocabulary.selection? event.selection = some selection)
    (idle : stage.duty = {})
    (hhistory : next.history = stage.history ++
      [⟨stage.relay, .called .pollEvent (some (.selectionRequest event))⟩])
    (hrelay : next.relay = stage.relay.withRequests (stage.relay.requests ++ [⟨selection, event⟩]))
    (hserve : next.duty.serve = stage.relay.requests.isEmpty) : Booked next := by
  obtain ⟨hledger, htallied⟩ := h.toTallied.arrived bridged hhistory hrelay hserve
  have hwaiting : next.ledger.waiting =
      stage.ledger.waiting ++ [⟨stage.ledger.arrived, event, some selection, [], [], false⟩] := by
    rw [hledger]
    rfl
  refine h.extend hhistory ?_ ?_ htallied ?_ ?_
  · exact History.refusesAtOnce_of_not_foreign (by simp [Moment.foreign?, bridged])
  · simp [Moment.FitsFront, Moment.AskFits, Moment.StoreFits]
  · rw [hwaiting]
    intro ticket hticket
    unfold Stage.Questioned
    rw [hserve, hrelay]
    rcases Ledger.mem_head?_concat hticket with hold | ⟨hempty, rfl⟩
    · obtain ⟨request, rest, hrequests, -⟩ := h.front_of_ticket hold
      have hfirst := h.front ticket hold
      rw [Stage.Questioned, idle] at hfirst
      rw [hrequests]
      exact hfirst
    · have hqueue := h.tallies.queue
      rw [hempty, List.map_nil, eq_comm, List.map_eq_nil_iff] at hqueue
      rw [hqueue]
      rfl
  · rw [hwaiting]
    intro ticket hticket
    rcases Ledger.mem_tail_concat hticket with hold | rfl
    · exact h.behind ticket hold
    · rfl

theorem turnedAway (h : Booked stage) {notice : Notice}
    (foreign : stage.relay.vocabulary.selection? event.selection = none)
    (aside : (Deed.noted notice).isAside = true)
    (hhistory : next.history = stage.history ++
      [⟨stage.relay, .called .pollEvent (some (.selectionRequest event))⟩,
        ⟨stage.relay, .noted notice⟩,
        ⟨stage.relay, .called (.notifyRequestor event Atom.null) ()⟩])
    (hrelay : next.relay = stage.relay) (hduty : next.duty = stage.duty) : Booked next := by
  obtain ⟨hledger, htallied⟩ := h.toTallied.turnedAway foreign aside hhistory hrelay hduty
  rw [Ledger.answer_accept h.tallies.settled] at hledger
  have hnoted : (Moment.mk stage.relay (.noted notice)).foreign? = none :=
    Moment.not_foreign_of_aside aside
  refine h.extend hhistory ⟨?_, ?_, ?_⟩ ?_ htallied ?_ ?_
  · intro other hother
    simp only [Moment.foreign?, foreign, Option.isNone_none, if_true, Option.some.injEq] at hother
    rw [← hother]
    rfl
  · intro other hother
    rw [hnoted] at hother
    cases hother
  · refine ⟨fun other hother => ?_, trivial⟩
    cases hother
  · simp [Moment.FitsFront, Moment.AskFits, Moment.StoreFits]
  · rw [hledger]
    intro ticket hticket
    have hfront := h.front ticket hticket
    unfold Stage.Questioned at hfront ⊢
    rw [hduty, hrelay]
    exact hfront
  · rw [hledger]
    exact h.behind

theorem enterFront (h : Booked stage) {moment : Moment} {ticket : Ticket} {tickets : List Ticket}
    {enter : Ticket → Ticket} (hhistory : next.history = stage.history ++ [moment])
    (hmoment : moment.foreign? = none) (hfits : moment.FitsFront)
    (hwaiting : stage.ledger.waiting = ticket :: tickets)
    (hledger : next.ledger = stage.ledger.onFront enter) (htallied : Tallied next)
    (hfront : next.Questioned (enter ticket)) : Booked next := by
  rw [Ledger.onFront_cons hwaiting] at hledger
  refine h.extend hhistory (History.refusesAtOnce_of_not_foreign (by simpa using hmoment))
    (by simpa using hfits) htallied ?_ ?_
  · rw [hledger]
    intro other hother
    obtain rfl := Option.some.inj hother
    exact hfront
  · have hbehind := h.behind
    rw [hwaiting] at hbehind
    rw [hledger]
    exact hbehind

theorem advance (h : Booked stage) {added : History}
    (hhistory : next.history = stage.history ++ added)
    (hadded : ∀ moment ∈ added, moment.foreign? = none ∧ moment.FitsFront)
    (htallied : Tallied next) (hwaiting : next.ledger.waiting = stage.ledger.waiting.tail)
    (hserve : next.duty.serve = true) : Booked next := by
  refine h.extend hhistory
    (History.refusesAtOnce_of_not_foreign fun moment hmoment => (hadded moment hmoment).1)
    (fun moment hmoment => (hadded moment hmoment).2) htallied ?_ ?_
  · rw [hwaiting]
    intro ticket hticket
    rw [Stage.Questioned, if_pos hserve]
    exact h.behind ticket (List.mem_of_mem_head? hticket)
  · rw [hwaiting]
    exact fun ticket hticket => h.behind ticket (List.mem_of_mem_tail hticket)

theorem asked (h : Booked stage) {type : ContentType} (due : stage.duty.serve = true)
    (front : stage.relay.requests = request :: rest)
    (owned : stage.relay.slots.owner request.selection = .agent)
    (single : request.event.target ≠ stage.relay.vocabulary.multiple)
    (content : request.event.target ≠ stage.relay.vocabulary.targets)
    (known : stage.relay.registry.typeFor request.event.target = some type)
    (hhistory : next.history = stage.history ++
      [⟨stage.relay, .sent (.ask request.selection type)⟩])
    (hrelay : next.relay = stage.relay) (hserve : next.duty.serve = false) : Booked next := by
  obtain ⟨hledger, htallied⟩ := h.toTallied.asked front hhistory hrelay hserve
  obtain ⟨ticket, tickets, hwaiting, hselection, hevent, -⟩ := h.exists_ticket front
  have hfresh := h.front ticket (by rw [hwaiting]; rfl)
  rw [Stage.Questioned, if_pos due] at hfresh
  have hask : (Moment.mk stage.relay (.sent (.ask request.selection type))).AskFits :=
    ⟨request, rest, front, rfl, known, owned⟩
  refine h.enterFront hhistory rfl ⟨hask, trivial⟩ hwaiting hledger htallied ?_
  rw [Stage.Questioned, hserve, hrelay]
  refine ⟨request.selection, type, hselection, ?_, owned, ?_, ?_, ?_⟩
  · rw [Ticket.ask, hfresh]
    rfl
  · exact hevent ▸ single
  · exact hevent ▸ content
  · exact hevent ▸ known

theorem answered (h : Booked stage) {property : Atom}
    (front : stage.relay.requests = request :: rest)
    (free : stage.duty.serve = true ∨ stage.relay.writer = none)
    (hhistory : next.history = stage.history ++
      [⟨stage.relay, .called (.notifyRequestor request.event property) ()⟩])
    (hrelay : next.relay = stage.relay.withRequests rest) (hserve : next.duty.serve = true) :
    Booked next := by
  have hidle := free.elim h.free_of_due id
  obtain ⟨hledger, htallied⟩ := h.toTallied.answered front hidle hhistory hrelay
  have htallies := h.tallies
  rw [front, hidle] at htallies
  refine h.advance hhistory ?_ htallied ?_ hserve
  · simp [Moment.foreign?, Moment.FitsFront, Moment.AskFits, Moment.StoreFits]
  · rw [hledger, htallies.waiting_serve]

theorem announced (h : Booked stage) {data : Bytes}
    (front : stage.relay.requests = request :: rest)
    (served : stage.duty.serve = false) (free : stage.relay.writer = none)
    (hhistory : next.history = stage.history ++
      [⟨stage.relay, .called (.notifyRequestor request.event request.event.replyProperty) ()⟩])
    (hrelay : next.relay = stage.relay.withWriter (some {
      data
      requestor := request.event.requestor
      property := request.event.replyProperty
      target := request.event.target })) (hserve : next.duty.serve = false) : Booked next := by
  obtain ⟨hledger, htallied⟩ := h.toTallied.announced front free hhistory hrelay hserve
  rw [Ledger.answer_of_settled h.tallies.settled] at hledger
  obtain ⟨ticket, tickets, hwaiting, -, -, -⟩ := h.exists_ticket front
  have hasked := h.front ticket (by rw [hwaiting]; rfl)
  refine h.enterFront hhistory rfl ⟨trivial, trivial⟩ hwaiting hledger htallied ?_
  rw [Stage.Questioned, served] at hasked
  rw [Stage.Questioned, hserve, hrelay]
  exact hasked

theorem finished (h : Booked stage) {writer : Incremental.Writer}
    (busy : stage.relay.writer = some writer) (hhistory : next.history = stage.history)
    (hrelay : next.relay = (stage.relay.withWriter none).withRequests stage.relay.requests.tail)
    (hserve : next.duty.serve = true) : Booked next := by
  obtain ⟨hledger, htallied⟩ := h.toTallied.finished busy hhistory hrelay
  obtain ⟨-, request, rest, front, -⟩ := h.writer writer busy
  have htallies := h.tallies
  rw [front, busy] at htallies
  have hnothing : next.history = stage.history ++ [] := by rw [hhistory, List.append_nil]
  refine h.advance hnothing (by simp) htallied ?_ hserve
  rw [hledger, htallies.waiting_finish]

theorem chunkSent (h : Booked stage) {writer : Incremental.Writer} {notice : Notice}
    {type : Atom} {content : Content} (busy : stage.relay.writer = some writer)
    (aside : (Deed.noted notice).isAside = true)
    (hrelay : next.relay = stage.relay.withWriter
      (some (writer.advance stage.relay.propertyLimit)))
    (hhistory : next.history = stage.history ++
      [⟨next.relay, .noted notice⟩,
        ⟨next.relay, .called (.changeProperty writer.requestor writer.property type content) ()⟩])
    (hduty : next.duty = stage.duty) : Booked next := by
  obtain ⟨served, request, rest, front, hrequestor, hproperty, -⟩ := h.writer writer busy
  have hdeeds : next.history = stage.history ++ [Deed.noted notice,
      .called (.changeProperty writer.requestor writer.property type content) ()].map
        (Moment.mk next.relay) := hhistory
  have haside : ∀ deed ∈ [Deed.noted notice,
      .called (.changeProperty writer.requestor writer.property type content) ()],
      deed.isAside = true := by
    simpa [Deed.isAside] using aside
  have same : stage.Alike next := by
    refine ⟨by rw [hduty], ?_, ?_, ?_, fun _ _ => ?_⟩
    all_goals
      rw [hrelay]
      rfl
  refine h.alike hdeeds same haside ?_
    (h.toTallied.chunkSent busy haside hrelay hdeeds (by rw [hduty]; exact id))
  intro deed hdeed
  rcases List.mem_cons.mp hdeed with rfl | hstored
  · trivial
  · obtain rfl := List.mem_singleton.mp hstored
    refine ⟨request, rest, ?_, hrequestor, hproperty, ?_⟩
    · rw [hrelay]
      exact front
    · rw [hrelay]
      exact h.owned front served

theorem dropped (h : Booked stage)
    (hhistory : next.history = stage.history ++ (stage.relay.dropDeeds selection).map
      (Moment.mk (stage.relay.withoutRequests selection)))
    (hdropped : next.ledger = stage.ledger.evict selection stage.relay.writer.isSome ∧
      Tallied next)
    (hfront : ∀ ticket ∈ (stage.ledger.waiting.filter (·.selection ≠ some selection)).head?,
      next.Questioned ticket) : Booked next := by
  obtain ⟨hledger, htallied⟩ := hdropped
  have hmoment {moment : Moment} (hmoment : moment ∈ (stage.relay.dropDeeds selection).map
      (Moment.mk (stage.relay.withoutRequests selection))) :
      moment.foreign? = none ∧ moment.FitsFront := by
    obtain ⟨deed, hdeed, rfl⟩ := List.mem_map.mp hmoment
    rcases List.mem_cons.mp hdeed with rfl | hrefused
    · exact ⟨rfl, trivial, trivial⟩
    · obtain ⟨request, -, rfl⟩ := List.mem_map.mp hrefused
      exact ⟨rfl, trivial, trivial⟩
  refine h.extend hhistory (History.refusesAtOnce_of_not_foreign fun _ added => (hmoment added).1)
    (fun _ added => (hmoment added).2) htallied ?_ ?_
  · rw [hledger]
    exact hfront
  · rw [hledger]
    exact fun ticket hticket => h.behind ticket (List.filter_sublist.tail.subset hticket)

theorem droppedFront (h : Booked stage)
    (active : stage.relay.requests.head?.map (·.selection) = some selection)
    (hhistory : next.history = stage.history ++ (stage.relay.dropDeeds selection).map
      (Moment.mk (stage.relay.withoutRequests selection)))
    (hrelay : next.relay = (stage.relay.withoutRequests selection).withWriter none)
    (hserve : next.duty.serve = true) : Booked next := by
  obtain ⟨request, hrequest, hactive⟩ := Option.map_eq_some_iff.mp active
  obtain ⟨rest, front⟩ := List.head?_eq_some_iff.mp hrequest
  obtain ⟨ticket, tickets, hwaiting, hselection, -, -⟩ := h.exists_ticket front
  refine h.dropped hhistory (h.toTallied.dropped hhistory (by rw [hrelay]; rfl)
    (by rw [hrelay]; rfl) (by rw [if_pos active, hrelay]; rfl) (absurd active)) ?_
  rw [hwaiting, List.filter_cons_of_neg (by simp [hselection, hactive])]
  intro other hother
  rw [Stage.Questioned, if_pos hserve]
  apply h.behind
  rw [hwaiting]
  exact (List.mem_filter.mp (List.mem_of_mem_head? hother)).1

theorem droppedBehind (h : Booked stage)
    (other : stage.relay.requests.head?.map (·.selection) ≠ some selection)
    (hhistory : next.history = stage.history ++ (stage.relay.dropDeeds selection).map
      (Moment.mk (stage.relay.withoutRequests selection)))
    (hrelay : next.relay = stage.relay.withoutRequests selection)
    (hduty : next.duty = stage.duty) : Booked next := by
  refine h.dropped hhistory (h.toTallied.dropped hhistory (by rw [hrelay]) (by rw [hrelay]; rfl)
    (by rw [if_neg other, hrelay]; rfl) fun _ => by rw [hduty]; exact id) ?_
  cases front : stage.relay.requests with
  | nil =>
    rw [h.waiting_of_empty front]
    intro ticket hticket
    cases hticket
  | cons request rest =>
    obtain ⟨ticket, tickets, hwaiting, hselection, -, -⟩ := h.exists_ticket front
    have hasked := h.front ticket (by rw [hwaiting]; rfl)
    rw [front] at other
    rw [hwaiting, List.filter_cons_of_pos (by simpa [hselection] using other)]
    intro first hfirst
    obtain rfl := Option.some.inj hfirst
    unfold Stage.Questioned at hasked ⊢
    rw [hduty, hrelay]
    exact hasked

theorem rested (h : Booked stage) (empty : stage.relay.requests = [])
    (hhistory : next.history = stage.history) (hrelay : next.relay = stage.relay)
    (hserve : next.duty.serve = false) : Booked next := by
  have hnothing : next.history = stage.history ++ [].map (Moment.mk stage.relay) := by
    rw [hhistory, List.map_nil, List.append_nil]
  obtain ⟨hledger, htallied⟩ := h.toTallied.did hnothing (by simp) rfl (by rw [hrelay])
    (by rw [hrelay]) (by rw [hrelay]) fun _ => hserve
  refine h.extend hnothing trivial (by simp) htallied ?_ ?_
  all_goals
    rw [hledger, h.waiting_of_empty empty]
    simp

end Booked

theorem Stage.Alike.of_slots {stage next : Stage} (hserve : next.duty.serve = stage.duty.serve)
    (hrelay : next.relay = stage.relay.withSlots next.relay.slots)
    (howner : ∀ request ∈ stage.relay.requests.head?,
      next.relay.slots.owner request.selection = stage.relay.slots.owner request.selection) :
    stage.Alike next :=
  ⟨hserve, by rw [hrelay]; rfl, by rw [hrelay]; rfl, by rw [hrelay]; rfl, howner⟩

theorem Relay.Clear.owner_setHolder {relay : Relay} {selection : Selection}
    (clear : relay.Clear selection) (holder : Holder) :
    ∀ request ∈ relay.requests.head?,
      (relay.slots.setHolder selection holder).owner request.selection =
        relay.slots.owner request.selection := by
  intro request hrequest
  have hother := clear.1 request (List.mem_of_mem_head? hrequest)
  rw [Slots.owner, Slots.holder_setHolder, if_neg (Ne.symm hother), Slots.owner]

theorem Step.booked {stage next : Stage} (step : Step stage next) (h : Booked stage) :
    Booked next := by
  cases step with
  | plain deed plain =>
    exact h.aside rfl ⟨rfl, rfl, rfl, rfl, fun _ _ => rfl⟩ rfl rfl
      (by simpa using Moment.isAside_of_plain plain)
      (by simpa using Moment.storeFits_of_plain plain)
  | decline operation selection type remark asks declined plain =>
    have haside := Moment.isAside_of_plain plain
    refine h.aside rfl ⟨rfl, rfl, rfl, rfl, fun _ _ => rfl⟩ rfl rfl ?_
      (by simp [Moment.StoreFits])
    simpa [Deed.isAside, Wire.Message.noData] using haside
  | report | queueFetch | startFetch | promise =>
    exact h.aside rfl ⟨rfl, rfl, rfl, rfl, fun _ _ => rfl⟩ rfl rfl (by simp [Deed.isAside])
      (by simp [Moment.StoreFits])
  | await atom selection named vacant idle =>
    refine h.aside rfl (.of_slots rfl rfl fun request _ => ?_) rfl rfl (by simp [Deed.isAside])
      (by simp [Moment.StoreFits])
    exact congrArg Holder.owner (Slots.holder_await _ _ _)
  | claim selection property words notices idle current free content known plain =>
    refine h.aside rfl (.of_slots rfl rfl fun request _ => ?_) rfl rfl
      (Deed.isAside_claiming plain) (by simp [Moment.StoreFits, or_imp, forall_and])
    exact congrArg Holder.owner (Slots.holder_arrive _ _ _)
  | dropFetches =>
    dsimp only
    split <;> exact h.aside rfl ⟨rfl, rfl, rfl, rfl, fun _ _ => rfl⟩ rfl rfl
      (by simp [Deed.isAside, Wire.Message.noData, or_imp, forall_and])
      (by simp [Moment.StoreFits, or_imp, forall_and])
  | finishFetch data fetch rest front started =>
    refine h.aside rfl ⟨rfl, rfl, rfl, rfl, fun _ _ => rfl⟩ rfl rfl
      (Relay.isAside_finishing _ fetch data) ?_
    split <;> simp [Moment.StoreFits]
  | skipStart | forget | read => exact h.silently rfl ⟨rfl, rfl, rfl, rfl, fun _ _ => rfl⟩ rfl
  | countOff selection =>
    refine h.silently rfl (.of_slots rfl rfl fun request _ => ?_) rfl
    exact congrArg Holder.owner (Slots.holder_arrive _ _ _)
  | surrender selection clear idle =>
    refine h.aside rfl (.of_slots rfl rfl (clear.owner_setHolder _)) rfl rfl ?_ ?_
    · split <;> simp [Deed.isAside]
    · split <;> simp [Moment.StoreFits]
  | install selection holder clear owed =>
    exact h.silently rfl (.of_slots (by rw [owed]; rfl) rfl (clear.owner_setHolder _)) rfl
  | arrive event selection bridged idle => exact h.arrived bridged idle rfl rfl (by rfl)
  | turnAway event foreign => exact h.turnedAway foreign rfl rfl rfl rfl
  | ask request rest type due front owned single content known =>
    exact h.asked due front owned single content known rfl rfl rfl
  | store request rest type content front owned =>
    refine h.aside rfl ⟨rfl, rfl, rfl, rfl, fun _ _ => rfl⟩ rfl rfl (by simp [Deed.isAside]) ?_
    intro deed hdeed
    obtain rfl := List.mem_singleton.mp hdeed
    exact ⟨request, rest, front, rfl, rfl, owned.elim (h.owned front) id⟩
  | settle request rest property front free reply => exact h.answered front free rfl rfl rfl
  | announce request rest data front served free => exact h.announced front served free rfl rfl served
  | chunk writer busy served more => exact h.chunkSent busy rfl rfl rfl rfl
  | lastChunk writer busy served done =>
    -- The empty chunk is stored while the transfer is still under way.
    have sent : Booked ((stage.become (stage.relay.withWriter
        (some (writer.advance stage.relay.propertyLimit)))).did
          [.noted (.sendingDone writer.data.length),
            .called (.changeProperty writer.requestor writer.property writer.target
              (.bytes (writer.chunk stage.relay.propertyLimit))) ()]) :=
      h.chunkSent busy rfl rfl rfl rfl
    exact sent.finished rfl rfl rfl rfl
  | dropRequests selection found served =>
    dsimp only
    split
    case isTrue active => exact h.droppedFront active rfl rfl rfl
    case isFalse other => exact h.droppedBehind other rfl rfl rfl
  | rest due empty => exact h.rested empty rfl rfl rfl

end ClipboardRelay
