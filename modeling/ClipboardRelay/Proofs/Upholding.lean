import ClipboardRelay.Proofs.Accounting
import ClipboardRelay.Proofs.Sparing
/-!
What every event and every operation upholds. An operation is made of a few parts, and between them
the relay is at rest. Main statement: what each part upholds at rest holds after every run in which
no call fails, and whenever an event was polled.
-/

namespace ClipboardRelay

def Event.isIdle : Event → Bool
  | rootResized _ | protocolError _ | other _ | selectionCleared _ | mappingChanged => true
  | _ => false

def Moment.isIdle (moment : Moment) : Bool :=
  match moment.deed with
  | .began _ => moment.accepted?.isNone
  | .called .pollEvent event => event.all Event.isIdle
  | .called (.setSelectionOwner ..) _ | .called .flush _ | .called .sync _
  | .called .screenSizes _ | .called (.setScreenSize _) _
  | .sent (.resolution ..) | .sent (.data _ .none []) => true
  | .noted (.about _ (.fetchesDropped _)) => false
  | .noted _ => true
  | _ => false

def Moment.isStill (moment : Moment) : Bool :=
  match moment.deed with
  | .began operation => operation.question?.isNone
  | .sent (.data ..) => false
  | _ => moment.isIdle

theorem Moment.idle_of_still {moment : Moment} (h : moment.isStill = true) :
    moment.isIdle = true := by
  unfold isStill at h
  split at h
  case h_1 operation hdeed =>
    have hnone : moment.accepted? = none := by
      simp [Moment.accepted?, hdeed, Option.isNone_iff_eq_none.mp h]
    simp [isIdle, hdeed, hnone]
  case h_2 => cases h
  case h_3 => exact h

def History.events (history : History) : List Event :=
  history.filterMap Moment.event?

@[simp] theorem History.events_append (first second : History) :
    (first ++ second).events = first.events ++ second.events :=
  List.filterMap_append

theorem Moment.idle_of_polled {moment : Moment} {event : Event} (h : moment.isIdle = true)
    (hpoll : moment.event? = some event) : event.isIdle = true := by
  rw [Moment.eq_polled hpoll] at h
  exact h

theorem Moment.event?_of_not_poll {moment : Moment} (h : moment.deed.isPoll = false) :
    moment.event? = none := by
  unfold event?
  split
  case h_1 hdeed =>
    rw [hdeed] at h
    cases h
  case h_2 => rfl

theorem History.events_quiet {history : History}
    (h : ∀ moment ∈ history, moment.deed.isPoll = false) : history.events = [] :=
  List.filterMap_eq_nil_iff.mpr fun moment hmoment => Moment.event?_of_not_poll (h moment hmoment)

def AtPoll (holds : Relay → History → Prop) (before : History) (moment : Moment) : Prop :=
  moment.event?.isSome = true → holds moment.relay before

namespace Action

variable {δ α β : Type}

theorem Yields.mono {post weaker : α → Relay → History → Prop} {action : Action δ α}
    {relay : Relay} {history : History} (h : action.Yields post relay history)
    (hpost : ∀ value relay history, post value relay history → weaker value relay history) :
    action.Yields weaker relay history :=
  Ensures.mono h hpost fun _ _ h => h

theorem Yields.bind {middle : α → Relay → History → Prop} {post : β → Relay → History → Prop}
    {first : Action δ α} {rest : α → Action δ β} {relay : Relay} {history : History}
    (hfirst : first.Yields middle relay history)
    (hrest : ∀ value relay history, middle value relay history →
      (rest value).Yields post relay history) :
    (first >>= rest).Yields post relay history := by
  rw [Yields, ensures_bind]
  exact hfirst.mono hrest

theorem Yields.current_bind {post : α → Relay → History → Prop} {rest : Relay → Action δ α}
    {relay : Relay} {history : History} (hrest : (rest relay).Yields post relay history) :
    (Relay.current >>= rest : Action δ α).Yields post relay history := by
  rw [Yields, ensures_bind, Relay.ensures_current]
  exact hrest

theorem Yields.update_bind {post : α → Relay → History → Prop} {change : Relay → Relay}
    {rest : Unit → Action δ α} {relay : Relay} {history : History}
    (hrest : (rest ()).Yields post (change relay) history) :
    (Relay.update change >>= rest : Action δ α).Yields post relay history := by
  rw [Yields, ensures_bind, Relay.ensures_update]
  exact hrest

theorem Yields.and {post other : α → Relay → History → Prop} {action : Action δ α}
    {relay : Relay} {history : History} (h : action.Yields post relay history)
    (hother : action.Yields other relay history) :
    action.Yields (fun value relay history => post value relay history ∧
      other value relay history) relay history :=
  (Ensures.and h hother).mono (fun _ _ _ hboth => hboth) fun _ _ _ => trivial

/-- Whether an action upholds what holds at rest, unless the history comes to excuse it. -/
abbrev Upholds (excused : History → Prop) (holds : Relay → History → Prop)
    (action : Action δ α) : Relay → History → Prop :=
  action.Yields fun _ relay history => excused history ∨ holds relay history

namespace Upholds

variable {excused : History → Prop} {holds : Relay → History → Prop} {relay : Relay}
  {history : History}

theorem always {action : Action δ α} (h : action.Upholds excused holds relay history)
    (hpolled : history.Always (AtPoll holds))
    (hspares : action.Spares Relay.setting Deed.isHandling) :
    action.Upholds excused (fun relay history => holds relay history ∧
      history.Always (AtPoll holds)) relay history := by
  have hquiet : action.Yields (fun _ _ history => history.Always (AtPoll holds)) relay
      history := by
    refine hspares.yields fun _ _ added _ hadded => hpolled.append fun moment hmoment before
      hpoll => ?_
    rw [moment.event?_of_not_poll (Deed.not_poll_of_handling (hadded moment hmoment))] at hpoll
    cases hpoll
  exact (h.and hquiet).mono fun _ _ _ hboth => hboth.1.imp_right fun hholds => ⟨hholds, hboth.2⟩

end Upholds

end Action

open ClipboardRelay.Action (Upholds)
open Relay

theorem Relay.drain_yields {δ : Type} {holds : Relay → History → Prop}
    (hflushed : ∀ relay history, holds relay history →
      holds relay (history ++ [⟨relay, .called .flush ()⟩]))
    (hfinished : ∀ relay history, holds relay history →
      holds relay (history ++ [⟨relay, .called .pollEvent none⟩]))
    (hhandled : ∀ event relay history, holds relay history →
      (handle event : Action δ Unit).Yields (fun _ => holds) relay
        (history ++ [⟨relay, .called .pollEvent (some event)⟩]))
    (fuel : Nat) {relay : Relay} {history : History} (h : holds relay history) :
    (drain fuel : Action δ Unit).Yields (fun _ => holds) relay history := by
  induction fuel generalizing relay history with
  | zero => exact h
  | succ fuel ih =>
    refine ensures_call_bind (fun _ => ?_) fun _ => trivial
    have flushed := hflushed relay history h
    refine ensures_call_bind (fun event => ?_) fun _ => trivial
    cases event with
    | none => exact hfinished _ _ flushed
    | some event => exact Action.Yields.bind (hhandled event _ _ flushed) fun _ _ _ => ih

theorem Relay.handle_quiet {δ : Type} {relay : Relay} {history : History} (event : Event) :
    (handle event : Action δ Unit).Yields (fun _ _ later => ∃ added, later = history ++ added ∧
      added.events = []) relay history :=
  (handle_spares event).yields fun _ _ added _ hadded => ⟨added, rfl, History.events_quiet
    fun moment hmoment => Deed.not_poll_of_handling (hadded moment hmoment)⟩

theorem Relay.changeHolder_yields {δ σ : Type} {kept : Relay → σ} {apart : Deed → Bool}
    {relay : Relay} {history : History} {selection : Selection} (holder : Holder)
    (hrequests : (dropRequests selection : Action δ Unit).Yields
      (fun _ => Spared kept apart relay history) relay history)
    (hfetches : (dropFetches selection : Action δ Unit).Spares kept apart)
    (hrelease : apart (.sent (.release selection)) = true) :
    (changeHolder selection holder : Action δ Unit).Yields (fun _ after later =>
      (∃ last : Relay, kept last = kept relay ∧
        after = { last with slots := last.slots.setHolder selection holder }) ∧
      ∃ added, later = history ++ added ∧ ∀ moment ∈ added, apart moment.deed = true)
      relay history := by
  refine Action.Yields.bind hrequests fun _ middle later spared => ?_
  have hfetched : Action.Yields (fun _ => Spared kept apart relay history)
      (dropFetches selection : Action δ Unit) middle later := hfetches.yields_spared spared
  refine hfetched.bind fun _ last later spared => .current_bind (.update_bind ?_)
  obtain ⟨added, rfl, hadded⟩ := spared.deeds
  split
  · refine ⟨⟨last, spared.kept, rfl⟩, added ++ [⟨_, .sent (.release selection)⟩],
      List.append_assoc .., ?_⟩
    simpa [or_imp, forall_and, hrelease] using hadded
  · exact ⟨⟨last, spared.kept, rfl⟩, added, rfl, hadded⟩

def Operation.Changes (operation : Operation) (selection : Selection) : Prop :=
  match operation with
  | grab taken _ | release taken | fulfil (.grab taken _) | fulfil (.release taken) =>
    taken = selection
  | shutdown => selection ≠ .secondary
  | _ => False

/-- What every part of an operation keeps. The holder changes of `free` selections only, unless the
history comes to excuse it. -/
structure Kept (δ : Type) [Display δ] (free : Selection → History → Prop)
    (excused : History → Prop) (holds : Relay → History → Prop) : Prop where
  lasting : ∀ {history} added, excused history → excused (history ++ added)
  waits : ∀ {selection history added}, (∀ moment ∈ added, moment.deed.isPoll = false) →
    free selection history → excused (history ++ added) ∨ free selection (history ++ added)
  /-- One that the agent owns after events were handled stays free too. -/
  resumes : ∀ {relay selection history added}, free selection history →
    holds relay (history ++ added) → relay.slots.owner selection = .agent →
    excused (history ++ added) ∨ free selection (history ++ added)
  seizes : ∀ {relay history operation selection}, operation.Changes selection →
    holds relay history → excused (history ++ [⟨relay, .began operation⟩]) ∨
      free selection (history ++ [⟨relay, .began operation⟩])
  still : ∀ {relay history deed}, (Moment.mk relay deed).isStill = true → holds relay history →
    holds relay (history ++ [⟨relay, deed⟩])
  resized : ∀ {relay history} size, holds relay history → holds (relay.withSize size) history
  declines : ∀ {relay history operation selection type what},
    operation.question? = some (selection, type) → relay.fetch? selection type = none →
    (Moment.mk relay (.noted (.about selection what))).isStill = true → holds relay history →
    holds relay (history ++ [⟨relay, .began operation⟩, ⟨relay, .noted (.about selection what)⟩,
      ⟨relay, .sent (.noData selection)⟩])
  queues : ∀ {relay history operation fetch},
    (Moment.mk relay (.began operation)).accepted? = some fetch → holds relay history →
    (queueFetch fetch : Action δ Unit).Upholds excused holds relay
      (history ++ [⟨relay, .began operation⟩])
  changes : ∀ {relay history selection} holder, free selection history → holds relay history →
    (changeHolder selection holder : Action δ Unit).Upholds excused holds relay history
  supplies : ∀ {relay history operation selection type data},
    operation = .supply selection type data ∨ operation = .fulfil (.data selection type data) →
    holds relay history →
    (deliver selection type data : Action δ Unit).Upholds excused holds relay
      (history ++ [⟨relay, .began operation⟩])
  handles : ∀ {relay history event}, event.isIdle = false → holds relay history →
    (handle event : Action δ Unit).Upholds excused holds relay
      (history ++ [⟨relay, .called .pollEvent (some event)⟩])

namespace Kept

variable {δ : Type} [Display δ] {free : Selection → History → Prop} {excused : History → Prop}
  {holds : Relay → History → Prop} {relay : Relay} {history : History}

theorem excuses {α : Type} (h : Kept δ free excused holds) {action : Action δ α}
    (hexcused : excused history) : action.Upholds excused holds relay history :=
  action.spares_begun.yields fun _ _ added _ _ => .inl (h.lasting added hexcused)

theorem part {α : Type} (h : Kept δ free excused holds) {action : Action δ α} {begun : History}
    (hrest : excused history ∨ holds relay history)
    (hpart : holds relay history → action.Upholds excused holds relay (history ++ begun)) :
    action.Upholds excused holds relay (history ++ begun) :=
  hrest.elim (fun hexcused => h.excuses (h.lasting begun hexcused)) hpart

theorem did (h : Kept δ free excused holds) (deed : Deed)
    (hstill : (Moment.mk relay deed).isStill = true)
    (hrest : excused history ∨ holds relay history) :
    excused (history ++ [⟨relay, deed⟩]) ∨ holds relay (history ++ [⟨relay, deed⟩]) :=
  hrest.imp (h.lasting _) (h.still hstill)

theorem call_bind {α : Type} (h : Kept δ free excused holds) {asked : Call}
    {rest : asked.Answer → Action δ α} (hrest : excused history ∨ holds relay history)
    (hstill : ∀ answer, (Moment.mk relay (.called asked answer)).isStill = true)
    (hnext : ∀ answer, excused (history ++ [⟨relay, .called asked answer⟩]) ∨
      holds relay (history ++ [⟨relay, .called asked answer⟩]) →
      (rest answer).Upholds excused holds relay (history ++ [⟨relay, .called asked answer⟩])) :
    (call asked >>= rest : Action δ α).Upholds excused holds relay history :=
  ensures_call_bind (fun answer => hnext answer (h.did _ (hstill answer) hrest)) fun _ => trivial

theorem handled (h : Kept δ free excused holds) (event : Event)
    (hrest : excused history ∨ holds relay history) :
    (handle event : Action δ Unit).Upholds excused holds relay
      (history ++ [⟨relay, .called .pollEvent (some event)⟩]) := by
  cases event with
  | ownerChanged | selectionNotify | selectionRequest | propertyStored | propertyDeleted =>
    exact h.part hrest (h.handles rfl)
  | rootResized size =>
    have hpolled := h.did (.called .pollEvent (some (.rootResized size))) rfl hrest
    refine .current_bind ?_
    split
    · exact hpolled
    · exact h.did _ rfl (hpolled.imp_right (h.resized size))
  | protocolError text => exact h.did _ rfl (h.did _ rfl hrest)
  | other kind => exact h.did _ rfl (h.did _ rfl hrest)
  | selectionCleared selection => exact h.did _ rfl hrest
  | mappingChanged => exact h.did _ rfl hrest

theorem drain (h : Kept δ free excused holds) (fuel : Nat)
    (hrest : excused history ∨ holds relay history) :
    (Relay.drain fuel : Action δ Unit).Upholds excused holds relay history :=
  Relay.drain_yields (fun _ _ => h.did (.called .flush ()) rfl)
    (fun _ _ => h.did (.called .pollEvent none) rfl) (fun event _ _ => h.handled event) fuel hrest

theorem dispatch (h : Kept δ free excused holds) (hrest : excused history ∨ holds relay history) :
    (Relay.dispatch : Action δ Unit).Upholds excused holds relay history :=
  fun _ => h.drain _ hrest

abbrev Ready (free : Selection → History → Prop) (excused : History → Prop)
    (holds : Relay → History → Prop) (selection : Selection) (relay : Relay)
    (history : History) : Prop :=
  excused history ∨ free selection history ∧ holds relay history

variable {selection : Selection}

theorem ready_quietly (h : Kept δ free excused holds) {after : Relay} {added : History}
    (hquiet : ∀ moment ∈ added, moment.deed.isPoll = false)
    (hready : Ready free excused holds selection relay history)
    (hafter : excused (history ++ added) ∨ holds after (history ++ added)) :
    Ready free excused holds selection after (history ++ added) := by
  rcases hready with hexcused | ⟨hfree, -⟩
  · exact .inl (h.lasting added hexcused)
  rcases hafter with hexcused | hholds
  · exact .inl hexcused
  · exact (h.waits hquiet hfree).imp_right fun hfree => ⟨hfree, hholds⟩

theorem ready_resumed (h : Kept δ free excused holds) {after : Relay} {added : History}
    (hready : Ready free excused holds selection relay history)
    (hafter : excused (history ++ added) ∨ holds after (history ++ added))
    (hown : after.slots.owner selection = .agent) :
    Ready free excused holds selection after (history ++ added) := by
  rcases hready with hexcused | ⟨hfree, -⟩
  · exact .inl (h.lasting added hexcused)
  rcases hafter with hexcused | hholds
  · exact .inl hexcused
  · exact (h.resumes hfree hholds hown).imp_right fun hfree => ⟨hfree, hholds⟩

theorem ready_did (h : Kept δ free excused holds) (deed : Deed)
    (hstill : (Moment.mk relay deed).isStill = true) (hquiet : deed.isPoll = false)
    (hready : Ready free excused holds selection relay history) :
    Ready free excused holds selection relay (history ++ [⟨relay, deed⟩]) :=
  h.ready_quietly (List.forall_mem_singleton.mpr hquiet) hready
    (h.did deed hstill (hready.imp_right And.right))

theorem ready_call_bind {α : Type} (h : Kept δ free excused holds) {asked : Call}
    {rest : asked.Answer → Action δ α} (hready : Ready free excused holds selection relay history)
    (hstill : ∀ answer, (Moment.mk relay (.called asked answer)).isStill = true)
    (hquiet : ∀ answer, (Deed.called asked answer).isPoll = false)
    (hnext : ∀ answer, Ready free excused holds selection relay
      (history ++ [⟨relay, .called asked answer⟩]) →
      (rest answer).Upholds excused holds relay (history ++ [⟨relay, .called asked answer⟩])) :
    (call asked >>= rest : Action δ α).Upholds excused holds relay history :=
  ensures_call_bind (fun answer => hnext answer
    (h.ready_did _ (hstill answer) (hquiet answer) hready)) fun _ => trivial

theorem changed (h : Kept δ free excused holds) (holder : Holder)
    (hready : Ready free excused holds selection relay history) :
    (changeHolder selection holder : Action δ Unit).Upholds excused holds relay history :=
  hready.elim h.excuses fun ⟨hfree, hholds⟩ => h.changes holder hfree hholds

theorem seized (h : Kept δ free excused holds) {operation : Operation}
    (hchanges : operation.Changes selection)
    (hstill : (Moment.mk relay (.began operation)).isStill = true)
    (hrest : excused history ∨ holds relay history) :
    Ready free excused holds selection relay (history ++ [⟨relay, .began operation⟩]) := by
  rcases hrest with hexcused | hholds
  · exact .inl (h.lasting _ hexcused)
  · exact (h.seizes hchanges hholds).imp_right fun hfree => ⟨hfree, h.still hstill hholds⟩

theorem grab (h : Kept δ free excused holds) (types : List ContentType)
    (hready : Ready free excused holds selection relay history) :
    (Relay.grab selection types : Action δ Unit).Upholds excused holds relay history := by
  refine .current_bind ?_
  split
  · exact h.did _ rfl (hready.imp_right And.right)
  dsimp only
  split
  · exact h.did _ rfl (hready.imp_right And.right)
  refine h.ready_call_bind hready (fun _ => rfl) (fun _ => rfl) fun _ hready => ?_
  exact .bind (h.changed _ hready) fun _ _ _ hrest => h.dispatch hrest

theorem release (h : Kept δ free excused holds)
    (hready : Ready free excused holds selection relay history) :
    (Relay.release selection : Action δ Unit).Upholds excused holds relay history := by
  refine .current_bind ?_
  split
  · exact h.did _ rfl (hready.imp_right And.right)
  split
  · exact h.did _ rfl (hready.imp_right And.right)
  refine h.ready_call_bind hready (fun _ => rfl) (fun _ => rfl) fun _ hready => ?_
  refine h.ready_call_bind hready (fun _ => rfl) (fun _ => rfl) fun _ hready => ?_
  -- The events that are handled first may end what made the selection free.
  have hdispatched := (h.dispatch (hready.imp_right And.right)).and
    ((Relay.dispatch : Action δ Unit).spares_begun.yields_spared .refl)
  refine hdispatched.bind fun _ relay later ⟨hrest, hspared⟩ => .current_bind ?_
  split
  case isTrue unseen =>
    obtain ⟨added, rfl, -⟩ := hspared.added
    have hready := h.ready_resumed hready hrest unseen
    rw [Action.Yields, Action.ensures_bind, ensures_remark]
    exact Action.Yields.bind (h.changed _ (h.ready_did _ rfl rfl hready)) fun _ _ _ hrest =>
      h.dispatch hrest
  case isFalse => exact h.dispatch hrest

theorem supply (h : Kept δ free excused holds) {operation : Operation} {type : ContentType}
    {data : Bytes} (hsupplies : operation = .supply selection type data ∨
      operation = .fulfil (.data selection type data))
    (hrest : excused history ∨ holds relay history) :
    (Relay.supply selection type data : Action δ Unit).Upholds excused holds relay
      (history ++ [⟨relay, .began operation⟩]) :=
  .bind (h.part hrest (h.supplies hsupplies)) fun _ _ _ hrest => h.dispatch hrest

theorem ask (h : Kept δ free excused holds) {operation : Operation} {type : ContentType}
    (asks : operation.question? = some (selection, type))
    (hrest : excused history ∨ holds relay history) :
    (Relay.ask selection type : Action δ Unit).Upholds excused holds relay
      (history ++ [⟨relay, .began operation⟩]) := by
  have hdeclined (what : Remark) (hnone : relay.fetch? selection type = none)
      (hstill : (Moment.mk relay (.noted (.about selection what))).isStill = true) :
      (do remark selection what
          sendNoData selection
          Relay.dispatch : Action δ Unit).Upholds excused holds relay
        (history ++ [⟨relay, .began operation⟩]) := by
    rw [Upholds, Action.Yields, Action.ensures_bind, ensures_remark, Action.ensures_bind,
      sendNoData, ensures_send, List.append_assoc, List.append_assoc]
    exact h.dispatch (hrest.imp (h.lasting _) (h.declines asks hnone hstill))
  refine .current_bind ?_
  split
  case isTrue unbridged =>
    exact hdeclined _ (by simp [fetch?, Option.isNone_iff_eq_none.mp unbridged]) rfl
  case isFalse bridged =>
    split
    case isTrue foreign =>
      exact hdeclined _ (by simp [fetch?, Holder.targetFor?_eq_none foreign]) rfl
    case isFalse own =>
      split
      case h_1 unavailable => exact hdeclined _ (by simp [fetch?, unavailable]) rfl
      case h_2 target available =>
        rw [Option.isNone_iff_eq_none, ← ne_eq, Option.ne_none_iff_isSome] at bridged
        have haccepted : (Moment.mk relay (.began operation)).accepted? =
            some ⟨selection, target⟩ := by
          simp [Moment.accepted?, asks, fetch?, bridged, available]
        refine .bind (h.part hrest (h.queues haccepted)) fun _ _ _ hrest => h.dispatch hrest

theorem fitScreen (h : Kept δ free excused holds) (monitor : Monitor)
    (hrest : excused history ∨ holds relay history) :
    (Relay.fitScreen monitor : Action δ Unit).Upholds excused holds relay history := by
  refine h.call_bind hrest (fun _ => rfl) fun sizes hrest => ?_
  split
  · exact h.did _ rfl hrest
  split
  · exact h.did _ rfl hrest
  refine h.call_bind hrest (fun _ => rfl) fun _ hrest => ?_
  exact h.dispatch (h.did _ rfl (hrest.imp_right (h.resized _)))

theorem applyMonitors (h : Kept δ free excused holds) (layout : MonitorLayout)
    (hrest : excused history ∨ holds relay history) :
    (Relay.applyMonitors layout : Action δ Unit).Upholds excused holds relay history := by
  rw [Relay.applyMonitors, Upholds, Action.Yields, Action.ensures_bind, ensures_display]
  intro display
  split
  · split
    · exact h.did _ rfl hrest
    · split
      · exact h.fitScreen _ (h.did (.noted .extraMonitors) rfl hrest)
      · exact h.fitScreen _ hrest
  · exact h.did _ rfl hrest

theorem vacate (h : Kept δ free excused holds)
    (hready : Ready free excused holds selection relay history) :
    (Relay.vacate selection : Action δ Unit).Upholds excused holds relay history := by
  refine .current_bind ?_
  split
  · refine h.ready_call_bind hready (fun _ => rfl) (fun _ => rfl) fun _ hready => ?_
    exact h.changed _ hready
  · exact h.changed _ hready

theorem shutdown (h : Kept δ free excused holds)
    (hclipboard : Ready free excused holds .clipboard relay history)
    (hprimary : Ready free excused holds .primary relay history) :
    (Relay.shutdown : Action δ Unit).Upholds excused holds relay history := by
  have hvacated := (h.vacate hclipboard).and ((vacate_spares .clipboard).yields_spared .refl)
  refine hvacated.bind fun _ relay later ⟨hrest, hspared⟩ => ?_
  obtain ⟨added, rfl, hquiet⟩ := hspared.deeds
  have hready := h.ready_quietly (fun moment hmoment => Deed.not_poll_of_not_turn
    (Deed.not_turn_of_leaving (hquiet moment hmoment))) hprimary hrest
  exact .bind (h.vacate hready) fun _ _ _ hrest => h.dispatch hrest

theorem fulfil (h : Kept δ free excused holds) (request : Wire.Request)
    (hrest : excused history ∨ holds relay history) :
    (Relay.fulfil request : Action δ Unit).Upholds excused holds relay
      (history ++ [⟨relay, .began (.fulfil request)⟩]) := by
  cases request with
  | ask selection type => exact h.ask rfl hrest
  | monitors layout => exact h.applyMonitors layout (h.did _ rfl hrest)
  | grab selection types => exact h.grab types (h.seized rfl rfl hrest)
  | data selection type data => exact h.supply (.inr rfl) hrest
  | release selection => exact h.release (h.seized rfl rfl hrest)

theorem operation (h : Kept δ free excused holds) (operation : Operation)
    (hrest : excused history ∨ holds relay history) :
    (operation.action : Action δ Unit).Upholds excused holds relay
      (history ++ [⟨relay, .began operation⟩]) := by
  cases operation with
  | ask selection type => exact h.ask rfl hrest
  | fulfil request => exact h.fulfil request hrest
  | grab selection types => exact h.grab types (h.seized rfl rfl hrest)
  | release selection => exact h.release (h.seized rfl rfl hrest)
  | supply selection type data => exact h.supply (.inl rfl) hrest
  | applyMonitors layout => exact h.applyMonitors layout (h.did _ rfl hrest)
  | shutdown =>
    have hclipboard : Operation.shutdown.Changes .clipboard := nofun
    have hprimary : Operation.shutdown.Changes .primary := nofun
    exact h.shutdown (h.seized hclipboard rfl hrest) (h.seized hprimary rfl hrest)
  | dispatch => exact h.dispatch (h.did _ rfl hrest)

theorem begin (h : Kept δ free excused holds) (hrest : excused history ∨ holds relay history) :
    (Relay.begin : Action δ Unit).Upholds excused holds relay history :=
  h.dispatch (h.did (.sent (.resolution relay.size.width.toUInt32 relay.size.height.toUInt32)) rfl
    hrest)

/-- What an action upholds holds where it ends, if no call failed. -/
theorem holds_run {action : Action δ Unit} {session : Session δ}
    (h : action.Upholds excused holds session.relay history)
    (hfaultless : History.faultless (action.history session) = true) :
    excused (history ++ action.history session) ∨
      holds (action.run session).2.relay (history ++ action.history session) := by
  have ended := Action.Ensures.run session h
  obtain ⟨value, hvalue⟩ := (action.faultless_history session).mp hfaultless
  rcases hrun : action.run session with ⟨fault | _, after⟩
  · rw [hrun] at hvalue
    cases hvalue
  · rwa [hrun] at ended

/-- What is kept by every part is kept by every run that goes on from some state, if no call fails.
The history may be taken from any point on. -/
theorem continued (h : Kept δ free excused holds) {course : Course δ} {begun : History}
    (hrest : excused begun ∨ holds course.relay begun) {moves : List (Move δ)}
    (hfaultless : (course.after moves).history.faultless = true) :
    ∃ since, (course.after moves).history = course.history ++ since ∧
      (excused (begun ++ since) ∨ holds (course.after moves).relay (begun ++ since)) := by
  refine Course.after_induction (fun later => later.history.faultless = true →
    ∃ since, later.history = course.history ++ since ∧
      (excused (begun ++ since) ∨ holds later.relay (begun ++ since))) ?_ ?_ moves hfaultless
  · intro later next hlater hnext
    cases next with
    | collect => exact hlater hnext
    | elapse display => exact hlater hnext
    | operate operation =>
      have hmove : (later.move (.operate operation)).history = later.history ++
          ([⟨later.relay, .began operation⟩] ++ operation.action.history later.session) := rfl
      rw [hmove, History.faultless_append, History.faultless_append, Bool.and_eq_true,
        Bool.and_eq_true] at hnext
      obtain ⟨since, hsince, hrest⟩ := hlater hnext.1
      refine ⟨_, by rw [hmove, hsince, List.append_assoc], ?_⟩
      rw [← List.append_assoc, ← List.append_assoc]
      exact holds_run (h.operation operation hrest) hnext.2.2
  · intro _
    exact ⟨[], (List.append_nil _).symm, by rwa [List.append_nil]⟩

/-- What holds of every relay that has not begun, and is kept by every part, holds after every run
in which no call failed. -/
theorem after (h : Kept δ free excused holds) (hfresh : ∀ relay : Relay, holds relay.fresh [])
    {display : δ} {course : Course δ} (hstart : Course.start display = some course)
    {moves : List (Move δ)} (hfaultless : (course.after moves).history.faultless = true) :
    excused (course.after moves).history ∨
      holds (course.after moves).relay (course.after moves).history := by
  have hbegun := Course.faultless_of_after hfaultless
  have hrest : excused course.history ∨ holds course.relay course.history := by
    obtain ⟨relay, after, hprepare, hsession, -, hhistory⟩ := Course.exists_of_start hstart
    have hrest : excused [] ∨ holds relay [] :=
      .inr (Relay.eq_fresh_of_prepare hprepare ▸ hfresh relay)
    rw [hhistory] at hbegun ⊢
    rw [Course.relay, hsession]
    exact holds_run (h.begin hrest) hbegun
  obtain ⟨since, hsince, hlater⟩ := h.continued hrest hfaultless
  rwa [hsince]

/-- What is kept by every part, and also where a call fails, holds after every run. -/
theorem after_faults (h : Kept δ free (fun _ => False) holds)
    (hfaults : ∀ {action : Action δ Unit} {relay history},
      action.Yields (fun _ => holds) relay history →
        action.Ensures (fun _ => holds) holds relay history)
    (hfresh : ∀ relay : Relay, holds relay.fresh []) {display : δ} {course : Course δ}
    (hstart : Course.start display = some course) (moves : List (Move δ)) :
    holds (course.after moves).relay (course.after moves).history := by
  have hpart {action : Action δ Unit} (session : Session δ) {history : History}
      (hupholds : action.Upholds (fun _ => False) holds session.relay history) :
      holds (action.run session).2.relay (history ++ action.history session) := by
    have hyields : action.Yields (fun _ => holds) session.relay history :=
      hupholds.mono fun _ _ _ hheld => hheld.resolve_left id
    exact (hfaults hyields).run_anyhow session
  refine Course.after_induction (fun later => holds later.relay later.history) ?_ ?_ moves
  · intro later next hlater
    cases next with
    | collect => exact hlater
    | elapse display => exact hlater
    | operate operation =>
      have hoperated := hpart later.session (h.operation operation (.inr hlater))
      rwa [List.append_assoc] at hoperated
  · obtain ⟨relay, after, hprepare, hsession, -, hhistory⟩ := Course.exists_of_start hstart
    have hrest : holds relay [] := Relay.eq_fresh_of_prepare hprepare ▸ hfresh relay
    rw [hhistory, Course.relay, hsession]
    exact hpart (Session.prepared relay after) (h.begin (.inr hrest))

theorem polling (h : Kept δ free excused holds) :
    Kept δ free excused fun relay history => holds relay history ∧
      history.Always (AtPoll holds) where
  lasting := h.lasting
  waits := h.waits
  resumes hfree hrest := h.resumes hfree hrest.1
  seizes hchanges hrest := h.seizes hchanges hrest.1
  still hstill hrest := ⟨h.still hstill hrest.1, hrest.2.concat fun _ => hrest.1⟩
  resized size hrest := ⟨h.resized size hrest.1, hrest.2⟩
  declines asks hnone hstill hrest := by
    refine ⟨h.declines asks hnone hstill hrest.1, hrest.2.append ?_⟩
    simp [AtPoll, Moment.event?]
  queues haccepted hrest := by
    refine (h.queues haccepted hrest.1).always (hrest.2.concat fun hpoll => by cases hpoll) ?_
    exact spares_setting (spares_awaits_of_fetching (spares_of_advancing (queueFetch_spares _)))
  changes holder hfree hrest := (h.changes holder hfree hrest.1).always hrest.2
    (spares_setting (changeHolder_spares _ holder))
  supplies hsupplies hrest := by
    refine (h.supplies hsupplies hrest.1).always (hrest.2.concat fun hpoll => by cases hpoll) ?_
    exact spares_setting (spares_awaits_of_serving (deliver_spares _ _ _))
  handles hevent hrest :=
    (h.handles hevent hrest.1).always (hrest.2.concat fun _ => hrest.1) (handle_spares _)

end Kept

/-- What is upheld by every part of an operation, from the beginning on. -/
structure Upheld (δ : Type) [Display δ] (excused : History → Prop)
    (holds : Relay → History → Prop) : Prop where
  lasting : ∀ {history} added, excused history → excused (history ++ added)
  fresh : ∀ relay : Relay, holds relay.fresh []
  idle : ∀ {relay history deed}, (Moment.mk relay deed).isIdle = true → holds relay history →
    holds relay (history ++ [⟨relay, deed⟩])
  resized : ∀ {relay history} size, holds relay history → holds (relay.withSize size) history
  queues : ∀ {relay history operation fetch},
    (Moment.mk relay (.began operation)).accepted? = some fetch → holds relay history →
    (queueFetch fetch : Action δ Unit).Upholds excused holds relay
      (history ++ [⟨relay, .began operation⟩])
  changes : ∀ {relay history} selection holder, holds relay history →
    (changeHolder selection holder : Action δ Unit).Upholds excused holds relay history
  delivers : ∀ {relay history} selection type data, holds relay history →
    (deliver selection type data : Action δ Unit).Upholds excused holds relay history
  handles : ∀ {relay history event}, event.isIdle = false → holds relay history →
    (handle event : Action δ Unit).Upholds excused holds relay
      (history ++ [⟨relay, .called .pollEvent (some event)⟩])

namespace Upheld

variable {δ : Type} [Display δ] {excused : History → Prop} {holds : Relay → History → Prop}

theorem kept (h : Upheld δ excused holds) : Kept δ (fun _ _ => True) excused holds where
  lasting := h.lasting
  waits _ _ := .inr trivial
  resumes _ _ _ := .inr trivial
  seizes _ _ := .inr trivial
  still hstill := h.idle (Moment.idle_of_still hstill)
  resized := h.resized
  declines {relay history operation selection type what} asks hnone hstill hholds := by
    have hbegan : (Moment.mk relay (.began operation)).isIdle = true := by
      simp [Moment.isIdle, Moment.accepted?, asks, hnone]
    have hanswered : (Moment.mk relay (.sent (.noData selection))).isIdle = true := rfl
    have hdeclined := h.idle hanswered (h.idle (Moment.idle_of_still hstill) (h.idle hbegan hholds))
    rwa [List.append_assoc, List.append_assoc] at hdeclined
  queues := h.queues
  changes holder _ := h.changes _ holder
  supplies hsupplies hholds := by
    rcases hsupplies with rfl | rfl <;> exact h.delivers _ _ _ (h.idle rfl hholds)
  handles := h.handles

/-- What is upheld by every part holds after every run in which no call failed. -/
theorem after (h : Upheld δ excused holds) {display : δ} {course : Course δ}
    (hstart : Course.start display = some course) {moves : List (Move δ)}
    (hfaultless : (course.after moves).history.faultless = true) :
    excused (course.after moves).history ∨
      holds (course.after moves).relay (course.after moves).history :=
  h.kept.after h.fresh hstart hfaultless

theorem polled (h : Upheld δ excused holds) {display : δ} {course : Course δ}
    (hstart : Course.start display = some course) {moves : List (Move δ)}
    (hfaultless : (course.after moves).history.faultless = true)
    (hunexcused : ¬ excused (course.after moves).history) {before rest : History} {moment : Moment}
    (hsplit : (course.after moves).history = before ++ moment :: rest)
    (hpoll : moment.event?.isSome = true) : holds moment.relay before := by
  have hpolling := h.kept.polling.after (fun relay => ⟨h.fresh relay, .nil⟩) hstart hfaultless
  exact (hpolling.resolve_left hunexcused).2 before moment rest hsplit hpoll

end Upheld

end ClipboardRelay
