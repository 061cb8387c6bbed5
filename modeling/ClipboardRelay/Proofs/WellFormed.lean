import ClipboardRelay.Memory.Display
import ClipboardRelay.Proofs.Operating
import Mathlib.Data.List.Forall2
/-!
How the holders, the queues and the table of formats fit together. Main statement: they do in every
state of every run, whichever calls failed on the way.
-/

namespace ClipboardRelay

theorem nodup_eraseDups {α : Type} [BEq α] [LawfulBEq α] :
    ∀ list : List α, list.eraseDups.Nodup
  | [] => .nil
  | head :: tail => by
    have hshorter : (tail.filter fun other => !other == head).length < tail.length + 1 :=
      Nat.lt_succ_of_le (List.length_filter_le _ _)
    rw [List.eraseDups_cons, List.nodup_cons, List.mem_eraseDups]
    exact ⟨by simp, nodup_eraseDups _⟩
termination_by list => list.length

theorem ContentType.nodup_distinct (types : List ContentType) : (distinct types).Nodup :=
  nodup_eraseDups _

theorem Vocabulary.ne_secondary_of_selection? {vocabulary : Vocabulary} {atom : Atom}
    {selection : Selection} (h : vocabulary.selection? atom = some selection) :
    selection ≠ .secondary := by
  rintro rfl
  unfold selection? at h
  split at h
  · cases h
  · split at h <;> cases h

theorem Vocabulary.ne_secondary_of_atom? {vocabulary : Vocabulary} {selection : Selection}
    (h : (vocabulary.atom? selection).isSome = true) : selection ≠ .secondary := by
  rintro rfl
  cases h

namespace Registry

/-- Whether a table has each kind of content once, and only kinds that say anything. -/
structure Proper (registry : Registry) : Prop where
  distinct : (registry.formats.map (·.type)).Nodup
  meaningful : .none ∉ registry.formats.map (·.type)

/-- Whether each offer has a target that the table lists for its kind of content, in the order of
the table. -/
def Lists (registry : Registry) (offers : List Offer) : Prop :=
  ∃ formats, formats.Sublist registry.formats ∧
    List.Forall₂ (fun offer format => offer.type = format.type ∧ offer.target ∈ format.targets)
      offers formats

section

variable {δ : Type} [Display δ]

theorem types_of_internFormats {entries : List (ContentType × List String)} {display after : δ}
    {formats : List Format} (h : (internFormats entries).run display = (.ok formats, after)) :
    formats.map (·.type) = entries.map (·.1) := by
  induction entries generalizing display after formats with
  | nil =>
    cases h
    rfl
  | cons entry entries ih =>
    obtain ⟨targets, _, -, h⟩ := Exchange.exists_of_run_bind h
    obtain ⟨others, _, hothers, h⟩ := Exchange.exists_of_run_bind h
    cases h
    rw [List.map_cons, List.map_cons, ih hothers]

theorem proper_of_prepare {relay : Relay} {display after : δ}
    (h : Relay.prepare.run display = (.ok relay, after)) : relay.registry.Proper := by
  unfold Relay.prepare at h
  obtain ⟨vocabulary, _, -, h⟩ := Exchange.exists_of_run_bind h
  obtain ⟨registry, _, hresolve, h⟩ := Exchange.exists_of_run_bind h
  obtain ⟨_, _, -, h⟩ := Exchange.exists_of_run_bind h
  obtain ⟨size, _, -, h⟩ := Exchange.exists_of_run_bind h
  obtain ⟨_, _, -, h⟩ := Exchange.exists_of_run_bind h
  cases h
  obtain ⟨formats, _, hformats, hresolve⟩ := Exchange.exists_of_run_bind hresolve
  cases hresolve
  constructor <;> rw [types_of_internFormats hformats] <;> decide

end

theorem lists_negotiate (registry : Registry) (offered : List Atom) :
    registry.Lists ((registry.negotiate offered).map fun (type, target) => ⟨type, target⟩) := by
  unfold Lists negotiate
  induction registry.formats with
  | nil => exact ⟨[], .slnil, .nil⟩
  | cons format formats ih =>
    obtain ⟨chosen, hsublist, hfits⟩ := ih
    rcases hfind : format.targets.find? offered.contains with _ | target
    · refine ⟨chosen, hsublist.cons format, ?_⟩
      rwa [List.filterMap_cons_none (by rw [hfind]; rfl)]
    · refine ⟨format :: chosen, hsublist.cons_cons format, ?_⟩
      rw [List.filterMap_cons_some (by rw [hfind]; rfl)]
      exact .cons ⟨rfl, List.mem_of_find?_eq_some hfind⟩ hfits

theorem Lists.types_sublist {registry : Registry} {offers : List Offer}
    (h : registry.Lists offers) :
    (offers.map (·.type)).Sublist (registry.formats.map (·.type)) := by
  obtain ⟨formats, hsublist, hfits⟩ := h
  have htypes : offers.map (·.type) = formats.map (·.type) := by
    clear hsublist
    induction hfits with
    | nil => rfl
    | cons hfit _ ih => rw [List.map_cons, List.map_cons, hfit.1, ih]
  rw [htypes]
  exact hsublist.map _

end Registry

namespace Holder

/-- Whether a holder can hold a selection: nobody offers nothing and everyone else something, each
kind of content once. An application offers what the table lists, and the agent no target. -/
structure Proper (registry : Registry) (holder : Holder) : Prop where
  offered : holder.types = [] ↔ holder.owner = .nobody
  distinct : holder.types.Nodup
  meaningful : .none ∉ holder.types
  listed : ∀ offers, holder = .desktop offers → registry.Lists offers
  untargeted : holder.owner = .agent → ∀ type, holder.targetFor? type = none

variable {registry : Registry}

theorem proper_nobody : Holder.nobody.Proper registry where
  offered := by simp [types, owner]
  distinct := .nil
  meaningful := List.not_mem_nil
  listed := by rintro offers ⟨⟩
  untargeted := by rintro ⟨⟩

theorem proper_agent {types : List ContentType} (h : ContentType.distinct types ≠ []) :
    (Holder.agent (ContentType.distinct types)).Proper registry where
  offered := by simp [Holder.types, owner, h]
  distinct := ContentType.nodup_distinct types
  meaningful := ContentType.none_notMem_distinct types
  listed := by rintro offers ⟨⟩
  untargeted _ _ := rfl

theorem proper_desktop (hregistry : registry.Proper) {offers : List Offer} (hsome : offers ≠ [])
    (h : registry.Lists offers) : (Holder.desktop offers).Proper registry where
  offered := by simp [types, owner, hsome]
  distinct := hregistry.distinct.sublist h.types_sublist
  meaningful hnone := hregistry.meaningful (h.types_sublist.subset hnone)
  listed := by
    rintro _ ⟨rfl⟩
    exact h
  untargeted := by rintro ⟨⟩

theorem mem_of_targetFor? {holder : Holder} {type : ContentType} {target : Atom}
    (h : holder.targetFor? type = some target) :
    ∃ offers, holder = .desktop offers ∧ target ∈ offers.map (·.target) := by
  cases holder with
  | nobody | agent types => cases h
  | desktop offers =>
    obtain ⟨offer, hfind, rfl⟩ := Option.map_eq_some_iff.mp h
    exact ⟨offers, rfl, List.mem_map_of_mem (List.mem_of_find?_eq_some hfind)⟩

end Holder

namespace Relay

/-- How the slots and the queues of a relay hang together. -/
structure WellFormed (relay : Relay) : Prop where
  held : ∀ selection, (relay.slots.holder selection).Proper relay.registry
  /-- Whoever is asked for targets does not hold the selection yet. -/
  asked : ∀ selection, 0 < (relay.slots.get selection).awaited →
    relay.slots.owner selection ≠ .desktop
  fetched : ∀ fetch ∈ relay.fetches, ∃ offers,
    relay.slots.holder fetch.selection = .desktop offers ∧ fetch.target ∈ offers.map (·.target)
  secondary : relay.slots.secondary = {}
  bridged : ∀ fetch ∈ relay.fetches ++ relay.abandoned, fetch.selection ≠ .secondary
  requested : ∀ request ∈ relay.requests, request.selection ≠ .secondary

structure Within (before after : Relay) : Prop where
  registry : after.registry = before.registry
  slots : after.slots = before.slots
  fetches : after.fetches ⊆ before.fetches
  abandoned : after.abandoned ⊆ before.fetches ++ before.abandoned
  requests : after.requests ⊆ before.requests

namespace Within

variable (relay : Relay)

theorem of_queues {after : Relay} (hregistry : after.registry = relay.registry)
    (hslots : after.slots = relay.slots) (hfetches : after.fetches ⊆ relay.fetches)
    (habandoned : after.abandoned = relay.abandoned) (hrequests : after.requests ⊆ relay.requests) :
    relay.Within after :=
  ⟨hregistry, hslots, hfetches, habandoned ▸ List.subset_append_right _ _, hrequests⟩

theorem refl : relay.Within relay :=
  .of_queues relay rfl rfl (List.Subset.refl _) rfl (List.Subset.refl _)

theorem withSize (size : ScreenSize) : relay.Within (relay.withSize size) :=
  .of_queues relay rfl rfl (List.Subset.refl _) rfl (List.Subset.refl _)

theorem withReader (reader : Incremental.Reader) : relay.Within (relay.withReader reader) :=
  .of_queues relay rfl rfl (List.Subset.refl _) rfl (List.Subset.refl _)

theorem withWriter (writer : Option Incremental.Writer) :
    relay.Within (relay.withWriter writer) :=
  .of_queues relay rfl rfl (List.Subset.refl _) rfl (List.Subset.refl _)

theorem withRequests {requests : List DesktopRequest} (h : requests ⊆ relay.requests)
    (writer : Option Incremental.Writer) :
    relay.Within ((relay.withWriter writer).withRequests requests) :=
  .of_queues relay rfl rfl (List.Subset.refl _) rfl h

theorem withFetches {fetches : List Fetch} (h : fetches ⊆ relay.fetches)
    (reader : Incremental.Reader) :
    relay.Within ((relay.withReader reader).withFetches fetches) :=
  .of_queues relay rfl rfl h rfl (List.Subset.refl _)

theorem withAbandoned {abandoned : List Fetch} (h : abandoned ⊆ relay.abandoned) :
    relay.Within (relay.withAbandoned abandoned) :=
  ⟨rfl, rfl, List.Subset.refl _, List.Subset.trans h (List.subset_append_right _ _),
    List.Subset.refl _⟩

theorem withoutActive {active : Fetch} {rest : List Fetch} (front : relay.fetches = active :: rest)
    (selection : Selection) (reader : Incremental.Reader) :
    relay.Within (((relay.withoutFetches selection).withReader reader).withAbandoned
      (relay.abandoned ++ [active])) := by
  refine ⟨rfl, rfl, List.filter_sublist.subset, ?_, List.Subset.refl _⟩
  refine List.append_subset.mpr ⟨List.subset_append_right _ _, ?_⟩
  intro fetch hfetch
  rw [List.mem_singleton.mp hfetch, front]
  exact List.mem_append_left _ List.mem_cons_self

end Within

structure Welcomes (relay : Relay) (selection : Selection) (holder : Holder) : Prop where
  proper : holder.Proper relay.registry
  bridged : selection = .secondary → holder = .nobody
  answered : holder.owner = .desktop → (relay.slots.get selection).awaited = 0

theorem exists_of_fetch? {relay : Relay} {selection : Selection} {type : ContentType}
    {fetch : Fetch} (h : relay.fetch? selection type = some fetch) :
    selection ≠ .secondary ∧ ∃ target,
      (relay.slots.holder selection).targetFor? type = some target ∧
        ⟨selection, target⟩ = fetch := by
  unfold fetch? at h
  split at h
  case isTrue bridged =>
    exact ⟨Vocabulary.ne_secondary_of_atom? bridged, Option.map_eq_some_iff.mp h⟩
  case isFalse => cases h

namespace WellFormed

variable {relay after : Relay} {selection : Selection}

theorem within (h : relay.WellFormed) (hwithin : relay.Within after) : after.WellFormed where
  held := by
    rw [hwithin.registry, hwithin.slots]
    exact h.held
  asked := by
    rw [hwithin.slots]
    exact h.asked
  fetched fetch hfetch := by
    rw [hwithin.slots]
    exact h.fetched fetch (hwithin.fetches hfetch)
  secondary := by
    rw [hwithin.slots]
    exact h.secondary
  bridged fetch hfetch := by
    rcases List.mem_append.mp hfetch with hqueued | hdropped
    · exact h.bridged fetch (List.mem_append_left _ (hwithin.fetches hqueued))
    · exact h.bridged fetch (hwithin.abandoned hdropped)
  requested request hrequest := h.requested request (hwithin.requests hrequest)

theorem fresh (relay : Relay) : relay.fresh.WellFormed where
  held selection := by cases selection <;> exact Holder.proper_nobody
  asked selection h := by cases selection <;> cases h
  fetched := by rintro fetch ⟨⟩
  secondary := rfl
  bridged := by rintro fetch ⟨⟩
  requested := by rintro request ⟨⟩

theorem withRequest (h : relay.WellFormed) {event : SelectionRequest}
    (bridged : relay.vocabulary.selection? event.selection = some selection) :
    (relay.withRequests (relay.requests ++ [⟨selection, event⟩])).WellFormed :=
  { h with
    requested := by
      refine List.forall_mem_append.mpr ⟨h.requested, List.forall_mem_singleton.mpr ?_⟩
      exact Vocabulary.ne_secondary_of_selection? bridged }

theorem withFetch (h : relay.WellFormed) {type : ContentType} {fetch : Fetch}
    (accepted : relay.fetch? selection type = some fetch) :
    (relay.withFetches (relay.fetches ++ [fetch])).WellFormed := by
  obtain ⟨hbridged, target, htarget, rfl⟩ := exists_of_fetch? accepted
  have hfetched : ∃ offers, relay.slots.holder selection = .desktop offers ∧
      target ∈ offers.map (·.target) := Holder.mem_of_targetFor? htarget
  refine { h with fetched := ?_, bridged := ?_ }
  · exact List.forall_mem_append.mpr ⟨h.fetched, List.forall_mem_singleton.mpr hfetched⟩
  · obtain ⟨hqueued, hdropped⟩ := List.forall_mem_append.mp h.bridged
    exact List.forall_mem_append.mpr ⟨List.forall_mem_append.mpr
      ⟨hqueued, List.forall_mem_singleton.mpr hbridged⟩, hdropped⟩

theorem withHolder (h : relay.WellFormed) {holder : Holder} (clear : relay.Clear selection)
    (welcome : relay.Welcomes selection holder) :
    (relay.withSlots (relay.slots.setHolder selection holder)).WellFormed where
  held other := by
    change ((relay.slots.setHolder selection holder).holder other).Proper relay.registry
    rw [Slots.holder_setHolder]
    split
    · exact welcome.proper
    · exact h.held other
  asked other hasked := by
    change ((relay.slots.setHolder selection holder).holder other).owner ≠ .desktop
    have hbefore : 0 < (relay.slots.get other).awaited := by
      rwa [← Slots.awaited_setHolder relay.slots selection other holder]
    rw [Slots.holder_setHolder]
    split
    case isTrue hother =>
      subst hother
      intro hdesktop
      rw [welcome.answered hdesktop] at hbefore
      exact Nat.lt_irrefl 0 hbefore
    case isFalse => exact h.asked other hbefore
  fetched fetch hfetch := by
    change ∃ offers, (relay.slots.setHolder selection holder).holder fetch.selection =
      .desktop offers ∧ _
    rw [Slots.holder_setHolder, if_neg (Ne.symm (clear.2 fetch hfetch))]
    exact h.fetched fetch hfetch
  secondary := by
    change (relay.slots.setHolder selection holder).secondary = {}
    cases selection with
    | clipboard | primary => exact h.secondary
    | secondary =>
      rw [welcome.bridged rfl]
      change { relay.slots.secondary with holder := .nobody } = ({} : Slot)
      rw [h.secondary]
  bridged := h.bridged
  requested := h.requested

theorem withCounts (h : relay.WellFormed) {slots : Slots}
    (hholders : ∀ other, slots.holder other = relay.slots.holder other)
    (hasked : ∀ other, 0 < (slots.get other).awaited → relay.slots.owner other ≠ .desktop)
    (hsecondary : (slots.get .secondary).awaited = 0) : (relay.withSlots slots).WellFormed where
  held other := by
    change (slots.holder other).Proper relay.registry
    rw [hholders]
    exact h.held other
  asked other hother := by
    change (slots.holder other).owner ≠ .desktop
    rw [hholders]
    exact hasked other hother
  fetched fetch hfetch := by
    change ∃ offers, slots.holder fetch.selection = .desktop offers ∧ _
    rw [hholders]
    exact h.fetched fetch hfetch
  secondary := by
    have hholder : slots.secondary.holder = .nobody := by
      rw [show slots.secondary.holder = slots.holder .secondary from rfl, hholders,
        Slots.holder, Slots.get, h.secondary]
    change slots.secondary = ⟨.nobody, 0⟩
    rw [← hholder, ← show slots.secondary.awaited = 0 from hsecondary]
  bridged := h.bridged
  requested := h.requested

theorem awaited_secondary (h : relay.WellFormed) :
    (relay.slots.get .secondary).awaited = 0 := by
  rw [Slots.get, h.secondary]

theorem withAwait (h : relay.WellFormed) (bridged : selection ≠ .secondary)
    (vacant : relay.slots.holder selection = .nobody) :
    (relay.withSlots (relay.slots.await selection)).WellFormed := by
  refine h.withCounts (relay.slots.holder_await selection) (fun other hother => ?_) ?_
  · by_cases hself : other = selection
    · rw [hself, Slots.owner, vacant]
      rintro ⟨⟩
    · rw [Slots.awaited_await_of_ne _ hself] at hother
      exact h.asked other hother
  · rw [Slots.awaited_await_of_ne _ (Ne.symm bridged)]
    exact h.awaited_secondary

theorem withArrival (h : relay.WellFormed) (selection : Selection) :
    (relay.withSlots (relay.slots.arrive selection).2).WellFormed := by
  refine h.withCounts (relay.slots.holder_arrive selection) (fun other hother => ?_) ?_
  · exact h.asked other (Nat.lt_of_lt_of_le hother (relay.slots.awaited_arrive_le selection other))
  · have hle := relay.slots.awaited_arrive_le selection .secondary
    rw [h.awaited_secondary] at hle
    exact Nat.le_zero.mp hle

end WellFormed

end Relay

/-- A stage at which the relay is well-formed and the holder that is due may come. -/
structure Stage.WellFormed (stage : Stage) : Prop where
  relay : stage.relay.WellFormed
  registry : stage.relay.registry.Proper
  owed : ∀ selection holder, stage.duty.owed = some (selection, holder) →
    stage.relay.Welcomes selection holder

namespace Stage.WellFormed

open Relay (Within Welcomes)

variable {stage next : Stage}

theorem within (h : stage.WellFormed) (hwithin : stage.relay.Within next.relay)
    (howed : next.duty.owed = stage.duty.owed ∨ next.duty.owed = none) : next.WellFormed where
  relay := h.relay.within hwithin
  registry := by
    rw [hwithin.registry]
    exact h.registry
  owed selection holder hnext := by
    rcases howed with hsame | hnone
    · have hwelcome := h.owed selection holder (hsame ▸ hnext)
      constructor
      · rw [hwithin.registry]
        exact hwelcome.proper
      · exact hwelcome.bridged
      · rw [hwithin.slots]
        exact hwelcome.answered
    · rw [hnone] at hnext
      cases hnext

theorem idle {relay : Relay} {duty : Duty} {history : History} (h : relay.WellFormed)
    (hregistry : relay.registry.Proper) (hduty : duty.owed = none) :
    (Stage.mk relay duty history).WellFormed where
  relay := h
  registry := hregistry
  owed selection holder howed := by
    rw [hduty] at howed
    cases howed

theorem welcomes_arrival {relay : Relay} {selection other : Selection} {holder : Holder}
    (h : relay.Welcomes other holder) :
    (relay.withSlots (relay.slots.arrive selection).2).Welcomes other holder where
  proper := h.proper
  bridged := h.bridged
  answered hdesktop := by
    have hle := relay.slots.awaited_arrive_le selection other
    rw [h.answered hdesktop] at hle
    exact Nat.le_zero.mp hle

theorem welcomes_claim {relay : Relay} (h : relay.WellFormed) (hregistry : relay.registry.Proper)
    {selection : Selection} {offered : List Atom}
    (current : (relay.slots.arrive selection).1 = .current)
    (known : relay.registry.negotiate offered ≠ []) :
    (relay.withSlots (relay.slots.arrive selection).2).Welcomes selection
      (.desktop ((relay.registry.negotiate offered).map fun (type, target) => ⟨type, target⟩)) where
  proper := Holder.proper_desktop hregistry (by simpa using known)
    (relay.registry.lists_negotiate offered)
  bridged hsecondary := by
    have hone := (Slots.awaited_of_current current).1
    rw [hsecondary, h.awaited_secondary] at hone
    cases hone
  answered _ := (Slots.awaited_of_current current).2

theorem welcomes_promise {relay : Relay} {operation : Operation} {selection : Selection}
    {types : List ContentType} (taken : relay.taken? operation = some (selection, types)) :
    relay.Welcomes selection (.agent types) := by
  obtain ⟨⟨grabbed, offered⟩, -, htaken⟩ := Option.bind_eq_some_iff.mp taken
  obtain ⟨⟨hbridged, hsome⟩, htypes⟩ := Option.ite_none_right_eq_some.mp htaken
  cases htypes
  exact ⟨Holder.proper_agent hsome,
    fun hsecondary => absurd hsecondary (Vocabulary.ne_secondary_of_atom? hbridged), nofun⟩

theorem step (h : stage.WellFormed) (step : Step stage next) : next.WellFormed := by
  have unowed (idle : stage.duty = {}) : stage.duty.owed = none := by rw [idle]
  cases step with
  | plain | turnAway | ask | store | rest | decline | skipStart =>
    exact h.within (.refl _) (.inl rfl)
  | report size => exact h.within (.withSize _ size) (.inl rfl)
  | arrive event selection bridged idle =>
    exact .idle (h.relay.withRequest bridged) h.registry (unowed idle)
  | settle request rest property front =>
    refine h.within (.withRequests _ ?_ stage.relay.writer) (.inl rfl)
    rw [front]
    exact List.subset_cons_self request rest
  | announce | chunk => exact h.within (.withWriter _ _) (.inl rfl)
  | lastChunk => exact h.within (.withRequests _ (List.tail_sublist _).subset none) (.inl rfl)
  | dropRequests selection =>
    dsimp only
    split
    · exact h.within (.withRequests _ List.filter_sublist.subset none) (.inl rfl)
    · exact h.within (.withRequests _ List.filter_sublist.subset stage.relay.writer) (.inl rfl)
  | queueFetch operation selection type fetch asks accepted idle =>
    exact .idle (h.relay.withFetch accepted) h.registry (unowed idle)
  | startFetch | forget =>
    refine h.within (.withAbandoned _ ?_) (.inl rfl)
    first | exact List.filter_sublist.subset | exact List.eraseP_subset
  | dropFetches selection active rest front =>
    dsimp only
    split
    · exact h.within (.withoutActive _ front selection stage.relay.reader.abort) (.inl rfl)
    · exact h.within (.withFetches _ (List.filter_sublist.subset) stage.relay.reader) (.inl rfl)
  | finishFetch data fetch rest front =>
    refine h.within (.withFetches _ ?_ _) (.inl rfl)
    rw [front]
    exact List.subset_cons_self fetch rest
  | read reader => exact h.within (.withReader _ reader) (.inl rfl)
  | promise operation selection types taken =>
    refine ⟨h.relay, h.registry, ?_⟩
    rintro _ _ ⟨rfl⟩
    exact welcomes_promise taken
  | surrender selection clear idle =>
    have welcome : stage.relay.Welcomes selection .nobody :=
      ⟨Holder.proper_nobody, fun _ => rfl, nofun⟩
    exact .idle (h.relay.withHolder clear welcome) h.registry (unowed idle)
  | install selection holder clear owed =>
    have welcome := h.owed selection holder (by rw [owed])
    exact .idle (h.relay.withHolder clear welcome) h.registry rfl
  | await atom selection named vacant idle =>
    have bridged := Vocabulary.ne_secondary_of_selection? named
    exact .idle (h.relay.withAwait bridged vacant) h.registry (unowed idle)
  | countOff selection =>
    refine ⟨h.relay.withArrival selection, h.registry, fun other holder howed => ?_⟩
    exact welcomes_arrival (h.owed other holder howed)
  | claim selection property words notices idle current free content known =>
    refine ⟨h.relay.withArrival selection, h.registry, ?_⟩
    rintro _ _ ⟨rfl⟩
    exact welcomes_claim h.relay h.registry current known

theorem broken (h : stage.WellFormed) (broke : Break stage next) : next.WellFormed := by
  cases broke with
  | call | turnAway => exact h.within (.refl _) (.inr rfl)
  | dropRequests =>
    exact h.within (.withRequests _ (List.filter_sublist.subset) stage.relay.writer) (.inr rfl)
  | chunk => exact h.within (.withWriter _ _) (.inr rfl)
  | startFetch => exact h.within (.withAbandoned _ (List.filter_sublist.subset)) (.inr rfl)

end Stage.WellFormed

namespace Course

variable {δ : Type} [Display δ]

/-- The slots and the queues hang together after every run, whichever calls failed on the way. -/
theorem wellFormed_after {display : δ} {course : Course δ}
    (hstart : start display = some course) (moves : List (Move δ)) :
    (course.after moves).relay.WellFormed := by
  refine (holds_after_prepared Stage.WellFormed (fun relay after hprepare => ?_)
    (fun _ _ step h => h.step step) (fun _ _ broke h => h.broken broke) hstart moves).relay
  have hregistry : relay.registry.Proper := Registry.proper_of_prepare hprepare
  exact .idle (.fresh relay) hregistry rfl

/-- An application offers text and is asked for it, and another one asks for the agent's text. Then
both selections change hands, and the display fails while the waiting request is refused. -/
def brokenHandover : List (Move Memory.Display) :=
  [.operate (.grab .primary [.utf8Text, .none, .utf8Text]),
    .elapse { events := [.ownerChanged ⟨100⟩ ⟨7⟩] }, .operate .dispatch,
    .elapse {
      properties := { entries := [⟨⟨1⟩, ⟨102⟩, (Content.words [108, 105]).toProperty Atom.atomType⟩] }
      events := [.selectionNotify ⟨0, ⟨1⟩, ⟨100⟩, ⟨102⟩, ⟨102⟩⟩,
        .selectionRequest ⟨0, ⟨8⟩, ⟨101⟩, ⟨105⟩, ⟨50⟩⟩] },
    .operate .dispatch, .operate (.ask .clipboard .imagePng),
    .elapse {
      rules := [{ kind := .notifyRequestor, failure := .connection }]
      events := [.ownerChanged ⟨101⟩ ⟨9⟩, .ownerChanged ⟨100⟩ ⟨9⟩] },
    .operate .dispatch]

/-- The failure leaves the old holder in place, with no request waiting. -/
theorem wellFormed_after_brokenHandover : ∃ course, start {} = some course ∧
    (course.after brokenHandover).history.faultless = false ∧
    (course.after brokenHandover).relay.slots.holder .primary = .agent [.utf8Text] ∧
    (course.after brokenHandover).relay.requests = [] ∧
    (course.after brokenHandover).relay.slots.holder .clipboard =
      .desktop [⟨.utf8Text, ⟨105⟩⟩, ⟨.imagePng, ⟨108⟩⟩] ∧
    (course.after brokenHandover).relay.fetches = [⟨.clipboard, ⟨108⟩⟩] ∧
    (course.after brokenHandover).relay.WellFormed := by
  have hstart : start ({} : Memory.Display) =
      some ((start {}).get (by decide +kernel)) := (Option.some_get _).symm
  exact ⟨_, hstart, by decide +kernel, by decide +kernel, by decide +kernel, by decide +kernel,
    by decide +kernel, wellFormed_after hstart brokenHandover⟩

end Course

end ClipboardRelay
