import ClipboardRelay.Proofs.OwnerReports
import ClipboardRelay.Proofs.Requests
import ClipboardRelay.Proofs.View
/-!
Owners that answer at the same time. All of them store their targets in one property, and reading it
deletes it. Main statement: a selection is held with the targets that were stored last before its
own owner's report, whoever stored them, and by nobody if the other report came in between.
-/

namespace ClipboardRelay

/-- A part of an owner's answer: its targets were stored, or the relay was told so. -/
inductive Part where
  | stored (selection : Selection)
  | told (selection : Selection)
  deriving DecidableEq, Repr

namespace Part

def selection : Part → Selection
  | stored selection | told selection => selection

/-- Whether parts are the answers for both selections, each stored before it is told. -/
def Interleaved (parts : List Part) : Prop :=
  ∀ selection, parts.filter (·.selection = selection) =
    if selection = .secondary then [] else [stored selection, told selection]

theorem split_concat {done before rest : List Part} {last heard told : Part}
    (h : done ++ [last] = before ++ heard :: told :: rest) :
    (done = before ++ [heard] ∧ last = told) ∨
      ∃ middle, done = before ++ heard :: told :: middle := by
  rcases List.eq_nil_or_concat rest with rfl | ⟨middle, final, rfl⟩
  · rw [List.append_cons before] at h
    obtain ⟨hdone, hlast⟩ := List.append_inj' h rfl
    exact .inl ⟨hdone, List.singleton_inj.mp hlast⟩
  · have hconcat : before ++ heard :: told :: (middle ++ [final]) =
        (before ++ heard :: told :: middle) ++ [final] := by simp
    rw [List.concat_eq_append, hconcat] at h
    exact .inr ⟨middle, (List.append_inj' h rfl).1⟩

theorem Interleaved.told_once {done rest : List Part} {selection : Selection}
    (h : Interleaved (done ++ told selection :: rest)) :
    selection ≠ .secondary ∧ done ≠ [] ∧ told selection ∉ done := by
  have hparts := h selection
  rw [List.filter_append, List.filter_cons_of_pos (by simp [Part.selection])] at hparts
  have hbridged : selection ≠ .secondary := by
    intro hsecondary
    simp [if_pos hsecondary] at hparts
  rw [if_neg hbridged] at hparts
  have hdone : done.filter (·.selection = selection) = [stored selection] := by
    generalize done.filter (·.selection = selection) = earlier at hparts ⊢
    rcases earlier with _ | ⟨_, _ | ⟨_, _⟩⟩ <;> simp_all
  refine ⟨hbridged, ?_, fun hmem => ?_⟩
  · rintro rfl
    cases hdone
  · have hkept : told selection ∈ done.filter (·.selection = selection) :=
      List.mem_filter.mpr ⟨hmem, by simp [Part.selection]⟩
    rw [hdone] at hkept
    simp at hkept

theorem Interleaved.exists_told {parts : List Part} (h : Interleaved parts)
    {selection : Selection} (bridged : selection ≠ .secondary) :
    ∃ before heard rest, parts = before ++ heard :: told selection :: rest := by
  have hparts := h selection
  rw [if_neg bridged] at hparts
  have hmem : told selection ∈ parts.filter (·.selection = selection) := by simp [hparts]
  obtain ⟨done, rest, rfl⟩ := List.append_of_mem (List.mem_filter.mp hmem).1
  obtain ⟨before, heard, rfl⟩ := (List.eq_nil_or_concat done).resolve_left h.told_once.2.1
  exact ⟨before, heard, rest, by simp⟩

variable (targets : Selection → List Atom)

def left : Part → Option Property
  | stored selection => some (.listing (targets selection))
  | told _ => none

/-- What the relay learns from a report that comes right after a part. -/
def learned (registry : Registry) : Part → List (ContentType × Atom)
  | stored selection => registry.negotiate (targets selection)
  | told _ => []

theorem negotiate_left (registry : Registry) (part : Part) :
    registry.negotiate (((part.left targets).map Property.atoms).getD []) =
      part.learned targets registry := by
  cases part with
  | stored selection =>
    rw [left, Option.map_some, Option.getD_some, Property.atoms_listing, learned]
  | told selection => exact registry.negotiate_nil

end Part

namespace Relay

/-- Whether a selection is held with what was learned, and the agent was told so once. -/
structure Settled (relay : Relay) (history : History) (selection : Selection)
    (learned : List (ContentType × Atom)) : Prop where
  holder : relay.slots.holder selection =
    if learned = [] then .nobody else .desktop (learned.map fun (type, target) => { type, target })
  grabs : history.grabs selection = if learned = [] then [] else [learned.map (·.1)]

namespace Settled

variable {relay : Relay} {history : History} {selection : Selection}
  {learned : List (ContentType × Atom)}

theorem discreetly {added : History} (h : relay.Settled history selection learned)
    (hadded : ∀ moment ∈ added, moment.deed.isDiscreet = true) :
    relay.Settled (history ++ added) selection learned where
  holder := h.holder
  grabs := by
    rw [History.grabs_append, History.grabs_of_discreet hadded, List.append_nil]
    exact h.grabs

variable {after : Relay} {added : History} {other : Selection} {old : Option Property}

theorem apart (h : relay.Settled history selection learned)
    (told : Told other old relay after added) (hother : selection ≠ other) :
    after.Settled (history ++ added) selection learned where
  holder := by
    rw [told.slots, Slots.holder_learn_of_ne _ _ _ hother, Slots.holder_arrive]
    exact h.holder
  grabs := by
    rw [History.grabs_append, told.grabs, if_neg fun same => hother same.1, List.append_nil]
    exact h.grabs

theorem of_told (h : relay.Settled history selection [])
    (told : Told selection old relay after added) :
    after.Settled (history ++ added) selection
      (relay.registry.negotiate ((old.map Property.atoms).getD [])) where
  holder := by
    rw [told.slots, Slots.holder_learn_self, Slots.holder_arrive, h.holder]
    rfl
  grabs := by
    rw [History.grabs_append, told.grabs, h.grabs, if_pos rfl, List.nil_append]
    simp

end Settled

/-- How far a relay has come after some parts of the answers, if `property` is where they are stored
and `history` is what it did since they began. -/
structure Heard (targets : Selection → List Atom) (origin : Relay) (done : List Part)
    (relay : Relay) (property : Option Property) (history : History) : Prop where
  fixed : relay.standing.1 = origin.standing.1
  pending : ∀ selection ≠ .secondary, .told selection ∉ done →
    (relay.slots.get selection).awaited = 1 ∧ relay.front? ≠ some selection ∧
      relay.Settled history selection []
  property : ∀ last ∈ done.getLast?, property = last.left targets
  settled : ∀ before heard selection rest, done = before ++ heard :: .told selection :: rest →
    relay.Settled history selection (heard.learned targets origin.registry)

namespace Heard

variable {targets : Selection → List Atom} {origin relay : Relay} {done : List Part}
  {property : Option Property} {since : History} {selection : Selection}

theorem window (h : Heard targets origin done relay property since) :
    relay.window = origin.window :=
  congrArg (·.1) h.fixed

theorem vocabulary (h : Heard targets origin done relay property since) :
    relay.vocabulary = origin.vocabulary :=
  congrArg (·.2.1) h.fixed

theorem registry (h : Heard targets origin done relay property since) :
    relay.registry = origin.registry :=
  congrArg (·.2.2) h.fixed

theorem ready (h : Heard targets origin done relay property since)
    (bridged : selection ≠ .secondary) (hfresh : .told selection ∉ done) :
    (relay.slots.arrive selection).1 = .current ∧ relay.slots.owner selection ≠ .agent ∧
      relay.front? ≠ some selection := by
  obtain ⟨hawaited, hfront, hvacant⟩ := h.pending selection bridged hfresh
  refine ⟨by simp [Slots.arrive, Slot.arrive, hawaited], ?_, hfront⟩
  rw [Slots.owner, hvacant.holder]
  decide

theorem discreetly (h : Heard targets origin done relay property since) {added : History}
    (hadded : ∀ moment ∈ added, moment.deed.isDiscreet = true) :
    Heard targets origin done relay property (since ++ added) where
  fixed := h.fixed
  pending selection bridged hfresh := by
    obtain ⟨hawaited, hfront, hvacant⟩ := h.pending selection bridged hfresh
    exact ⟨hawaited, hfront, hvacant.discreetly hadded⟩
  property := h.property
  settled before heard selection rest hdone :=
    (h.settled before heard selection rest hdone).discreetly hadded

theorem store (h : Heard targets origin done relay property since) (selection : Selection) :
    Heard targets origin (done ++ [.stored selection]) relay
      (some (.listing (targets selection))) since where
  fixed := h.fixed
  pending other bridged hfresh :=
    h.pending other bridged fun hmem => hfresh (List.mem_append_left _ hmem)
  property last hlast := by
    rw [List.getLast?_concat, Option.mem_some_iff] at hlast
    subst hlast
    rfl
  settled before heard other rest hsplit := by
    rcases Part.split_concat hsplit with ⟨-, hstored⟩ | ⟨middle, hdone⟩
    · cases hstored
    · exact h.settled before heard other middle hdone

theorem tell (h : Heard targets origin done relay property since) (bridged : selection ≠ .secondary)
    (hfresh : .told selection ∉ done) {after : Relay} {added : History}
    (told : Told selection property relay after added) :
    Heard targets origin (done ++ [.told selection]) after none (since ++ added) where
  fixed := told.fixed.trans h.fixed
  pending other hbridged hpending := by
    have hother : other ≠ selection := by
      rintro rfl
      exact hpending (List.mem_append_right _ List.mem_cons_self)
    obtain ⟨hawaited, hfront, hvacant⟩ := h.pending other hbridged fun hmem =>
      hpending (List.mem_append_left _ hmem)
    refine ⟨?_, told.front ▸ hfront, hvacant.apart told hother⟩
    rw [told.slots, Slots.awaited_learn, Slots.awaited_arrive_of_ne _ hother]
    exact hawaited
  property last hlast := by
    rw [List.getLast?_concat, Option.mem_some_iff] at hlast
    subst hlast
    rfl
  settled before heard other rest hsplit := by
    rcases Part.split_concat hsplit with ⟨hdone, htold⟩ | ⟨middle, hdone⟩
    · cases htold
      have hleft : property = heard.left targets :=
        h.property heard (by rw [hdone, List.getLast?_concat, Option.mem_some_iff])
      obtain ⟨-, -, hvacant⟩ := h.pending selection bridged hfresh
      have hsettled := hvacant.of_told told
      rwa [hleft, Part.negotiate_left, h.registry] at hsettled
    · refine (h.settled before heard other middle hdone).apart told ?_
      rintro rfl
      exact hfresh (by simp [hdone])

variable {δ : Type} {notify : SelectionNotify}

theorem handle (h : Heard targets origin done relay property since)
    (bridged : selection ≠ .secondary) (hfresh : .told selection ∉ done)
    (reports : origin.Reports selection notify) (history : History) :
    (Relay.handle (.selectionNotify notify) : Action δ Unit).Yields (fun _ after later =>
      ∃ added, later = history ++ added ∧
        (added.ReadsTrue origin.window origin.vocabulary.targets property →
          Heard targets origin (done ++ [.told selection]) after
            (added.property origin.window origin.vocabulary.targets property) (since ++ added)))
      relay history := by
  obtain ⟨current, free, hfront⟩ := h.ready bridged hfresh
  have hreports : relay.Reports selection notify := reports.of_fixed h.fixed
  refine .current_bind ?_
  rw [if_pos hreports.target]
  refine (handleTargets_told hreports current free hfront).mono ?_
  rintro _ after _ ⟨added, rfl, htold⟩
  refine ⟨added, rfl, fun hreads => ?_⟩
  rw [← h.window, ← h.vocabulary] at hreads ⊢
  rw [(htold property hreads).emptied]
  exact h.tell bridged hfresh (htold property hreads)

end Heard

/-- Whether a relay that handles reports, and so far no other event, has come as far as they say. -/
def Hears (targets : Selection → List Atom) (origin : Relay) (done : List Part)
    (property : Option Property) (since : History) (reports : List (Selection × SelectionNotify))
    (relay : Relay) (history : History) : Prop :=
  history.events <+: reports.map (.selectionNotify ·.2) →
    history.ReadsTrue origin.window origin.vocabulary.targets property →
      Heard targets origin (done ++ (reports.take history.events.length).map (.told ·.1)) relay
        (history.property origin.window origin.vocabulary.targets property) (since ++ history)

namespace Hears

variable {targets : Selection → List Atom} {origin relay : Relay} {done rest : List Part}
  {property : Option Property} {since history : History}
  {reports : List (Selection × SelectionNotify)}

theorem calmly (h : Hears targets origin done property since reports relay history)
    {added : History} (hevents : added.events = [])
    (hadded : ∀ moment ∈ added, moment.deed.isDiscreet = true) :
    Hears targets origin done property since reports relay (history ++ added) := by
  intro hcoming hreads
  have hsame : (history ++ added).events = history.events := by
    rw [History.events_append, hevents, List.append_nil]
  rw [hsame] at hcoming ⊢
  have heard := h hcoming (History.readsTrue_append.mp hreads).1
  rw [History.property_append, History.property_of_discreet hadded, ← List.append_assoc]
  exact heard.discreetly hadded

theorem handle {δ : Type} (h : Hears targets origin done property since reports relay history)
    (hreports : ∀ report ∈ reports, origin.Reports report.1 report.2)
    (hinterleaved : Part.Interleaved (done ++ (reports.map (.told ·.1) ++ rest))) (event : Event) :
    (Relay.handle event : Action δ Unit).Yields
      (fun _ => Hears targets origin done property since reports) relay
      (history ++ [⟨relay, .called .pollEvent (some event)⟩]) := by
  have quiet : (Relay.handle event : Action δ Unit).Yields (fun _ _ later => ∃ added,
      later = history ++ [⟨relay, .called .pollEvent (some event)⟩] ++ added ∧ added.events = [])
      relay (history ++ [⟨relay, .called .pollEvent (some event)⟩]) :=
    handle_quiet event
  by_cases hcome : history.events ++ [event] <+: reports.map (.selectionNotify ·.2) ∧
      history.ReadsTrue origin.window origin.vocabulary.targets property
  · obtain ⟨hcoming, hreads⟩ := hcome
    have heard := h ((List.prefix_append _ _).trans hcoming) hreads
    -- The events of the history are the reports that were handled, and this one is the next.
    obtain ⟨later, hlater⟩ := hcoming
    rw [List.append_assoc, List.singleton_append] at hlater
    obtain ⟨told, others, rfl, htold, hothers⟩ := List.map_eq_append_iff.mp hlater.symm
    obtain ⟨⟨selection, notify⟩, more, rfl, rfl, -⟩ := List.map_eq_cons_iff.mp hothers
    rw [← htold, List.length_map, List.take_left] at heard
    rw [List.map_append, List.map_cons, List.append_assoc, List.cons_append,
      ← List.append_assoc] at hinterleaved
    obtain ⟨bridged, -, hfresh⟩ := hinterleaved.told_once
    have polled : ∀ moment ∈
        [Moment.mk relay (.called .pollEvent (some (.selectionNotify notify)))],
        moment.deed.isDiscreet = true := by simp [Deed.isDiscreet]
    have step := (heard.discreetly polled).handle (δ := δ) bridged hfresh
      (hreports (selection, notify) (by simp))
      (history ++ [⟨relay, .called .pollEvent (some (.selectionNotify notify))⟩])
    refine (step.and quiet).mono ?_
    rintro _ after _ ⟨⟨added, rfl, hheard⟩, other, hsame, hquiet⟩ - hreads
    obtain rfl := List.append_cancel_left hsame
    have hevents : (history ++ [⟨relay, .called .pollEvent (some (.selectionNotify notify))⟩] ++
        added : History).events = told.map (.selectionNotify ·.2) ++ [.selectionNotify notify] := by
      rw [History.events_append, hquiet, List.append_nil, History.events_append, htold]
      rfl
    have hreads := (History.readsTrue_append.mp hreads).2
    rw [History.property_append, History.property_of_discreet polled] at hreads
    rw [hevents, List.append_cons told, List.take_left' (by simp), List.map_append,
      ← List.append_assoc, History.property_append, History.property_append,
      History.property_of_discreet polled, ← List.append_assoc, ← List.append_assoc]
    exact hheard hreads
  · refine quiet.mono ?_
    rintro _ after _ ⟨added, rfl, hquiet⟩ hcoming hreads
    rw [History.events_append, hquiet, List.append_nil, History.events_append] at hcoming
    rw [List.append_assoc] at hreads
    exact absurd ⟨hcoming, (History.readsTrue_append.mp hreads).1⟩ hcome

end Hears

theorem dispatch_hears {δ : Type} [Display δ] {targets : Selection → List Atom}
    {origin relay : Relay} {done rest : List Part} {property : Option Property} {since : History}
    {reports : List (Selection × SelectionNotify)}
    (heard : Heard targets origin done relay property since)
    (hreports : ∀ report ∈ reports, origin.Reports report.1 report.2)
    (hinterleaved : Part.Interleaved (done ++ (reports.map (.told ·.1) ++ rest))) :
    (dispatch : Action δ Unit).Yields
      (fun _ => Hears targets origin done property since reports) relay [] := by
  have hbegun : Hears targets origin done property since reports relay [] := by
    intro _ _
    simpa [History.events, History.property] using heard
  intro display
  exact drain_yields (fun _ _ h => h.calmly rfl (by simp [Deed.isDiscreet]))
    (fun _ _ h => h.calmly rfl (by simp [Deed.isDiscreet]))
    (fun event _ _ h => h.handle hreports hinterleaved event) _ hbegun

end Relay

inductive Turn (δ : Type) where
  | store (selection : Selection) (display : δ)
  | report (reports : List (Selection × SelectionNotify)) (display : δ)

namespace Turn

variable {δ : Type}

def moves : Turn δ → List (Move δ)
  | store _ display => [.elapse display]
  | report _ display => [.elapse display, .operate .dispatch]

def parts : Turn δ → List Part
  | store selection _ => [.stored selection]
  | report reports _ => reports.map (.told ·.1)

end Turn

namespace Course

variable {δ : Type} [Display δ] (view : PropertyView δ) (targets : Selection → List Atom)

/-- Whether a turn comes next: an owner stores its targets where the relay asked for them, or the
relay handles these reports and no other event. -/
def Takes (course : Course δ) : Turn δ → Prop
  | .store selection display =>
    view.property? display course.relay.window course.relay.vocabulary.targets =
      some (.listing (targets selection))
  | .report reports display =>
    view.property? display course.relay.window course.relay.vocabulary.targets =
        view.property? course.session.display course.relay.window course.relay.vocabulary.targets ∧
      (∀ report ∈ reports, course.relay.Reports report.1 report.2) ∧
      History.events (Relay.dispatch.history (course.move (.elapse display)).session) =
        reports.map (.selectionNotify ·.2)

def TakesAll (course : Course δ) : List (Turn δ) → Prop
  | [] => True
  | turn :: turns => course.Takes view targets turn ∧ (course.after turn.moves).TakesAll turns

variable {view targets} {course : Course δ} {origin : Relay} {done rest : List Part}
  {since : History}

theorem heard_turn {turn : Turn δ} (h : Relay.Heard targets origin done course.relay
      (view.property? course.session.display origin.window origin.vocabulary.targets) since)
    (hinterleaved : Part.Interleaved (done ++ (turn.parts ++ rest)))
    (htakes : course.Takes view targets turn)
    (hfaultless : (course.after turn.moves).history.faultless = true) :
    ∃ added, (course.after turn.moves).history = course.history ++ added ∧
      Relay.Heard targets origin (done ++ turn.parts) (course.after turn.moves).relay
        (view.property? (course.after turn.moves).session.display origin.window
          origin.vocabulary.targets) (since ++ added) := by
  cases turn with
  | store selection display =>
    rw [Takes, h.window, h.vocabulary] at htakes
    refine ⟨[], (List.append_nil _).symm, ?_⟩
    rw [List.append_nil]
    exact htakes ▸ h.store selection
  | report reports display =>
    obtain ⟨hkept, hreports, hevents⟩ := htakes
    rw [h.window, h.vocabulary] at hkept
    have began : ∀ moment ∈ [Moment.mk course.relay (.began .dispatch)],
        moment.deed.isDiscreet = true := by simp [Deed.isDiscreet]
    have heard : Relay.Heard targets origin done course.relay
        (view.property? display origin.window origin.vocabulary.targets)
        (since ++ [⟨course.relay, .began .dispatch⟩]) := hkept ▸ h.discreetly began
    have hhistory : (course.after (Turn.report reports display).moves).history = course.history ++
        ([⟨course.relay, .began .dispatch⟩] ++
          Relay.dispatch.history (course.move (.elapse display)).session) := rfl
    rw [hhistory, ← List.append_assoc, History.faultless_append, Bool.and_eq_true] at hfaultless
    obtain ⟨_, hended⟩ := (Action.faultless_history _ _).mp hfaultless.2
    have hrun := Action.run_of_ok hended
    have hears := Action.Ensures.run (course.move (.elapse display)).session (Relay.dispatch_hears
      heard (fun report hmem => (hreports report hmem).of_fixed h.fixed.symm) hinterleaved)
    rw [hrun, List.nil_append] at hears
    have hended := hears (by rw [hevents])
      (view.readsTrue_history origin.window origin.vocabulary.targets _ _)
    rw [hevents, List.length_map, List.take_length, List.append_assoc] at hended
    refine ⟨_, hhistory, ?_⟩
    rw [show view.property? (course.after (Turn.report reports display).moves).session.display
      origin.window origin.vocabulary.targets = _ from view.left_run _ _ hrun]
    exact hended

theorem heard_turns {turns : List (Turn δ)} (h : Relay.Heard targets origin done course.relay
      (view.property? course.session.display origin.window origin.vocabulary.targets) since)
    (hinterleaved : Part.Interleaved (done ++ turns.flatMap Turn.parts))
    (htakes : course.TakesAll view targets turns)
    (hfaultless : (course.after (turns.flatMap Turn.moves)).history.faultless = true) :
    ∃ added, (course.after (turns.flatMap Turn.moves)).history = course.history ++ added ∧
      Relay.Heard targets origin (done ++ turns.flatMap Turn.parts)
        (course.after (turns.flatMap Turn.moves)).relay
        (view.property? (course.after (turns.flatMap Turn.moves)).session.display origin.window
          origin.vocabulary.targets) (since ++ added) := by
  induction turns generalizing course done since with
  | nil => exact ⟨[], (List.append_nil _).symm, by simpa [Course.after] using h⟩
  | cons turn turns ih =>
    obtain ⟨htakes, hrest⟩ := htakes
    rw [List.flatMap_cons] at hinterleaved hfaultless
    rw [after_append] at hfaultless
    obtain ⟨first, hfirst, heard⟩ :=
      heard_turn h hinterleaved htakes (faultless_of_after hfaultless)
    rw [← List.append_assoc] at hinterleaved
    obtain ⟨later, hlater, hended⟩ := ih heard hinterleaved hrest hfaultless
    refine ⟨first ++ later, ?_, ?_⟩
    · rw [List.flatMap_cons, after_append, hlater, hfirst, List.append_assoc]
    · rw [List.flatMap_cons, List.flatMap_cons, after_append, ← List.append_assoc,
        ← List.append_assoc]
      exact hended

theorem heard_nothing {display : δ} {course : Course δ} (hstart : start display = some course)
    {moves : List (Move δ)} (hfaultless : (course.after moves).history.faultless = true)
    (outstanding : ∀ selection ≠ .secondary,
      ((course.after moves).relay.slots.get selection).awaited = 1 ∧
        (course.after moves).relay.slots.owner selection ≠ .agent) (property : Option Property) :
    Relay.Heard targets (course.after moves).relay [] (course.after moves).relay property [] where
  fixed := rfl
  pending selection bridged _ := by
    obtain ⟨hawaited, free⟩ := outstanding selection bridged
    refine ⟨hawaited, fun hfront => ?_, ?_, rfl⟩
    · obtain ⟨request, hhead, rfl⟩ := Option.map_eq_some_iff.mp hfront
      obtain ⟨rest, hrequests⟩ := List.head?_eq_some_iff.mp hhead
      exact free ((booked_after hstart hfaultless).owned hrequests rfl)
    · have hsettled := (seen_after hstart hfaultless).settled selection
      rw [Stage.holder_of_idle rfl] at hsettled
      rw [Slots.owner] at free
      rw [if_pos rfl]
      cases hholder : (course.after moves).relay.slots.holder selection with
      | nobody => rfl
      | agent types =>
        rw [hholder] at free
        exact absurd rfl free
      | desktop offers =>
        have hanswered : ((course.after moves).relay.slots.get selection).awaited = 0 :=
          hsettled (congrArg Holder.owner hholder)
        rw [hawaited] at hanswered
        cases hanswered
  property _ hlast := by cases hlast
  settled before heard selection rest hsplit := by simp at hsplit

/-- When both owners answer at the same time, each selection is held with what was stored last
before its own owner's report, whoever stored it, and by nobody if the other report came in
between. -/
theorem settled_by_last_store (view : PropertyView δ) (targets : Selection → List Atom)
    {display : δ} {begun : Course δ} (hstart : start display = some begun)
    (moves : List (Move δ)) (turns : List (Turn δ))
    (outstanding : ∀ selection ≠ .secondary,
      ((begun.after moves).relay.slots.get selection).awaited = 1 ∧
        (begun.after moves).relay.slots.owner selection ≠ .agent)
    (interleaved : Part.Interleaved (turns.flatMap Turn.parts))
    (htakes : (begun.after moves).TakesAll view targets turns)
    (hfaultless :
      ((begun.after moves).after (turns.flatMap Turn.moves)).history.faultless = true) :
    ∃ added, ((begun.after moves).after (turns.flatMap Turn.moves)).history =
        (begun.after moves).history ++ added ∧
      ∀ selection ≠ .secondary, ∃ before heard rest,
        turns.flatMap Turn.parts = before ++ heard :: .told selection :: rest ∧
        ((begun.after moves).after (turns.flatMap Turn.moves)).relay.Settled added selection
          (heard.learned targets (begun.after moves).relay.registry) := by
  obtain ⟨added, hadded, hended⟩ := heard_turns
    (heard_nothing hstart (faultless_of_after hfaultless) outstanding _) interleaved htakes
    hfaultless
  refine ⟨added, hadded, fun selection bridged => ?_⟩
  obtain ⟨before, heard, rest, hsplit⟩ := interleaved.exists_told bridged
  exact ⟨before, heard, rest, hsplit, hended.settled before heard selection rest hsplit⟩

def askingBoth : List (Move Memory.Display) :=
  [.elapse { events := [.ownerChanged ⟨100⟩ ⟨42⟩, .ownerChanged ⟨101⟩ ⟨43⟩] },
    .operate .dispatch]

def textAndPicture : Selection → List Atom
  | .clipboard => [⟨105⟩]
  | .primary => [⟨108⟩]
  | .secondary => []

/-- Both owners store what they offer before either of them is reported to have done so. -/
def storingBoth : List (Turn Memory.Display) :=
  [.store .clipboard { properties := { entries := [⟨⟨1⟩, ⟨102⟩, .listing [⟨105⟩]⟩] } },
    .store .primary { properties := { entries := [⟨⟨1⟩, ⟨102⟩, .listing [⟨108⟩]⟩] } },
    .report [(.clipboard, ⟨0, ⟨1⟩, ⟨100⟩, ⟨102⟩, ⟨102⟩⟩)]
      { properties := { entries := [⟨⟨1⟩, ⟨102⟩, .listing [⟨108⟩]⟩] }
        events := [.selectionNotify ⟨0, ⟨1⟩, ⟨100⟩, ⟨102⟩, ⟨102⟩⟩] },
    .report [(.primary, ⟨0, ⟨1⟩, ⟨101⟩, ⟨102⟩, ⟨102⟩⟩)]
      { events := [.selectionNotify ⟨0, ⟨1⟩, ⟨101⟩, ⟨102⟩, ⟨102⟩⟩] }]

theorem interleaved_storingBoth : Part.Interleaved (storingBoth.flatMap Turn.parts) := by
  intro selection
  cases selection <;> rfl

theorem takesAll_storingBoth : (((start ({} : Memory.Display)).get (by decide +kernel)).after
    askingBoth).TakesAll Memory.Display.propertyView textAndPicture storingBoth := by
  refine ⟨?_, ?_, ⟨?_, ?_, ?_⟩, ⟨?_, ?_, ?_⟩, trivial⟩
  case refine_1 | refine_2 =>
    rw [Takes]
    decide +kernel
  case refine_4 | refine_7 =>
    simp only [List.forall_mem_singleton]
    refine ⟨?_, ?_, ?_, ?_, ?_⟩
    all_goals decide +kernel
  all_goals decide +kernel

theorem settled_by_last_store_storingBoth : ∃ course,
    start ({} : Memory.Display) = some course ∧
    ∃ added, ((course.after askingBoth).after (storingBoth.flatMap Turn.moves)).history =
        (course.after askingBoth).history ++ added ∧
      ∀ selection ≠ .secondary, ∃ before heard rest,
        storingBoth.flatMap Turn.parts = before ++ heard :: .told selection :: rest ∧
        ((course.after askingBoth).after (storingBoth.flatMap Turn.moves)).relay.Settled added
          selection (heard.learned textAndPicture (course.after askingBoth).relay.registry) := by
  have hstart : start ({} : Memory.Display) =
      some ((start {}).get (by decide +kernel)) := (Option.some_get _).symm
  have hclipboard : ((((start ({} : Memory.Display)).get (by decide +kernel)).after
      askingBoth).relay.slots.get .clipboard).awaited = 1 ∧ (((start ({} : Memory.Display)).get
        (by decide +kernel)).after askingBoth).relay.slots.owner .clipboard ≠ .agent := by
    decide +kernel
  have hprimary : ((((start ({} : Memory.Display)).get (by decide +kernel)).after
      askingBoth).relay.slots.get .primary).awaited = 1 ∧ (((start ({} : Memory.Display)).get
        (by decide +kernel)).after askingBoth).relay.slots.owner .primary ≠ .agent := by
    decide +kernel
  have hfaultless : ((((start ({} : Memory.Display)).get (by decide +kernel)).after
      askingBoth).after (storingBoth.flatMap Turn.moves)).history.faultless = true := by
    decide +kernel
  refine ⟨_, hstart, settled_by_last_store _ _ hstart askingBoth storingBoth ?_
    interleaved_storingBoth takesAll_storingBoth hfaultless⟩
  intro selection bridged
  cases selection with
  | clipboard => exact hclipboard
  | primary => exact hprimary
  | secondary => exact absurd rfl bridged

/-- The clipboard is taken to hold the picture of the other owner, of whom nothing is learned. -/
theorem offers_mixed_up : ∃ course, start ({} : Memory.Display) = some course ∧
    (course.after askingBoth).TakesAll Memory.Display.propertyView textAndPicture storingBoth ∧
    ((course.after askingBoth).relay.registry.negotiate (textAndPicture .clipboard)).map (·.1) =
      [.utf8Text] ∧
    ((course.after askingBoth).relay.registry.negotiate (textAndPicture .primary)).map (·.1) =
      [.imagePng] ∧
    ((course.after askingBoth).after (storingBoth.flatMap Turn.moves)).history.faultless = true ∧
    ((course.after askingBoth).after (storingBoth.flatMap Turn.moves)).relay.slots.types
      .clipboard = [.imagePng] ∧
    ((course.after askingBoth).after (storingBoth.flatMap Turn.moves)).relay.slots.owner
      .primary = .nobody ∧
    ((course.after askingBoth).after (storingBoth.flatMap Turn.moves)).history.grabs .primary =
      [] := by
  have hstart : start ({} : Memory.Display) =
      some ((start {}).get (by decide +kernel)) := (Option.some_get _).symm
  exact ⟨_, hstart, takesAll_storingBoth, by decide +kernel, by decide +kernel, by decide +kernel,
    by decide +kernel, by decide +kernel, by decide +kernel⟩

end Course

end ClipboardRelay
