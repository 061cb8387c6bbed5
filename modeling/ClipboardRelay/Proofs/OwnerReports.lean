import ClipboardRelay.Proofs.PropertyView
import ClipboardRelay.Proofs.Upholding
/-!
What the relay learns from an owner's report that its targets are stored. Main statement: a report
that answers the last question is taken for what the property holds then. That is deleted, and every
other selection stays as it is.
-/

namespace ClipboardRelay

def Deed.isDiscreet : Deed → Bool
  | called (.getProperty _ _ true) _ | called (.deleteProperty ..) _
  | called (.changeProperty ..) _ | sent (.grab ..) => false
  | _ => true

theorem Deed.property_of_discreet {deed : Deed} (h : deed.isDiscreet = true) (window : Window)
    (name : Atom) (old : Option Property) : deed.property window name old = old := by
  unfold Deed.property
  split
  case h_4 => rfl
  all_goals cases h

namespace History

def grabs (selection : Selection) (history : History) : List (List ContentType) :=
  history.filterMap fun moment =>
    match moment.deed with
    | .sent (.grab owned types) => if owned = selection then some types else none
    | _ => none

@[simp] theorem grabs_append (selection : Selection) (first second : History) :
    (first ++ second).grabs selection = first.grabs selection ++ second.grabs selection :=
  List.filterMap_append

theorem grabs_sent (relay : Relay) (owned selection : Selection) (types : List ContentType) :
    History.grabs selection [⟨relay, .sent (.grab owned types)⟩] =
      if selection = owned then [types] else [] := by
  by_cases h : selection = owned
  · simp [grabs, h]
  · simp [grabs, h, Ne.symm h]

variable {history : History} (h : ∀ moment ∈ history, moment.deed.isDiscreet = true)

include h

theorem property_of_discreet (window : Window) (name : Atom) (old : Option Property) :
    history.property window name old = old :=
  property_of_kept fun moment hmoment => Deed.property_of_discreet (h moment hmoment) window name

theorem grabs_of_discreet (selection : Selection) : history.grabs selection = [] := by
  refine List.filterMap_eq_nil_iff.mpr fun moment hmoment => ?_
  have hdiscreet := h moment hmoment
  split
  case h_1 hdeed =>
    rw [hdeed] at hdiscreet
    cases hdiscreet
  case h_2 => rfl

end History

def Property.atoms (property : Property) : List Atom :=
  if property.type = Atom.atomType then (property.words?.getD []).map Atom.mk else []

def Property.listing (targets : List Atom) : Property :=
  (Content.words (targets.map (·.number))).toProperty Atom.atomType

theorem Property.atoms_listing (targets : List Atom) : (listing targets).atoms = targets := by
  have htype : (listing targets).type = Atom.atomType := rfl
  have hwords : (listing targets).words? = some (targets.map (·.number)) :=
    Content.words?_toProperty_words _ _
  rw [atoms, if_pos htype, hwords, Option.getD_some, List.map_map]
  exact List.map_id targets

def Slots.learn (slots : Slots) (selection : Selection) (learned : List (ContentType × Atom)) :
    Slots :=
  if learned = [] then slots
  else slots.setHolder selection (.desktop (learned.map fun (type, target) => { type, target }))

namespace Slots

variable (slots : Slots) (selection : Selection) (learned : List (ContentType × Atom))

theorem holder_learn_self : (slots.learn selection learned).holder selection =
    if learned = [] then slots.holder selection
    else .desktop (learned.map fun (type, target) => { type, target }) := by
  unfold learn
  split
  · rfl
  · exact holder_setHolder_self _ _ _

theorem holder_learn_of_ne {other : Selection} (h : other ≠ selection) :
    (slots.learn selection learned).holder other = slots.holder other := by
  unfold learn
  split
  · rfl
  · rw [holder_setHolder, if_neg (Ne.symm h)]

theorem awaited_learn (other : Selection) :
    ((slots.learn selection learned).get other).awaited = (slots.get other).awaited := by
  unfold learn
  split
  · rfl
  · exact awaited_setHolder _ _ _ _

end Slots

namespace Relay

open ClipboardRelay.Action (Spares Yields)

variable {δ : Type} {relay : Relay} {history : History}

def front? (relay : Relay) : Option Selection :=
  relay.requests.head?.map (·.selection)

def footing (relay : Relay) : ((Window × Vocabulary × Registry) × Slots) × Option Selection :=
  (relay.standing, relay.front?)

theorem dropFetches_discreet (selection : Selection) :
    Spares footing Deed.isDiscreet (dropFetches selection : Action δ Unit) :=
  (dropFetches_spares selection).mono footing (fun _ => rfl) fun deed hadvancing => by
    unfold Deed.isDiscreet
    split
    case h_5 => rfl
    all_goals cases hadvancing

theorem refuseAll_discreet (events : List SelectionRequest) :
    Spares footing Deed.isDiscreet (refuseAll events : Action δ Unit) := by
  induction events with
  | nil => exact .pure
  | cons event events ih => exact .bind (spares_call fun _ => rfl) fun _ => ih

theorem dropRequests_discreet {selection : Selection} (hfront : relay.front? ≠ some selection) :
    (dropRequests selection : Action δ Unit).Yields
      (fun _ => Spared footing Deed.isDiscreet relay history) relay history := by
  have hkept : ({ relay with requests := relay.requests.filter (·.selection ≠ selection) } :
      Relay).footing = relay.footing := by
    refine Prod.ext rfl ?_
    simp only [footing, front?] at hfront ⊢
    cases hrequests : relay.requests with
    | nil => rfl
    | cons request requests =>
      have hother : request.selection ≠ selection := by simpa [hrequests] using hfront
      rw [List.filter_cons_of_pos (by simpa using hother)]
      rfl
  have hrest (action : Action δ Unit) (h : action.Spares footing Deed.isDiscreet) :
      action.Yields (fun _ => Spared footing Deed.isDiscreet relay history)
        { relay with requests := relay.requests.filter (·.selection ≠ selection) } history :=
    h.yields_spared ⟨hkept, [], (List.append_nil _).symm, by simp⟩
  rw [front?] at hfront
  refine .current_bind ?_
  dsimp only
  simp only [if_neg hfront]
  split
  · exact .refl
  · refine .update_bind (hrest _ ?_)
    exact .bind (spares_remark rfl) fun _ => .bind (refuseAll_discreet _) fun _ => .pure

theorem changeHolder_discreet {selection : Selection} (holder : Holder)
    (hfront : relay.front? ≠ some selection) :
    (changeHolder selection holder : Action δ Unit).Yields (fun _ after later =>
      after.footing =
        ((relay.standing.1, relay.slots.setHolder selection holder), relay.front?) ∧
        ∃ added, later = history ++ added ∧ ∀ moment ∈ added, moment.deed.isDiscreet = true)
      relay history := by
  refine (changeHolder_yields holder (dropRequests_discreet hfront)
    (dropFetches_discreet selection) rfl).mono ?_
  rintro _ _ later ⟨⟨last, hkept, rfl⟩, hadded⟩
  refine ⟨?_, hadded⟩
  exact congrArg (fun footing : (_ × Slots) × Option Selection =>
    ((footing.1.1, footing.1.2.setHolder selection holder), footing.2)) hkept

/-- What becomes of a relay that learned what the owner of a selection offers, and what it did. -/
structure Learns (selection : Selection) (learned : List (ContentType × Atom))
    (origin relay : Relay) (added : History) : Prop where
  footing : relay.footing =
    ((origin.standing.1, origin.slots.learn selection learned), origin.front?)
  property : ∀ window name old, added.property window name old = old
  grabs : ∀ other, added.grabs other =
    if other = selection ∧ learned ≠ [] then [learned.map (·.1)] else []

theorem Learns.discreetly {selection : Selection} {added : History}
    (hadded : ∀ moment ∈ added, moment.deed.isDiscreet = true) :
    Learns selection [] relay relay added where
  footing := by simp [Slots.learn, Relay.footing, Relay.standing]
  property := History.property_of_discreet hadded
  grabs other := by simp [History.grabs_of_discreet hadded]

/-- An owner that offers something which the agent knows is announced, and holds the selection. -/
theorem acceptTargets_learns {selection : Selection} (offered : List Atom)
    (hfront : relay.front? ≠ some selection) :
    (acceptTargets selection offered : Action δ Unit).Yields (fun _ after later =>
      ∃ added, later = history ++ added ∧
        Learns selection (relay.registry.negotiate offered) relay after added) relay history := by
  have hlisted : ∀ moment ∈ (Notice.about selection (.targetsReceived offered.length) ::
      offered.map fun target => .about selection (.listed target)).map
        (fun notice => Moment.mk relay (.noted notice)), moment.deed.isDiscreet = true :=
    List.forall_mem_map.mpr fun _ _ => rfl
  unfold acceptTargets
  rw [Yields, Action.ensures_bind, remarkTargets, ensures_noteAll, Action.ensures_bind,
    ensures_current]
  split
  case h_1 nothing =>
    rw [nothing, ensures_remark]
    refine ⟨_, List.append_assoc .., .discreetly fun moment hmoment => ?_⟩
    rcases List.mem_append.mp hmoment with hold | hnew
    · exact hlisted moment hold
    · rw [List.mem_singleton.mp hnew]
      rfl
  case h_2 learned hlearned =>
    rw [Action.ensures_bind, ensures_send]
    refine (changeHolder_discreet (.desktop _) hfront).mono ?_
    rintro _ after _ ⟨hfooting, added, rfl, hadded⟩
    have hsome : relay.registry.negotiate offered ≠ [] := hlearned
    refine ⟨_, by rw [List.append_assoc, List.append_assoc], ?_, fun window name old => ?_,
      fun other => ?_⟩
    · rw [hfooting, Slots.learn, if_neg hsome]
    · rw [History.property_append, History.property_of_discreet hlisted, History.property_append,
        History.property_of_discreet hadded]
      rfl
    · rw [History.grabs_append, History.grabs_of_discreet hlisted, History.grabs_append,
        History.grabs_sent, History.grabs_of_discreet hadded]
      simp [hsome]

/-- Whether a report says that the targets of a selection are where the relay asked for them. -/
structure Reports (relay : Relay) (selection : Selection) (notify : SelectionNotify) : Prop where
  requestor : notify.requestor = relay.window
  named : relay.vocabulary.selection? notify.selection = some selection
  target : notify.target = relay.vocabulary.targets
  property : notify.property = relay.vocabulary.targets
  granted : notify.property ≠ Atom.null

theorem Reports.of_fixed {selection : Selection} {notify : SelectionNotify} {other : Relay}
    (h : relay.Reports selection notify) (hfixed : other.standing.1 = relay.standing.1) :
    other.Reports selection notify := by
  have hwindow : other.window = relay.window := congrArg (·.1) hfixed
  have hvocabulary : other.vocabulary = relay.vocabulary := congrArg (·.2.1) hfixed
  refine ⟨?_, ?_, ?_, ?_, h.granted⟩
  · rw [hwindow, h.requestor]
  · rw [hvocabulary, h.named]
  · rw [hvocabulary, h.target]
  · rw [hvocabulary, h.property]

theorem readTargets_reads {selection : Selection} {notify : SelectionNotify}
    (reports : relay.Reports selection notify) :
    (readTargets selection notify : Action δ (Option (List Atom))).Yields
      (fun offered after later => after = relay ∧ ∃ found added,
        later = history ++ ⟨relay, .called (.getProperty relay.window relay.vocabulary.targets true)
          found⟩ :: added ∧ (∀ moment ∈ added, moment.deed.isDiscreet = true) ∧
        offered.getD [] = (found.map Property.atoms).getD []) relay history := by
  have hfits :
      ¬ (notify.requestor ≠ relay.window ∨ notify.property ≠ relay.vocabulary.targets) := by
    simp [reports.requestor, reports.property]
  refine .current_bind ?_
  dsimp only
  rw [if_neg reports.granted, if_neg hfits]
  refine ensures_call_bind (fun found => ?_) fun _ => trivial
  split
  case h_1 => exact ⟨rfl, none, [_], List.append_assoc .., by simp [Deed.isDiscreet], rfl⟩
  case h_2 property =>
    split
    case isTrue hother =>
      refine ⟨rfl, some property, [_], List.append_assoc .., by simp [Deed.isDiscreet], ?_⟩
      simp [Property.atoms, hother]
    case isFalse hatoms =>
      rw [not_not] at hatoms
      split
      case h_1 hwords =>
        refine ⟨rfl, some property, [_], List.append_assoc .., by simp [Deed.isDiscreet], ?_⟩
        simp [Property.atoms, hwords]
      case h_2 hwords =>
        refine ⟨rfl, some property, [_], List.append_assoc .., by simp [Deed.isDiscreet], ?_⟩
        simp [Property.atoms, hwords]
      case h_3 words _ hwords =>
        refine ⟨rfl, some property, [], rfl, by simp, ?_⟩
        simp [Property.atoms, hatoms, hwords]

/-- What becomes of a relay that was told where the targets of a selection are, and what it did, if
the property was `old`. -/
structure Told (selection : Selection) (old : Option Property) (origin relay : Relay)
    (added : History) : Prop where
  footing : relay.footing = ((origin.standing.1, (origin.slots.arrive selection).2.learn selection
    (origin.registry.negotiate ((old.map Property.atoms).getD []))), origin.front?)
  emptied : added.property origin.window origin.vocabulary.targets old = none
  grabs : ∀ other, added.grabs other =
    if other = selection ∧ origin.registry.negotiate ((old.map Property.atoms).getD []) ≠ [] then
      [(origin.registry.negotiate ((old.map Property.atoms).getD [])).map (·.1)] else []

namespace Told

variable {selection : Selection} {old : Option Property} {origin relay : Relay} {added : History}

theorem fixed (h : Told selection old origin relay added) :
    relay.standing.1 = origin.standing.1 :=
  (congrArg (·.1.1) h.footing :)

theorem slots (h : Told selection old origin relay added) :
    relay.slots = (origin.slots.arrive selection).2.learn selection
      (origin.registry.negotiate ((old.map Property.atoms).getD [])) :=
  (congrArg (·.1.2) h.footing :)

theorem front (h : Told selection old origin relay added) : relay.front? = origin.front? :=
  (congrArg (·.2) h.footing :)

end Told

theorem Learns.told {selection : Selection} {old : Option Property} {origin after : Relay}
    {slots : Slots} {noted added : History} (harrive : (origin.slots.arrive selection).2 = slots)
    (hnoted : ∀ moment ∈ noted, moment.deed.isDiscreet = true)
    (h : Learns selection (origin.registry.negotiate ((old.map Property.atoms).getD []))
      (origin.withSlots slots) after added) :
    Told selection old origin after (⟨origin.withSlots slots, .called (.getProperty origin.window
      origin.vocabulary.targets true) old⟩ :: noted ++ added) where
  footing := by
    rw [harrive]
    exact h.footing
  emptied := by
    rw [History.property_append, h.property, ← List.singleton_append, History.property_append,
      History.property_of_discreet hnoted]
    simp [History.property, Deed.property]
  grabs other := by
    rw [History.grabs_append, h.grabs, ← List.singleton_append, History.grabs_append,
      History.grabs_of_discreet hnoted]
    rfl

theorem handleTargets_told {selection : Selection} {notify : SelectionNotify}
    (reports : relay.Reports selection notify)
    (current : (relay.slots.arrive selection).1 = .current)
    (free : relay.slots.owner selection ≠ .agent) (hfront : relay.front? ≠ some selection) :
    (handleTargets notify : Action δ Unit).Yields (fun _ after later =>
      ∃ added, later = history ++ added ∧ ∀ old,
        added.ReadsTrue relay.window relay.vocabulary.targets old →
          Told selection old relay after added) relay history := by
  have hfree : (relay.slots.arrive selection).2.owner selection ≠ .agent := by
    rwa [Slots.owner, Slots.holder_arrive]
  refine .current_bind ?_
  rw [reports.named]
  dsimp only
  rcases harrive : relay.slots.arrive selection with ⟨arrival, slots⟩
  rw [harrive] at current hfree
  dsimp only at current hfree
  subst current
  refine .update_bind ?_
  dsimp only
  rw [if_neg hfree]
  have hfront : (relay.withSlots slots).front? ≠ some selection := hfront
  have hreports : (relay.withSlots slots).Reports selection notify :=
    ⟨reports.requestor, reports.named, reports.target, reports.property, reports.granted⟩
  refine Yields.bind (readTargets_reads hreports) ?_
  rintro offered _ _ ⟨rfl, found, noted, rfl, hnoted, hoffered⟩
  have told {after : Relay} {later : History} (h : ∃ added,
        later = history ++ ⟨relay.withSlots slots, .called (.getProperty relay.window
          relay.vocabulary.targets true) found⟩ :: noted ++ added ∧
        Learns selection (relay.registry.negotiate (offered.getD [])) (relay.withSlots slots)
          after added) :
      ∃ added, later = history ++ added ∧ ∀ old,
        added.ReadsTrue relay.window relay.vocabulary.targets old →
          Told selection old relay after added := by
    obtain ⟨added, rfl, hlearns⟩ := h
    refine ⟨_, List.append_assoc .., fun old hreads => ?_⟩
    have hfound : found = old := hreads [] _ _ rfl true found rfl
    subst hfound
    exact Learns.told (congrArg Prod.snd harrive) hnoted (hoffered ▸ hlearns)
  split
  case h_1 =>
    refine told ⟨[], (List.append_nil _).symm, ?_⟩
    rw [Option.getD_none, Registry.negotiate_nil]
    exact .discreetly (by simp)
  case h_2 offered =>
    exact (acceptTargets_learns offered hfront).mono fun _ _ _ => told

end Relay

end ClipboardRelay
