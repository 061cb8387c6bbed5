import ClipboardRelay.Proofs.WellFormed
/-!
What the atoms stand for. The relay never changes its tables of names, and it is well-formed
whenever an operation begins or an event is polled. Main statement: if no atom stands for two names,
a target that an owner is asked for stands for the kind of content that the agent asked for.
-/

namespace ClipboardRelay

def Vocabulary.atoms (vocabulary : Vocabulary) : List Atom :=
  [vocabulary.clipboard, vocabulary.primary, vocabulary.targets, vocabulary.incr,
    vocabulary.multiple]

def Registry.targets (registry : Registry) : List Atom :=
  registry.formats.flatMap (·.targets)

def Relay.names (relay : Relay) : Window × Vocabulary × Registry :=
  (relay.window, relay.vocabulary, relay.registry)

/-- Whether all atoms that a relay knows of are different, and none of them is null. -/
structure Relay.TellsApart (relay : Relay) : Prop where
  distinct : (relay.vocabulary.atoms ++ relay.registry.targets).Nodup
  named : Atom.null ∉ relay.vocabulary.atoms ++ relay.registry.targets

namespace Registry

theorem typeFor_eq_some {registry : Registry} (hdistinct : registry.targets.Nodup)
    {format : Format} (hformat : format ∈ registry.formats) {target : Atom}
    (htarget : target ∈ format.targets) : registry.typeFor target = some format.type := by
  obtain ⟨formats⟩ := registry
  simp only [typeFor, targets] at hdistinct hformat ⊢
  induction formats with
  | nil => cases hformat
  | cons first formats ih =>
    rw [List.flatMap_cons, List.nodup_append] at hdistinct
    rcases List.mem_cons.mp hformat with rfl | hlater
    · rw [List.find?_cons_of_pos (by simpa using htarget)]
      rfl
    · have hlisted : target ∈ formats.flatMap (·.targets) :=
        List.mem_flatMap.mpr ⟨format, hlater, htarget⟩
      have hother : target ∉ first.targets := fun hfirst =>
        hdistinct.2.2 target hfirst target hlisted rfl
      rw [List.find?_cons_of_neg (by simpa using hother)]
      exact ih hdistinct.2.1 hlater

theorem mem_targets_of_typeFor {registry : Registry} {target : Atom} {type : ContentType}
    (h : registry.typeFor target = some type) : target ∈ registry.targets := by
  obtain ⟨format, hfind, -⟩ := Option.map_eq_some_iff.mp h
  have htarget := List.find?_some hfind
  exact List.mem_flatMap.mpr ⟨format, List.mem_of_find?_eq_some hfind, by simpa using htarget⟩

theorem Lists.exists_of_mem {registry : Registry} {offers : List Offer}
    (h : registry.Lists offers) {offer : Offer} (hoffer : offer ∈ offers) :
    ∃ format ∈ registry.formats, offer.type = format.type ∧ offer.target ∈ format.targets := by
  obtain ⟨formats, hsublist, hfits⟩ := h
  obtain ⟨index, hindex, rfl⟩ := List.getElem_of_mem hoffer
  have hfit := hfits.get hindex (hfits.length_eq ▸ hindex)
  exact ⟨_, hsublist.subset (List.getElem_mem _), hfit⟩

end Registry

theorem Vocabulary.eq_or_eq_of_atom? {vocabulary : Vocabulary} {selection : Selection}
    {atom : Atom} (h : vocabulary.atom? selection = some atom) :
    atom = vocabulary.clipboard ∨ atom = vocabulary.primary := by
  cases selection with
  | clipboard => exact .inl (Option.some.inj h).symm
  | primary => exact .inr (Option.some.inj h).symm
  | secondary => cases h

namespace Relay.TellsApart

variable {relay : Relay}

theorem of_names (h : relay.TellsApart) {other : Relay} (hnames : other.names = relay.names) :
    other.TellsApart := by
  have hvocabulary : other.vocabulary = relay.vocabulary := congrArg (·.2.1) hnames
  have hregistry : other.registry = relay.registry := congrArg (·.2.2) hnames
  refine ⟨?_, ?_⟩
  · rw [hvocabulary, hregistry]
    exact h.distinct
  · rw [hvocabulary, hregistry]
    exact h.named

theorem targets_nodup (h : relay.TellsApart) : relay.registry.targets.Nodup :=
  (List.nodup_append.mp h.distinct).2.1

theorem incr_ne_targets (h : relay.TellsApart) :
    relay.vocabulary.incr ≠ relay.vocabulary.targets := by
  have hatoms := (List.nodup_append.mp h.distinct).1
  simp only [Vocabulary.atoms, List.nodup_cons, List.mem_cons, not_or] at hatoms
  exact Ne.symm hatoms.2.2.1.1

theorem target_not_mem_atoms (h : relay.TellsApart) {target : Atom} {type : ContentType}
    (known : relay.registry.typeFor target = some type) : target ∉ relay.vocabulary.atoms := by
  intro hatoms
  have htargets := Registry.mem_targets_of_typeFor known
  exact (List.nodup_append.mp h.distinct).2.2 _ hatoms _ htargets rfl

theorem target_ne_targets (h : relay.TellsApart) {target : Atom} {type : ContentType}
    (known : relay.registry.typeFor target = some type) : target ≠ relay.vocabulary.targets := by
  rintro rfl
  exact h.target_not_mem_atoms known (by simp [Vocabulary.atoms])

theorem target_ne_incr (h : relay.TellsApart) {target : Atom} {type : ContentType}
    (known : relay.registry.typeFor target = some type) : target ≠ relay.vocabulary.incr := by
  rintro rfl
  exact h.target_not_mem_atoms known (by simp [Vocabulary.atoms])

theorem atom?_ne (h : relay.TellsApart) {selection : Selection} {atom : Atom}
    (named : relay.vocabulary.atom? selection = some atom) :
    atom ≠ relay.vocabulary.targets ∧ atom ≠ .null := by
  have hatoms := (List.nodup_append.mp h.distinct).1
  have hnull := h.named
  simp only [Vocabulary.atoms, List.nodup_cons, List.mem_cons, List.mem_append, not_or]
    at hatoms hnull
  rcases Vocabulary.eq_or_eq_of_atom? named with rfl | rfl
  · exact ⟨hatoms.1.2.1, Ne.symm hnull.1.1⟩
  · exact ⟨hatoms.2.1.1, Ne.symm hnull.1.2.1⟩

end Relay.TellsApart

theorem Relay.WellFormed.meaningful_of_fetch? {relay : Relay} (h : relay.WellFormed)
    {selection : Selection} {type : ContentType} {fetch : Fetch}
    (hfetch : relay.fetch? selection type = some fetch) : type ≠ .none := by
  rintro rfl
  obtain ⟨-, target, htarget, rfl⟩ := Relay.exists_of_fetch? hfetch
  cases hholder : relay.slots.holder selection with
  | nobody | agent types =>
    rw [hholder] at htarget
    cases htarget
  | desktop offers =>
    rw [hholder] at htarget
    obtain ⟨offer, hfind, -⟩ := Option.map_eq_some_iff.mp htarget
    have hmeaningful := (h.held selection).meaningful
    rw [hholder] at hmeaningful
    have htype : offer.type = .none := by simpa using List.find?_some hfind
    exact hmeaningful (htype ▸ List.mem_map_of_mem (List.mem_of_find?_eq_some hfind))

theorem Relay.WellFormed.typeFor_of_fetch? {relay : Relay} (h : relay.WellFormed)
    (hdistinct : relay.registry.targets.Nodup) {selection : Selection} {type : ContentType}
    {fetch : Fetch} (hfetch : relay.fetch? selection type = some fetch) :
    relay.registry.typeFor fetch.target = some type := by
  obtain ⟨-, target, htarget, rfl⟩ := Relay.exists_of_fetch? hfetch
  cases hholder : relay.slots.holder selection with
  | nobody | agent types =>
    rw [hholder] at htarget
    cases htarget
  | desktop offers =>
    rw [hholder] at htarget
    obtain ⟨offer, hfind, rfl⟩ := Option.map_eq_some_iff.mp htarget
    have htype : offer.type = type := by simpa using List.find?_some hfind
    obtain ⟨format, hformat, hsame, htarget⟩ :=
      ((h.held selection).listed offers hholder).exists_of_mem (List.mem_of_find?_eq_some hfind)
    rw [Registry.typeFor_eq_some hdistinct hformat htarget, ← hsame, htype]

namespace Deed

def isCue : Deed → Bool
  | began _ | called .pollEvent _ => true
  | _ => false

end Deed

theorem cue_of_did {history : History} {relay next : Relay} {deeds : List Deed} {moment : Moment}
    (hmoment : moment ∈ history ++ deeds.map (Moment.mk next)) (hcue : moment.deed.isCue = true)
    (hdeeds : next = relay ∨ ∀ deed ∈ deeds, deed.isCue = false) :
    moment ∈ history ∨ moment.relay = relay := by
  refine (List.mem_append.mp hmoment).imp_right fun hnew => ?_
  obtain ⟨deed, hdeed, rfl⟩ := List.mem_map.mp hnew
  refine hdeeds.resolve_right fun hnone => ?_
  rw [hnone deed hdeed] at hcue
  cases hcue

theorem Step.cue {stage next : Stage} (step : Step stage next) {moment : Moment}
    (hmoment : moment ∈ next.history) (hcue : moment.deed.isCue = true) :
    moment ∈ stage.history ∨ moment.relay = stage.relay := by
  cases step with
  | rest | skipStart | forget | read | countOff | install => exact .inl hmoment
  | plain | arrive | turnAway | ask | store | settle | announce | queueFetch | decline | promise
  | await => exact cue_of_did hmoment hcue (.inl rfl)
  | dropRequests | dropFetches =>
    dsimp only at hmoment
    split at hmoment <;>
      exact cue_of_did hmoment hcue (.inr (by simp [Deed.isCue, or_imp, forall_and]))
  | surrender | finishFetch =>
    refine cue_of_did hmoment hcue (.inr ?_)
    split <;> simp [Deed.isCue]
  | report | chunk | lastChunk | startFetch | claim =>
    exact cue_of_did hmoment hcue (.inr (by simp [Deed.isCue, or_imp, forall_and]))

theorem Break.cue {stage next : Stage} (broke : Break stage next) {moment : Moment}
    (hmoment : moment ∈ next.history) (hcue : moment.deed.isCue = true) :
    moment ∈ stage.history ∨ moment.relay = stage.relay := by
  cases broke with
  | call | turnAway => exact cue_of_did hmoment hcue (.inl rfl)
  | dropRequests | chunk | startFetch =>
    exact cue_of_did hmoment hcue (.inr (by simp [Deed.isCue, or_imp, forall_and]))

theorem Step.names {stage next : Stage} (step : Step stage next) :
    next.relay.names = stage.relay.names := by
  cases step with
  | dropRequests | dropFetches =>
    dsimp only
    split <;> rfl
  | _ => rfl

theorem Break.names {stage next : Stage} (broke : Break stage next) :
    next.relay.names = stage.relay.names := by
  cases broke <;> rfl

/-- A stage at which all that ever began found a well-formed relay with the same names. -/
structure Stage.Cued (names : Window × Vocabulary × Registry) (stage : Stage) : Prop where
  wellFormed : stage.WellFormed
  same : stage.relay.names = names
  cues : ∀ moment ∈ stage.history, moment.deed.isCue = true →
    moment.relay.WellFormed ∧ moment.relay.names = names

theorem Stage.Cued.next {names : Window × Vocabulary × Registry} {stage next : Stage}
    (h : stage.Cued names) (hwellFormed : next.WellFormed)
    (hnames : next.relay.names = stage.relay.names) (hcues : ∀ moment ∈ next.history,
      moment.deed.isCue = true → moment ∈ stage.history ∨ moment.relay = stage.relay) :
    next.Cued names where
  wellFormed := hwellFormed
  same := hnames.trans h.same
  cues moment hmoment hcue := by
    rcases hcues moment hmoment hcue with hold | hnow
    · exact h.cues moment hold hcue
    · rw [hnow]
      exact ⟨h.wellFormed.relay, h.same⟩

namespace Course

variable {δ : Type} [Display δ]

theorem cued_after {display : δ} {course : Course δ} (hstart : start display = some course)
    (moves : List (Move δ)) : Stage.Cued course.relay.names
      ⟨(course.after moves).relay, {}, (course.after moves).history⟩ := by
  obtain ⟨prepared, after, hprepare, -⟩ := exists_of_start hstart
  have hcued (moves : List (Move δ)) : Stage.Cued prepared.names
      ⟨(course.after moves).relay, {}, (course.after moves).history⟩ := by
    refine holds_after_prepared (Stage.Cued prepared.names) (fun relay _ h => ?_)
      (fun _ _ step h => h.next (h.wellFormed.step step) step.names fun _ => step.cue)
      (fun _ _ broke h => h.next (h.wellFormed.broken broke) broke.names fun _ => broke.cue)
      hstart moves
    have hsame : relay = prepared :=
      Except.ok.inj (congrArg Prod.fst (h.symm.trans hprepare))
    have hregistry : prepared.registry.Proper := Registry.proper_of_prepare hprepare
    rw [hsame]
    exact ⟨.idle (.fresh _) hregistry rfl, rfl, by simp⟩
  have hnames : course.relay.names = prepared.names := (hcued []).same
  rw [hnames]
  exact hcued moves

/-- Every operation and every event finds a well-formed relay that knows the same names. -/
theorem wellFormed_at_cue {display : δ} {course : Course δ} (hstart : start display = some course)
    {moves : List (Move δ)} {moment : Moment} (hmoment : moment ∈ (course.after moves).history)
    (hcue : moment.deed.isCue = true) :
    moment.relay.WellFormed ∧ moment.relay.names = course.relay.names :=
  (cued_after hstart moves).cues moment hmoment hcue

end Course

end ClipboardRelay
