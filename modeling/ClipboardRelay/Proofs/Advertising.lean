import ClipboardRelay.Memory.Display
import ClipboardRelay.Proofs.Footprint
import ClipboardRelay.Proofs.Naming
import Mathlib.Data.List.Nodup
/-!
What the agent's kinds of content are advertised as, and what an owner's list of targets is read as.
Main statement: on a display that gives different names different atoms, reading an advertisement
gives back the kinds of content that were advertised.
-/

namespace ClipboardRelay.Registry

section

variable {δ : Type} [Display δ]

def namesGiven : List String → δ → List (String × Atom)
  | [], _ => []
  | name :: names, display =>
    match Display.perform (.internAtom name) display with
    | (.ok atom, after) => (name, atom) :: namesGiven names after
    | (.error _, _) => []

/-- Whether a display gives no atom to two of the names of the table. Null is no atom, so any of
the names may have none. -/
def NamedApart (display : δ) : Prop :=
  ∀ given ∈ namesGiven (targetNames.flatMap (·.2)) display,
    ∀ other ∈ namesGiven (targetNames.flatMap (·.2)) display,
      given.2 ≠ Atom.null → given.2 = other.2 → given.1 = other.1

instance (display : δ) : Decidable (NamedApart display) :=
  inferInstanceAs (Decidable (∀ given ∈ namesGiven _ display, ∀ other ∈ namesGiven _ display,
    given.2 ≠ Atom.null → given.2 = other.2 → given.1 = other.1))

/-- The atoms of names, without those that stand for no name. -/
def atomsGiven (given : List (String × Atom)) : List Atom :=
  (given.map (·.2)).filter (· ≠ Atom.null)

theorem namesGiven_sublist (names : List String) (display : δ) :
    ((namesGiven names display).map (·.1)).Sublist names := by
  induction names generalizing display with
  | nil => exact .slnil
  | cons name names ih =>
    rw [namesGiven]
    split
    · exact (ih _).cons_cons name
    · exact List.nil_sublist _

theorem internNames_eq {names : List String} {display after : δ} {atoms : List Atom}
    (h : (internNames names).run display = (.ok atoms, after)) (others : List String) :
    namesGiven (names ++ others) display =
        namesGiven names display ++ namesGiven others after ∧
      atoms = atomsGiven (namesGiven names display) := by
  induction names generalizing display after atoms with
  | nil =>
    cases h
    exact ⟨rfl, rfl⟩
  | cons name names ih =>
    obtain ⟨atom, between, hcall, h⟩ := Exchange.exists_of_run_bind h
    obtain ⟨rest, final, hrest, h⟩ := Exchange.exists_of_run_bind h
    cases h
    have hgiven : Display.perform (.internAtom name) display = (.ok atom, between) := hcall
    obtain ⟨hnames, hatoms⟩ := ih hrest
    rw [List.cons_append, namesGiven, namesGiven, hgiven, hatoms]
    refine ⟨congrArg _ hnames, ?_⟩
    by_cases hnull : atom = Atom.null
    · simp [atomsGiven, hnull]
    · simp [atomsGiven, hnull]

theorem internFormats_targets {entries : List (ContentType × List String)} {display after : δ}
    {formats : List Format} (h : (internFormats entries).run display = (.ok formats, after)) :
    formats.flatMap (·.targets) =
      atomsGiven (namesGiven (entries.flatMap (·.2)) display) := by
  induction entries generalizing display after formats with
  | nil =>
    cases h
    rfl
  | cons entry entries ih =>
    obtain ⟨targets, between, htargets, h⟩ := Exchange.exists_of_run_bind h
    obtain ⟨rest, final, hrest, h⟩ := Exchange.exists_of_run_bind h
    cases h
    obtain ⟨hnames, hatoms⟩ := internNames_eq htargets (entries.flatMap (·.2))
    rw [List.flatMap_cons, List.flatMap_cons, hnames, ih hrest, hatoms]
    simp [atomsGiven]

theorem name_mem_of_given {names : List String} {display : δ} {given : String × Atom}
    (h : given ∈ namesGiven names display) : given.1 ∈ names :=
  (namesGiven_sublist names display).subset (List.mem_map_of_mem h)

theorem internFormats_eq {entries : List (ContentType × List String)} {display after : δ}
    {formats : List Format} (h : (internFormats entries).run display = (.ok formats, after))
    (hnodup : (entries.flatMap (·.2)).Nodup) :
    formats = entries.map fun entry => ⟨entry.1, atomsGiven
      ((namesGiven (entries.flatMap (·.2)) display).filter (·.1 ∈ entry.2))⟩ := by
  induction entries generalizing display after formats with
  | nil =>
    cases h
    rfl
  | cons entry entries ih =>
    obtain ⟨targets, between, htargets, h⟩ := Exchange.exists_of_run_bind h
    obtain ⟨rest, final, hrest, h⟩ := Exchange.exists_of_run_bind h
    cases h
    obtain ⟨hnames, hatoms⟩ := internNames_eq htargets (entries.flatMap (·.2))
    rw [List.flatMap_cons, List.nodup_append'] at hnodup
    obtain ⟨-, hothers, hapart⟩ := hnodup
    have hown : (namesGiven entry.2 display ++ namesGiven (entries.flatMap (·.2)) between).filter
        (·.1 ∈ entry.2) = namesGiven entry.2 display := by
      rw [List.filter_append, List.filter_eq_self.mpr, List.filter_eq_nil_iff.mpr, List.append_nil]
      · intro given hgiven
        simpa using fun hmem => hapart hmem (name_mem_of_given hgiven)
      · intro given hgiven
        simpa using name_mem_of_given hgiven
    have hother : ∀ other ∈ entries,
        (namesGiven entry.2 display ++ namesGiven (entries.flatMap (·.2)) between).filter
          (·.1 ∈ other.2) = (namesGiven (entries.flatMap (·.2)) between).filter (·.1 ∈ other.2) := by
      intro other hmem
      rw [List.filter_append, List.filter_eq_nil_iff.mpr, List.nil_append]
      intro given hgiven
      simpa using fun hlisted => hapart (name_mem_of_given hgiven)
        (List.mem_flatMap.mpr ⟨other, hmem, hlisted⟩)
    rw [List.flatMap_cons, hnames, List.map_cons, hown, hatoms, ih hrest hothers]
    congr 1
    exact List.map_congr_left fun other hmem => by rw [hother other hmem]

theorem formats_of_resolve {display after : δ} {registry : Registry}
    (hresolve : resolve.run display = (.ok registry, after)) :
    registry.formats = targetNames.map fun entry => ⟨entry.1, atomsGiven
      ((namesGiven (targetNames.flatMap (·.2)) display).filter (·.1 ∈ entry.2))⟩ := by
  obtain ⟨formats, between, hformats, h⟩ := Exchange.exists_of_run_bind hresolve
  cases h
  exact internFormats_eq hformats (by decide)

/-- A table says which atoms mean something, and what they mean, if each is listed once. -/
structure Sound (registry : Registry) : Prop where
  types : registry.formats.map (·.type) = targetNames.map (·.1)
  distinct : registry.targets.Nodup
  named : Atom.null ∉ registry.targets

theorem sound_of_resolve {display after : δ} {registry : Registry}
    (hresolve : resolve.run display = (.ok registry, after)) (hapart : NamedApart display) :
    registry.Sound := by
  obtain ⟨formats, between, hformats, h⟩ := Exchange.exists_of_run_bind hresolve
  cases h
  have htargets := internFormats_targets hformats
  have hnames : (namesGiven (targetNames.flatMap (·.2)) display).Nodup :=
    List.Nodup.of_map _ ((namesGiven_sublist _ _).nodup (by decide))
  have hatoms : ((namesGiven (targetNames.flatMap (·.2)) display).filter
      (·.2 ≠ Atom.null)).map (·.2) = formats.flatMap (·.targets) := by
    rw [htargets, atomsGiven, List.filter_map]
    rfl
  refine ⟨types_of_internFormats hformats, ?_, ?_⟩
  · change (formats.flatMap (·.targets)).Nodup
    rw [← hatoms]
    refine List.Nodup.map_on (fun given hgiven other hother hsame => ?_) (hnames.filter _)
    have hgiven := List.mem_filter.mp hgiven
    have hother := List.mem_filter.mp hother
    exact Prod.ext (hapart _ hgiven.1 _ hother.1 (by simpa using hgiven.2) hsame) hsame
  · change Atom.null ∉ formats.flatMap (·.targets)
    rw [htargets]
    simp [atomsGiven]

end

variable {registry : Registry}

theorem mem_targetsFor {types : List ContentType} {target : Atom} :
    target ∈ registry.targetsFor types ↔
      ∃ format ∈ registry.formats, format.type ∈ types ∧ target ∈ format.targets := by
  simp only [targetsFor, List.mem_flatMap, List.mem_filter, decide_eq_true_eq]
  constructor
  · rintro ⟨type, htype, format, ⟨hformat, rfl⟩, htarget⟩
    exact ⟨format, hformat, htype, htarget⟩
  · rintro ⟨format, hformat, htype, htarget⟩
    exact ⟨format.type, htype, format, ⟨hformat, rfl⟩, htarget⟩

theorem targetsFor_subset (types : List ContentType) :
    registry.targetsFor types ⊆ registry.targets := by
  intro target htarget
  obtain ⟨format, hformat, -, hlisted⟩ := mem_targetsFor.mp htarget
  exact List.mem_flatMap.mpr ⟨format, hformat, hlisted⟩

theorem mem_negotiate {offered : List Atom} {type : ContentType} {target : Atom} :
    (type, target) ∈ registry.negotiate offered ↔
      ∃ format ∈ registry.formats, format.type = type ∧
        format.targets.find? offered.contains = some target := by
  simp only [negotiate, List.mem_filterMap, Option.map_eq_some_iff, Prod.mk.injEq]
  constructor
  · rintro ⟨format, hformat, found, hfind, rfl, rfl⟩
    exact ⟨format, hformat, rfl, hfind⟩
  · rintro ⟨format, hformat, rfl, hfind⟩
    exact ⟨format, hformat, target, hfind, rfl, rfl⟩

namespace Sound

variable (h : registry.Sound)

include h

theorem mem_targetsFor_iff {format : Format} (hformat : format ∈ registry.formats)
    {target : Atom} (htarget : target ∈ format.targets) (types : List ContentType) :
    target ∈ registry.targetsFor types ↔ format.type ∈ types := by
  constructor
  · intro hadvertised
    obtain ⟨other, hother, htype, hlisted⟩ := mem_targetsFor.mp hadvertised
    have hfirst := typeFor_eq_some h.distinct hformat htarget
    have hsecond := typeFor_eq_some h.distinct hother hlisted
    have hsame : format.type = other.type := Option.some.inj (hfirst.symm.trans hsecond)
    rwa [hsame]
  · intro htype
    exact mem_targetsFor.mpr ⟨format, hformat, htype, htarget⟩

/-- Of a list that has all that is advertised, and else only what means nothing, the first target
of each advertised kind is taken. -/
theorem find?_offered {types : List ContentType} {offered : List Atom}
    (hall : ∀ target ∈ registry.targetsFor types, target ∈ offered)
    (honly : ∀ target ∈ offered,
      target ∈ registry.targetsFor types ∨ registry.typeFor target = none)
    {format : Format} (hformat : format ∈ registry.formats) :
    format.targets.find? offered.contains =
      if format.type ∈ types then format.targets.head? else none := by
  have hoffered {target : Atom} (htarget : target ∈ format.targets) :
      target ∈ offered ↔ format.type ∈ types := by
    rw [← h.mem_targetsFor_iff hformat htarget]
    constructor
    · intro hlisted
      have hknown := typeFor_eq_some h.distinct hformat htarget
      exact (honly target hlisted).resolve_right (by simp [hknown])
    · exact hall target
  split
  case isTrue htype =>
    rcases htargets : format.targets with _ | ⟨first, rest⟩
    · rfl
    · have hfirst : first ∈ offered := (hoffered (by simp [htargets])).mpr htype
      exact List.find?_cons_of_pos (by simpa using hfirst)
  case isFalse htype =>
    refine List.find?_eq_none.mpr fun target htarget hlisted => htype ?_
    exact (hoffered htarget).mp (by simpa using hlisted)

theorem negotiate_advertised {types : List ContentType} {offered : List Atom}
    (hall : ∀ target ∈ registry.targetsFor types, target ∈ offered)
    (honly : ∀ target ∈ offered,
      target ∈ registry.targetsFor types ∨ registry.typeFor target = none) :
    registry.negotiate offered = registry.formats.filterMap fun format =>
      if format.type ∈ types then format.targets.head?.map (format.type, ·) else none := by
  refine List.filterMap_congr fun format hformat => ?_
  rw [h.find?_offered hall honly hformat]
  split <;> rfl

theorem types_negotiate_sublist (offered : List Atom) :
    ((registry.negotiate offered).map (·.1)).Sublist (targetNames.map (·.1)) := by
  have htypes := (lists_negotiate registry offered).types_sublist
  rw [h.types, List.map_map] at htypes
  exact htypes

theorem of_mem_negotiate {offered : List Atom} {type : ContentType} {target : Atom}
    (hmem : (type, target) ∈ registry.negotiate offered) :
    target ∈ offered ∧ registry.typeFor target = some type := by
  obtain ⟨format, hformat, rfl, hfind⟩ := mem_negotiate.mp hmem
  have hlisted := List.find?_some hfind
  exact ⟨by simpa using hlisted,
    typeFor_eq_some h.distinct hformat (List.mem_of_find?_eq_some hfind)⟩

theorem typeFor_null : registry.typeFor Atom.null = none := by
  by_contra hsome
  obtain ⟨type, htype⟩ := Option.ne_none_iff_exists'.mp hsome
  exact h.named (mem_targets_of_typeFor htype)

end Sound

end ClipboardRelay.Registry

namespace ClipboardRelay

def Deed.listed? : Deed → Option (List UInt32)
  | .called (.changeProperty _ _ _ (.words words)) _ => some words
  | _ => none

namespace Relay

variable {δ : Type}

/-- Whether whatever is stored as a list of atoms is what the agent's kinds of content are
advertised as. -/
def Advertises (relay : Relay) (selection : Selection) (history : History) : Prop :=
  ∀ moment ∈ history, ∀ words, moment.deed.listed? = some words →
    words = (relay.vocabulary.targets ::
      relay.registry.targetsFor (relay.slots.types selection)).map (·.number)

theorem Advertises.append {relay : Relay} {selection : Selection} {history : History}
    (h : relay.Advertises selection history) (deeds : List Deed)
    (hdeeds : ∀ deed ∈ deeds, deed.listed? = none) :
    relay.Advertises selection (history ++ deeds.map (Moment.mk relay)) := by
  intro moment hmoment words hwords
  rcases List.mem_append.mp hmoment with hold | hnew
  · exact h moment hold words hwords
  · obtain ⟨deed, hdeed, rfl⟩ := List.mem_map.mp hnew
    rw [hdeeds deed hdeed] at hwords
    cases hwords

theorem sendTargets_advertises (relay : Relay) (selection : Selection)
    (event : SelectionRequest) :
    (sendTargets selection event : Action δ Unit).Ensures
      (fun _ _ => relay.Advertises selection) (fun _ => relay.Advertises selection) relay [] := by
  have hnothing : relay.Advertises selection [] := by simp [Advertises]
  refine ensures_call_bind (fun answer => ?_) fun fault => ?_
  · have hstored : relay.Advertises selection
        [⟨relay, .called (.changeProperty event.requestor event.replyProperty Atom.atomType
          (.words ((relay.vocabulary.targets :: relay.registry.targetsFor
            (relay.slots.types selection)).map (·.number)))) answer⟩] := by
      intro moment hmoment words hwords
      obtain rfl := List.mem_singleton.mp hmoment
      exact (Option.some.inj hwords).symm
    have hnoted (notices : List Notice) :=
      hstored.append (notices.map .noted) (by simp [Deed.listed?])
    simp only [List.map_map] at hnoted
    refine ⟨fun told => ?_, fun fault => ?_⟩
    · exact (hnoted _).append [.called (.notifyRequestor event event.replyProperty) told]
        (by simp [Deed.listed?])
    · exact (hnoted _).append [.failed (.notifyRequestor event event.replyProperty) fault]
        (by simp [Deed.listed?])
  · exact hnothing.append [.failed _ fault] (by simp [Deed.listed?])

end Relay

/-- A display that has no atoms for two names of bitmaps and for none of JPEG pictures. -/
def Memory.Display.missingNames : Memory.Display where
  atoms :=
    { entries := [("image/bmp", .null), ("image/x-MS-bmp", .null), ("image/jpeg", .null)] }

namespace Registry

def missingNames : Registry where
  formats :=
    [⟨.utf8Text, [⟨100⟩, ⟨101⟩, ⟨102⟩]⟩, ⟨.imagePng, [⟨103⟩]⟩, ⟨.imageBmp, [⟨104⟩, ⟨105⟩]⟩,
      ⟨.imageTiff, [⟨106⟩]⟩, ⟨.imageJpg, []⟩]

theorem resolve_missingNames : resolve.run Memory.Display.missingNames =
    (.ok missingNames, (resolve.run Memory.Display.missingNames).2) := by
  have hresolved : (resolve.run Memory.Display.missingNames).1.toOption = some missingNames := by
    decide +kernel
  rcases h : resolve.run Memory.Display.missingNames with ⟨fault | registry, after⟩
  · rw [h] at hresolved
    cases hresolved
  · rw [h] at hresolved
    rw [Option.some.inj hresolved]

variable {δ : Type} [Display δ]

/-- Whichever names have no atom: the table lists the atoms that the display gives the names of each
kind of content. A list of targets that has all that are advertised for some kinds of content, and
else only what the table does not know, is read as these kinds, in the order of the table, each with
the first of its targets. Whatever else a list has, what is taken from it is in it and is read back
as the kind it was taken for. Null is never advertised, known or taken. -/
theorem advertised_types_negotiated {display after : δ} {registry : Registry}
    (hresolve : resolve.run display = (.ok registry, after)) (hapart : NamedApart display) :
    registry.formats = (targetNames.map fun entry => ⟨entry.1, atomsGiven
      ((namesGiven (targetNames.flatMap (·.2)) display).filter (·.1 ∈ entry.2))⟩) ∧
    (∀ types offered, (∀ target ∈ registry.targetsFor types, target ∈ offered) →
      (∀ target ∈ offered,
        target ∈ registry.targetsFor types ∨ registry.typeFor target = none) →
      registry.negotiate offered = registry.formats.filterMap fun format =>
        if format.type ∈ types then format.targets.head?.map (format.type, ·) else none) ∧
    (∀ offered, ((registry.negotiate offered).map (·.1)).Sublist (targetNames.map (·.1))) ∧
    (∀ offered type target, (type, target) ∈ registry.negotiate offered →
      target ∈ offered ∧ registry.typeFor target = some type) ∧
    (∀ types, Atom.null ∉ registry.targetsFor types) ∧ registry.typeFor Atom.null = none ∧
    (∀ offered, Atom.null ∉ (registry.negotiate offered).map (·.2)) ∧
    ∀ (session : Session δ) selection event,
      session.relay.Advertises selection ((Relay.sendTargets selection event).history session) := by
  have hsound : registry.Sound := sound_of_resolve hresolve hapart
  have hnull (types : List ContentType) : Atom.null ∉ registry.targetsFor types :=
    fun hmem => hsound.named (targetsFor_subset types hmem)
  refine ⟨formats_of_resolve hresolve, fun types offered => hsound.negotiate_advertised,
    hsound.types_negotiate_sublist,
    fun offered type target => hsound.of_mem_negotiate, hnull, hsound.typeFor_null, ?_, ?_⟩
  · intro offered hmem
    obtain ⟨⟨type, target⟩, htaken, hnull⟩ := List.mem_map.mp hmem
    have hknown := (hsound.of_mem_negotiate htaken).2
    rw [show target = Atom.null from hnull, hsound.typeFor_null] at hknown
    cases hknown
  · intro session selection event
    exact (Relay.sendTargets_advertises session.relay selection event).run_anyhow session

/-- A list of targets in another order, with repetitions and with atoms that the table does not
know. -/
theorem advertised_types_negotiated_missingNames :
    NamedApart Memory.Display.missingNames ∧
      missingNames.negotiate [⟨102⟩, ⟨7⟩, ⟨105⟩, ⟨101⟩, ⟨105⟩, ⟨104⟩, .null, ⟨100⟩] =
        [(.utf8Text, ⟨100⟩), (.imageBmp, ⟨104⟩)] := by
  have hapart : NamedApart Memory.Display.missingNames := by decide +kernel
  refine ⟨hapart, ?_⟩
  have hread := (advertised_types_negotiated resolve_missingNames hapart).2.1
    [.imageJpg, .imageBmp, .utf8Text]
    [⟨102⟩, ⟨7⟩, ⟨105⟩, ⟨101⟩, ⟨105⟩, ⟨104⟩, .null, ⟨100⟩] (by decide) (by decide)
  rw [hread]
  decide

end Registry

end ClipboardRelay
