import ClipboardRelay.Proofs.Fetching
import ClipboardRelay.Proofs.Serving
import ClipboardRelay.Proofs.Sparing
/-!
The steps that following who owns each selection takes. A new holder is installed only when nothing
that was asked of the old one waits any more.
-/

namespace ClipboardRelay.Relay

variable {δ : Type}

/-- The two ways to a new holder: nobody holds a selection at any time, and an owner that was
announced or asked for holds it next. -/
theorem changeHolder_leads (stage : Stage) (selection : Selection) (holder : Holder)
    (way : (holder = .nobody ∧ stage.duty = {}) ∨
      (holder.owner ≠ .nobody ∧ stage.duty = { owed := some (selection, holder) }))
    (change : stage.relay.Reassigns selection stage.history) :
    Leads stage (changeHolder selection holder : Action δ Unit) fun _ last =>
      last.duty = {} ∧ last.relay.vocabulary = stage.relay.vocabulary ∧
        last.relay.slots.holder selection = holder := by
  have served : stage.duty.serve = false := by rcases way with ⟨-, h⟩ | ⟨-, h⟩ <;> rw [h]
  have started : stage.duty.start = false := by rcases way with ⟨-, h⟩ | ⟨-, h⟩ <;> rw [h]
  unfold Leads changeHolder
  rw [Action.ensures_bind]
  apply (dropRequests_leads stage selection served change).andThen_spared
    (dropRequests_spares selection) .refl
  rintro _ ⟨relay, _, history⟩ added path ⟨rfl, hrelay, noRequests⟩ hkept hadded hserving
  -- Serving the next application is no turn, so the selection still changes hands.
  have change : relay.Reassigns selection history := by
    have hslots : relay.slots = stage.relay.slots := (congrArg Relay.slots hkept :)
    have hhistory : history = stage.history ++ added := hadded
    rw [hhistory]
    exact (change.of_slots hslots).append fun moment hmoment =>
      Deed.not_turn_of_handling (Deed.handling_of_serving (hserving moment hmoment))
  rw [Action.ensures_bind]
  refine (dropFetches_leads ⟨relay, stage.duty, history⟩ selection started change).andThen path ?_
  rintro _ ⟨last, _, history⟩ path ⟨rfl, hlast, noFetches⟩
  have hrequests : last.requests = relay.requests := (congrArg Relay.requests hlast :)
  have hvocabulary : last.vocabulary = stage.relay.vocabulary :=
    (congrArg Relay.vocabulary hlast :).trans (congrArg Relay.vocabulary hrelay :)
  have clear : last.Clear selection := ⟨hrequests ▸ noRequests, noFetches⟩
  simp only [Action.ensures_bind, ensures_current, ensures_update]
  rcases way with ⟨rfl, idle⟩ | ⟨held, owed⟩
  · have surrendered := path.tail (.surrender _ selection clear idle)
    simp only [Holder.owner, true_and]
    split
    case isTrue lost =>
      rw [if_pos lost] at surrendered
      exact ⟨stage.duty, surrendered, idle, hvocabulary, Slots.holder_setHolder_self _ _ _⟩
    case isFalse kept =>
      rw [if_neg kept] at surrendered
      refine ⟨stage.duty, ?_, idle, hvocabulary, Slots.holder_setHolder_self _ _ _⟩
      simpa [Stage.did, Stage.become, withSlots] using surrendered
  · rw [if_neg (fun h => held h.1)]
    exact ⟨{}, path.tail (.install _ selection holder clear owed), rfl, hvocabulary,
      Slots.holder_setHolder_self _ _ _⟩

theorem handleOwner_leads (stage : Stage) (selection : Atom) (owner : Window)
    (idle : stage.duty = {}) (polled : stage.history.Lately Deed.isTurn
      (· = ⟨stage.relay, .called .pollEvent (some (.ownerChanged selection owner))⟩)) :
    Leads stage (handleOwner selection owner : Action δ Unit) fun _ last => last.duty = {} := by
  unfold Leads handleOwner
  simp only [Action.ensures_bind, ensures_current]
  split
  case h_1 foreign => exact ⟨stage.duty, .refl, idle⟩
  case h_2 slot named =>
    have noted : Path stage _ := .single (.plain stage (.noted (.about slot (.newOwner owner))) rfl)
    rw [Action.ensures_bind, ensures_remark]
    split
    case isTrue own => exact ⟨stage.duty, noted, idle⟩
    case isFalse other =>
      rw [Action.ensures_bind]
      have displaced : stage.history.Lately Deed.isTurn (·.displaces slot = true) := by
        refine polled.mono (fun moment hmoment => ?_) fun _ => id
        rw [hmoment]
        exact decide_eq_true ⟨named, other⟩
      refine (changeHolder_leads _ slot .nobody (by exact .inl ⟨rfl, idle⟩)
        (.reported (displaced.append (by simp [Deed.isTurn])))).andThen noted ?_
      rintro _ ⟨last, _, history⟩ path ⟨rfl, hvocabulary, vacant⟩
      have hvocabulary : last.vocabulary = stage.relay.vocabulary := hvocabulary
      rw [← hvocabulary] at named ⊢
      split
      case isTrue gone => exact ⟨{}, path, rfl⟩
      case isFalse present =>
        refine ensures_call_bind (fun _ => ?_) fun fault => Stage.faults_call path _ fault
        exact ⟨{}, path.tail (.await _ selection slot named vacant rfl), rfl⟩

theorem discardTargets_ensures {origin stage : Stage} (path : Path origin stage)
    (notify : SelectionNotify) :
    (discardTargets notify : Action δ Unit).Ensures
      (origin.Reaches fun _ last => last.duty = stage.duty) origin.Faults stage.relay
      stage.history := by
  unfold discardTargets
  simp only [Action.ensures_bind, ensures_current]
  split
  · exact ⟨stage.duty, path, rfl⟩
  · refine ⟨fun _ => ?_, fun fault => Stage.faults_call path _ fault⟩
    exact ⟨stage.duty, path.tail (.plain _
      (.called (.deleteProperty stage.relay.window notify.property) ()) rfl), rfl⟩

theorem readTargets_ensures {origin stage : Stage} (path : Path origin stage)
    (selection : Selection) (notify : SelectionNotify) :
    (readTargets selection notify : Action δ (Option (List Atom))).Ensures
      (fun offered relay history => relay = stage.relay ∧
        match offered with
        | none => Path origin ⟨relay, stage.duty, history⟩
        | some offered => ∃ property words, property.words? = some words ∧
          offered = words.map Atom.mk ∧ history = stage.history ++
            [⟨relay, .called (.getProperty relay.window relay.vocabulary.targets true)
              (some property)⟩])
      origin.Faults stage.relay stage.history := by
  unfold readTargets
  rw [Action.ensures_bind, ensures_current]
  dsimp only
  split
  · exact ⟨rfl, Stage.path_remark path selection .targetsRefused rfl⟩
  split
  · exact ⟨rfl, Stage.path_remark path selection .targetsMismatch rfl⟩
  refine ensures_call_bind (fun found => ?_) fun fault => Stage.faults_call path _ fault
  have read : Path origin _ := path.tail (.plain stage
    (.called (.getProperty stage.relay.window stage.relay.vocabulary.targets true) found) rfl)
  split
  case h_1 missing => exact ⟨rfl, Stage.path_remark read selection .targetsWithoutProperty rfl⟩
  case h_2 property =>
    split
    · exact ⟨rfl, Stage.path_remark read selection (.targetsOfWrongType property.type) rfl⟩
    · split
      case h_1 malformed =>
        exact ⟨rfl, Stage.path_remark read selection (.wrongFormat 32 property.format) rfl⟩
      case h_2 empty => exact ⟨rfl, Stage.path_remark read selection .targetsEmpty rfl⟩
      case h_3 words _ wellFormed => exact ⟨rfl, property, words, wellFormed, rfl, rfl⟩

theorem acceptTargets_ensures (stage : Stage) (selection : Selection) (property : Property)
    (words : List UInt32) (idle : stage.duty = {})
    (described : stage.history.Lately Deed.isTurn (·.describes selection = true))
    (current : (stage.relay.slots.arrive selection).1 = .current)
    (free : stage.relay.slots.owner selection ≠ .agent) (content : property.words? = some words) :
    (acceptTargets selection (words.map Atom.mk) : Action δ Unit).Ensures
      (stage.Reaches fun _ last => last.duty = {}) stage.Faults
      (stage.relay.withSlots (stage.relay.slots.arrive selection).2)
      (stage.history ++ [⟨stage.relay.withSlots (stage.relay.slots.arrive selection).2,
        .called (.getProperty stage.relay.window stage.relay.vocabulary.targets true)
          (some property)⟩]) := by
  have plain (relay : Relay) : ∀ notice ∈
      Notice.about selection (.targetsReceived (words.map Atom.mk).length) ::
        (words.map Atom.mk).map fun target => .about selection (.listed target),
      (Moment.mk relay (.noted notice)).isPlain = true := by
    intro notice h
    rcases List.mem_cons.mp h with rfl | h
    · rfl
    · obtain ⟨target, _, rfl⟩ := List.mem_map.mp h
      rfl
  unfold acceptTargets
  simp only [Action.ensures_bind, remarkTargets, ensures_noteAll, ensures_current]
  split
  case h_1 unknown =>
    have counted : Path stage _ := .single (.countOff stage selection)
    have read := counted.tail (.plain _ (.called (.getProperty stage.relay.window
      stage.relay.vocabulary.targets true) (some property)) rfl)
    have listed := Stage.path_noted read _ (plain _)
    exact ⟨stage.duty, listed.tail (.plain _
      (.noted (.about selection .targetsUnsupported)) rfl), idle⟩
  case h_2 known =>
    have claimed := Step.claim stage selection property words _ idle current free content known
      (plain stage.relay)
    rw [Action.ensures_bind, ensures_send]
    refine (changeHolder_leads ⟨_, stage.duty.owing (some (selection, _)), _⟩ selection _
      (.inr ⟨by simp [Holder.owner], by rw [idle]; rfl⟩)
      (.accepted ?_ ⟨_, .now rfl⟩)).andThen (.single ?_) ?_
    · rw [List.append_assoc, List.append_assoc]
      exact described.append (by simp [Deed.isTurn, or_imp, forall_and])
    · simpa [Stage.did, Stage.become, Stage.due, Function.comp_def, withSlots] using claimed
    · rintro _ last path ⟨hduty, -⟩
      exact ⟨last.duty, path, hduty⟩

theorem handleTargets_leads (stage : Stage) (notify : SelectionNotify) (idle : stage.duty = {})
    (targets : notify.target = stage.relay.vocabulary.targets)
    (polled : stage.history.Lately Deed.isTurn
      (· = ⟨stage.relay, .called .pollEvent (some (.selectionNotify notify))⟩)) :
    Leads stage (handleTargets notify : Action δ Unit) fun _ last => last.duty = {} := by
  have discarded {relay : Relay} {history : History}
      (path : Path stage ⟨relay, stage.duty, history⟩) :
      (discardTargets notify : Action δ Unit).Ensures
        (stage.Reaches fun _ last => last.duty = {}) stage.Faults relay history :=
    idle ▸ discardTargets_ensures path notify
  unfold Leads handleTargets
  rw [Action.ensures_bind, ensures_current]
  dsimp only
  split
  case h_1 foreign =>
    exact discarded (.single (.plain stage (.noted .targetsOfUnknownSelection) rfl))
  case h_2 selection named =>
    have counted : Path stage _ := .single (.countOff stage selection)
    rw [Action.ensures_bind, ensures_update]
    split
    case h_1 unexpected =>
      exact discarded (counted.tail (.plain _
        (.noted (.about selection .targetsUnexpected)) rfl))
    case h_2 stale =>
      exact discarded (counted.tail (.plain _ (.noted (.about selection .targetsStale)) rfl))
    case h_3 current =>
      split
      case isTrue owned =>
        exact discarded (counted.tail (.plain _
          (.noted (.about selection .targetsWhileOwned)) rfl))
      case isFalse free =>
        rw [Action.ensures_bind]
        refine (readTargets_ensures counted selection notify).mono ?_ fun _ _ h => h
        rintro offered _ history ⟨rfl, found⟩
        split
        case h_1 => exact ⟨stage.duty, found, idle⟩
        case h_2 offered =>
          obtain ⟨property, words, content, rfl, rfl⟩ := found
          have hfree : stage.relay.slots.owner selection ≠ .agent := by
            simpa [Slots.owner] using free
          have described : stage.history.Lately Deed.isTurn (·.describes selection = true) := by
            refine polled.mono (fun moment hmoment => ?_) fun _ => id
            rw [hmoment]
            exact decide_eq_true ⟨targets, named⟩
          exact acceptTargets_ensures stage selection property words idle described current hfree
            content

end ClipboardRelay.Relay
