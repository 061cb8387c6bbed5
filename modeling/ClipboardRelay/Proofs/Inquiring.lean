import ClipboardRelay.Memory.Display
import ClipboardRelay.Proofs.Docket
import ClipboardRelay.Proofs.LateReplies
import ClipboardRelay.Proofs.Naming
import ClipboardRelay.Proofs.Tending
/-!
Asking owners for data. A fetch comes to the head of the queue because nothing else is fetched,
because the one before it ended, or because those before it were dropped with their selection. Main
statement: the owner is asked for every fetch that comes to the head, at once and only once, and for
no other.
-/

namespace ClipboardRelay

open Relay

/-- Whether the docket is up to date when something begins or the display is called, and a fetch
that has come to the head of the queue is asked for with the next call. -/
def History.Prompt (before : History) (moment : Moment) : Prop :=
  match moment.deed with
  | .began _ => before.docket.waiting.map (·.fetch) = moment.relay.fetches ∧
      ∀ errand ∈ before.docket.waiting.head?, errand.calls ≠ []
  | .called call _ => before.docket.waiting.map (·.fetch) = moment.relay.fetches ∧
      ∀ errand ∈ before.docket.waiting.head?, errand.calls = [] →
        moment.relay.vocabulary.conversion? errand.fetch = some call
  | _ => True

structure Filed (relay : Relay) (history : History) : Prop where
  sound : history.docket.Sound relay.vocabulary history.accepted history.petitions
  queue : history.docket.waiting.map (·.fetch) = relay.fetches
  settled : history.docket.due = 0
  bridged : ∀ fetch ∈ relay.fetches, (relay.vocabulary.atom? fetch.selection).isSome = true
  ordinary : ∀ fetch ∈ relay.fetches, fetch.target ≠ relay.vocabulary.targets
  prompt : history.Always History.Prompt

structure Unasked (relay : Relay) (history : History) : Prop extends Filed relay history where
  blank : ∀ errand ∈ history.docket.waiting, errand.calls = []

/-- The owner was asked for the fetch at the head of the queue, and for none of those behind it. -/
structure Asked (relay : Relay) (history : History) : Prop extends Filed relay history where
  front : ∀ errand ∈ history.docket.waiting.head?, errand.AskedOnce relay.vocabulary
  behind : ∀ errand ∈ history.docket.waiting.tail, errand.calls = []

namespace Docket

theorem enter_aside {deed : Deed} (h : deed.keepsLine = true) (docket : Docket) (relay : Relay) :
    docket.enter ⟨relay, deed⟩ = docket := by
  unfold enter
  split
  case h_1 operation hdeed =>
    obtain rfl : deed = .began operation := hdeed
    have hnone : operation.question? = none := Option.isNone_iff_eq_none.mp h
    simp [Moment.accepted?, hnone]
  case h_2 hdeed | h_3 hdeed | h_4 hdeed =>
    dsimp only at hdeed
    rw [hdeed] at h
    cases h
  case h_5 => rfl

end Docket

theorem Moment.accepted?_aside {deed : Deed} (h : deed.keepsLine = true) (relay : Relay) :
    (Moment.mk relay deed).accepted? = none := by
  unfold accepted?
  split
  case h_1 operation hdeed =>
    obtain rfl : deed = .began operation := hdeed
    rw [Option.isNone_iff_eq_none.mp h, Option.bind_none]
  case h_2 => rfl

theorem Moment.petition?_aside {deed : Deed} (h : deed.keepsLine = true) (relay : Relay) :
    (Moment.mk relay deed).petition? = none := by
  unfold petition?
  split
  case h_1 hdeed =>
    obtain rfl : deed = .called _ _ := hdeed
    cases h
  case h_2 => rfl

def Deed.isSaid : Deed → Bool
  | sent _ | noted _ => true
  | _ => false

namespace History

variable {added : History} (h : ∀ moment ∈ added, moment.deed.isSaid = true)
include h

theorem accepted_said : added.accepted = [] := by
  apply List.filterMap_eq_nil_iff.mpr
  rintro ⟨relay, deed⟩ hmoment
  have hsaid := h _ hmoment
  cases deed <;> first | rfl | cases hsaid

theorem petitions_said : added.petitions = [] := by
  apply List.filterMap_eq_nil_iff.mpr
  rintro ⟨relay, deed⟩ hmoment
  have hsaid := h _ hmoment
  cases deed <;> first | rfl | cases hsaid

theorem prompt_said : ∀ moment ∈ added, ∀ before, Prompt before moment := by
  rintro ⟨relay, deed⟩ hmoment before
  have hsaid := h _ hmoment
  cases deed <;> trivial

end History

namespace Relay

variable (relay : Relay)

theorem said_finishing (fetch : Fetch) (data : Option Bytes) (rest : List Fetch) :
    ∀ moment ∈ relay.finishing fetch data rest, moment.deed.isSaid = true := by
  unfold finishing
  split <;> simp [Deed.isSaid]

theorem said_dropping (selection : Selection) :
    ∀ moment ∈ relay.dropping selection, moment.deed.isSaid = true := by
  simp [dropping, Deed.isSaid]

theorem docket_finishing (history : History) (fetch : Fetch) (data : Option Bytes)
    (rest : List Fetch) :
    History.docket (history ++ relay.finishing fetch data rest) = history.docket.answer := by
  have hanswer (docket : Docket) : docket.enter
      ⟨relay.finished data rest, .sent (relay.answer fetch data)⟩ = docket.answer := by
    unfold Relay.answer
    split
    · split <;> rfl
    · rfl
  rw [History.docket_append, finishing]
  split <;> exact hanswer _

theorem docket_dropping {history : History} (hsettled : history.docket.due = 0)
    (hqueue : history.docket.waiting.map (·.fetch) = relay.fetches) (selection : Selection) :
    History.docket (history ++ relay.dropping selection) =
      { history.docket.drop selection with due := 0 } := by
  have hdue : (history.docket.drop selection).due = (relay.fetchesOf selection).length := by
    rw [fetchesOf, ← hqueue, ← List.countP_eq_length_filter, List.countP_map]
    simp [Docket.drop, hsettled, Function.comp_def]
  rw [History.docket_append, dropping, List.map_cons, List.foldl_cons, List.map_map]
  exact Docket.foldl_enter_due (relay.withoutFetches selection) (relay.fetchesOf selection) hdue

end Relay

namespace Filed

variable {relay after : Relay} {history : History}

theorem changed (h : Filed relay history) (hline : after.fetchLine = relay.fetchLine) :
    Filed after history := by
  have hvocabulary : after.vocabulary = relay.vocabulary := congrArg Prod.fst hline
  have hfetches : after.fetches = relay.fetches := congrArg Prod.snd hline
  refine ⟨?_, ?_, h.settled, ?_, ?_, h.prompt⟩
  · rw [hvocabulary]
    exact h.sound
  · rw [hfetches]
    exact h.queue
  · rw [hvocabulary, hfetches]
    exact h.bridged
  · rw [hvocabulary, hfetches]
    exact h.ordinary

theorem extend (h : Filed relay history) {added : History}
    (hdocket : History.docket (history ++ added) = history.docket)
    (haccepted : added.accepted = []) (hpetitions : added.petitions = [])
    (hprompt : History.Always History.Prompt (history ++ added)) :
    Filed relay (history ++ added) := by
  refine ⟨?_, ?_, ?_, h.bridged, h.ordinary, hprompt⟩
  · rw [hdocket, History.accepted_append, History.petitions_append, haccepted, hpetitions,
      List.append_nil, List.append_nil]
    exact h.sound
  · rw [hdocket]
    exact h.queue
  · rw [hdocket]
    exact h.settled

theorem exists_errand (h : Filed relay history) {fetch : Fetch} {rest : List Fetch}
    (front : relay.fetches = fetch :: rest) : ∃ errand others,
      history.docket.waiting = errand :: others ∧ errand.fetch = fetch ∧
        others.map (·.fetch) = rest :=
  List.map_eq_cons_iff.mp (h.queue.trans front)

end Filed

namespace Asked

variable {relay after : Relay} {history : History}

theorem changed (h : Asked relay history) (hline : after.fetchLine = relay.fetchLine) :
    Asked after history := by
  have hvocabulary : after.vocabulary = relay.vocabulary := congrArg Prod.fst hline
  refine ⟨h.toFiled.changed hline, ?_, h.behind⟩
  rw [hvocabulary]
  exact h.front

theorem prompts (h : Asked relay history) (deed : Deed) : history.Prompt ⟨relay, deed⟩ := by
  have hcalls : ∀ errand ∈ history.docket.waiting.head?, errand.calls ≠ [] := by
    intro errand herrand
    obtain ⟨call, -, hcall⟩ := h.front errand herrand
    rw [hcall]
    exact List.cons_ne_nil call []
  unfold History.Prompt
  split
  · exact ⟨h.queue, hcalls⟩
  · exact ⟨h.queue, fun errand herrand hnone => absurd hnone (hcalls errand herrand)⟩
  · trivial

theorem extend (h : Asked relay history) {added : History}
    (hdocket : History.docket (history ++ added) = history.docket)
    (haccepted : added.accepted = []) (hpetitions : added.petitions = [])
    (hprompt : History.Always History.Prompt (history ++ added)) :
    Asked relay (history ++ added) := by
  refine ⟨h.toFiled.extend hdocket haccepted hpetitions hprompt, ?_, ?_⟩
  · rw [hdocket]
    exact h.front
  · rw [hdocket]
    exact h.behind

theorem did (h : Asked relay history) {deed : Deed}
    (hdocket : history.docket.enter ⟨relay, deed⟩ = history.docket)
    (haccepted : (Moment.mk relay deed).accepted? = none)
    (hpetition : (Moment.mk relay deed).petition? = none) :
    Asked relay (history ++ [⟨relay, deed⟩]) := by
  apply h.extend _ _ _ (h.prompt.concat (h.prompts deed))
  · rw [History.docket_append]
    exact hdocket
  · simp [History.accepted, haccepted]
  · simp [History.petitions, hpetition]

theorem aside (h : Asked relay history) {deed : Deed} (haside : deed.keepsLine = true) :
    Asked relay (history ++ [⟨relay, deed⟩]) :=
  h.did (history.docket.enter_aside haside relay) (Moment.accepted?_aside haside relay)
    (Moment.petition?_aside haside relay)

theorem discovers (h : Asked relay history) (atom property : Atom) : Asked relay (history ++
    [⟨relay, .called (.convertSelection atom relay.vocabulary.targets property) ()⟩]) := by
  apply h.did
  · simp [Docket.enter]
  · rfl
  · simp [Moment.petition?]

theorem declines (h : Asked relay history) {operation : Operation} {selection : Selection}
    {type : ContentType} {what : Remark} (asks : operation.question? = some (selection, type))
    (hnone : relay.fetch? selection type = none)
    (haside : (Deed.noted (.about selection what)).keepsLine = true) :
    Asked relay (history ++ [⟨relay, .began operation⟩, ⟨relay, .noted (.about selection what)⟩,
      ⟨relay, .sent (.noData selection)⟩]) := by
  have hdeclined : (Moment.mk relay (.began operation)).accepted? = none := by
    simp [Moment.accepted?, asks, hnone]
  have hbegan : history.docket.enter ⟨relay, .began operation⟩ =
      { history.docket with due := history.docket.due + 1 } := by
    simp [Docket.enter, hdeclined, asks]
  apply h.extend
  · rw [History.docket_append, List.foldl_cons, List.foldl_cons, List.foldl_cons, hbegan,
      Docket.enter_aside haside]
    rfl
  · simp [History.accepted, List.filterMap_cons, Moment.accepted?, asks, hnone]
  · simp [History.petitions, List.filterMap_cons, Moment.petition?]
  · rw [List.append_cons]
    apply (h.prompt.concat (h.prompts _)).append
    simp [History.Prompt]

end Asked

namespace Unasked

variable {δ : Type} {relay after : Relay} {history : History}

theorem changed (h : Unasked relay history) (hline : after.fetchLine = relay.fetchLine) :
    Unasked after history :=
  ⟨h.toFiled.changed hline, h.blank⟩

theorem noted (h : Unasked relay history) {notice : Notice}
    (haside : (Deed.noted notice).keepsLine = true) :
    Unasked relay (history ++ [⟨relay, .noted notice⟩]) := by
  have hdocket : History.docket (history ++ [⟨relay, .noted notice⟩]) = history.docket := by
    rw [History.docket_append]
    exact history.docket.enter_aside haside relay
  refine ⟨h.toFiled.extend hdocket rfl rfl (h.prompt.concat trivial), ?_⟩
  rw [hdocket]
  exact h.blank

theorem ask (h : Unasked relay history) {fetch : Fetch} {rest : List Fetch} {atom : Atom}
    (front : relay.fetches = fetch :: rest)
    (named : relay.vocabulary.atom? fetch.selection = some atom) :
    Asked relay (history ++
      [⟨relay, .called (.convertSelection atom fetch.target atom) ()⟩]) := by
  obtain ⟨errand, others, hwaiting, hsame, -⟩ := h.exists_errand front
  have hblank := h.blank
  rw [hwaiting, List.forall_mem_cons] at hblank
  have hordinary : fetch.target ≠ relay.vocabulary.targets := h.ordinary fetch (by simp [front])
  have hcall : relay.vocabulary.conversion? errand.fetch =
      some (.convertSelection atom fetch.target atom) := by
    simp [Vocabulary.conversion?, hsame, named]
  have hdocket : History.docket (history ++
      [⟨relay, .called (.convertSelection atom fetch.target atom) ()⟩]) =
        history.docket.ask (.convertSelection atom fetch.target atom) := by
    rw [History.docket_append]
    exact if_neg hordinary
  have hpetition :
      (Moment.mk relay (.called (.convertSelection atom fetch.target atom) ())).petition? =
        some (.convertSelection atom fetch.target atom) :=
    if_neg hordinary
  have hsound := h.sound.ask (.convertSelection atom fetch.target atom) hwaiting hblank.2
  have hqueue := h.queue
  rw [Docket.ask_cons hwaiting] at hdocket hsound
  rw [hwaiting] at hqueue
  refine ⟨⟨?_, ?_, ?_, h.bridged, h.ordinary, h.prompt.concat ⟨h.queue, ?_⟩⟩, ?_, ?_⟩
  · rw [hdocket, History.accepted_append, History.petitions_append]
    have hadded : History.petitions
        [⟨relay, .called (.convertSelection atom fetch.target atom) ()⟩] =
          [.convertSelection atom fetch.target atom] := by
      simp [History.petitions, hpetition]
    have hnone : History.accepted
        [⟨relay, .called (.convertSelection atom fetch.target atom) ()⟩] = [] := rfl
    rw [hadded, hnone, List.append_nil]
    exact hsound
  · rw [hdocket]
    exact hqueue
  · rw [hdocket]
    exact h.settled
  · rw [hwaiting]
    rintro other hother -
    obtain rfl := Option.some.inj hother
    exact hcall
  · rw [hdocket]
    rintro other hother
    obtain rfl := Option.some.inj hother
    exact ⟨_, hcall, by simp [Errand.ask, hblank.1]⟩
  · rw [hdocket]
    exact hblank.2

theorem startFetch (h : Unasked relay history) :
    (Relay.startFetch : Action δ Unit).Yields (fun _ => Asked) relay history := by
  refine startFetch_ensures_of (fun hunnamed => ?_) fun fetch rest atom front named =>
    ⟨?_, fun _ => trivial⟩
  · have hempty : relay.fetches = [] := by
      cases hfetches : relay.fetches with
      | nil => rfl
      | cons fetch rest =>
        have hbridged := h.bridged fetch (by simp [hfetches])
        rw [hunnamed fetch (by simp [hfetches])] at hbridged
        cases hbridged
    have hwaiting : history.docket.waiting = [] := List.map_eq_nil_iff.mp (h.queue.trans hempty)
    exact ⟨h.toFiled, by simp [hwaiting], by simp [hwaiting]⟩
  · have asking : Unasked (relay.asking fetch) history := h.changed rfl
    exact (asking.noted rfl).ask front named

end Unasked

namespace Asked

variable {δ : Type} {relay : Relay} {history : History}

theorem queueFetch (h : Asked relay history) {operation : Operation} {fetch : Fetch}
    (haccepted : (Moment.mk relay (.began operation)).accepted? = some fetch)
    (hordinary : fetch.target ≠ relay.vocabulary.targets) :
    (Relay.queueFetch fetch : Action δ Unit).Yields (fun _ => Asked) relay
      (history ++ [⟨relay, .began operation⟩]) := by
  have hdocket : History.docket (history ++ [⟨relay, .began operation⟩]) =
      history.docket.accept fetch := by
    rw [History.docket_append]
    simp [Docket.enter, haccepted]
  have hadded : History.accepted [⟨relay, .began operation⟩] = [fetch] := by
    simp [History.accepted, haccepted]
  have filed : Filed (relay.withFetches (relay.fetches ++ [fetch]))
      (history ++ [⟨relay, .began operation⟩]) := by
    refine ⟨?_, ?_, ?_, ?_, ?_, h.prompt.concat (h.prompts _)⟩
    · have hnone : History.petitions [⟨relay, .began operation⟩] = [] := rfl
      rw [hdocket, History.accepted_append, History.petitions_append, hadded, hnone,
        List.append_nil]
      exact h.sound.accept fetch
    · rw [hdocket]
      simp [Docket.accept, withFetches, h.queue]
    · rw [hdocket]
      exact h.settled
    · exact List.forall_mem_append.mpr
        ⟨h.bridged, List.forall_mem_singleton.mpr (Moment.bridged_of_accepted? haccepted)⟩
    · exact List.forall_mem_append.mpr ⟨h.ordinary, List.forall_mem_singleton.mpr hordinary⟩
  refine queueFetch_ensures_of fetch (fun hempty => ?_) fun hwaiting => ?_
  · rw [hempty] at filed
    have hnone : history.docket.waiting = [] := List.map_eq_nil_iff.mp (h.queue.trans hempty)
    refine Unasked.startFetch ⟨filed, ?_⟩
    rw [hdocket]
    simp [Docket.accept, hnone]
  · obtain ⟨front, rest, hfetches⟩ := List.exists_cons_of_ne_nil hwaiting
    obtain ⟨errand, others, hdocketed, -, -⟩ := h.exists_errand hfetches
    have hfront := h.front
    have hbehind := h.behind
    rw [hdocketed] at hfront hbehind
    refine ⟨filed, ?_, ?_⟩
    · rw [hdocket, Docket.accept, hdocketed]
      exact hfront
    · rw [hdocket]
      simpa [Docket.accept, hdocketed, or_imp, forall_and] using hbehind

theorem finishFetch (h : Asked relay history) (data : Option Bytes) :
    (Relay.finishFetch data : Action δ Unit).Yields (fun _ => Asked) relay history := by
  refine finishFetch_ensures_of data (fun hempty => ?_) fun fetch rest front => ?_
  · apply h.changed
    rw [fetchLine, fetchLine, hempty]
    rfl
  obtain ⟨errand, others, hwaiting, -, hrest⟩ := h.exists_errand front
  have hfront := h.front
  have hbehind := h.behind
  have hbridged := h.bridged
  have hordinary := h.ordinary
  rw [hwaiting] at hfront hbehind
  rw [front, List.forall_mem_cons] at hbridged hordinary
  have hsaid := relay.said_finishing fetch data rest
  have hdocket := relay.docket_finishing history fetch data rest
  rw [Docket.answer_cons h.settled hwaiting] at hdocket
  refine Unasked.startFetch ⟨⟨?_, ?_, ?_, hbridged.2, hordinary.2, ?_⟩, ?_⟩
  · rw [hdocket, History.accepted_append, History.petitions_append, History.accepted_said hsaid,
      History.petitions_said hsaid, List.append_nil, List.append_nil]
    exact h.sound.finish hwaiting (hfront errand rfl)
  · rw [hdocket]
    exact hrest
  · rw [hdocket]
    exact h.settled
  · exact h.prompt.append (History.prompt_said hsaid)
  · rw [hdocket]
    exact hbehind

theorem dropFetches (h : Asked relay history) (selection : Selection) :
    (Relay.dropFetches selection : Action δ Unit).Yields (fun _ => Asked) relay history := by
  have hsaid := relay.said_dropping selection
  have hdocket := relay.docket_dropping h.settled h.queue selection
  have filed {active : Fetch} {rest : List Fetch} (front : relay.fetches = active :: rest) :
      Filed (relay.withoutFetches selection) (history ++ relay.dropping selection) := by
    obtain ⟨errand, others, hwaiting, -, -⟩ := h.exists_errand front
    have hfront := h.front
    have hbehind := h.behind
    rw [hwaiting] at hfront hbehind
    refine ⟨?_, ?_, ?_, ?_, ?_, h.prompt.append (History.prompt_said hsaid)⟩
    · rw [hdocket, History.accepted_append, History.petitions_append, History.accepted_said hsaid,
        History.petitions_said hsaid, List.append_nil, List.append_nil]
      exact (h.sound.drop selection hwaiting (hfront errand rfl) hbehind).settle 0
    · rw [hdocket, withoutFetches, withFetches, ← h.queue, List.filter_map]
      rfl
    · rw [hdocket]
    · exact fun fetch hfetch => h.bridged fetch (List.mem_of_mem_filter hfetch)
    · exact fun fetch hfetch => h.ordinary fetch (List.mem_of_mem_filter hfetch)
  refine dropFetches_ensures_of selection (fun _ => h) (fun active rest front _ same => ?_)
    fun active rest front _ other => ?_
  · obtain ⟨errand, others, hwaiting, hactive, -⟩ := h.exists_errand front
    have hbehind := h.behind
    rw [hwaiting] at hbehind
    refine Unasked.startFetch (Unasked.changed ⟨filed front, ?_⟩ rfl)
    rw [hdocket, Docket.drop, hwaiting, List.filter_cons_of_neg (by simp [hactive, same])]
    exact fun other hother => hbehind other (List.mem_of_mem_filter hother)
  · obtain ⟨errand, others, hwaiting, hactive, -⟩ := h.exists_errand front
    have hfront := h.front
    have hbehind := h.behind
    have hkept : (history.docket.drop selection).waiting =
        errand :: others.filter (·.fetch.selection ≠ selection) := by
      rw [Docket.drop, hwaiting, List.filter_cons_of_pos (by simp [hactive, other])]
    rw [hwaiting] at hfront hbehind
    refine ⟨filed front, ?_, ?_⟩
    · rw [hdocket, hkept]
      exact hfront
    · rw [hdocket, hkept]
      exact fun other hother => hbehind other (List.mem_of_mem_filter hother)

/-- The agent asked for something whose owner cannot be told from one that is asked for targets. -/
def Ambiguous (history : History) : Prop :=
  ∃ moment ∈ history, ∃ fetch, moment.accepted? = some fetch ∧
    fetch.target = moment.relay.vocabulary.targets

theorem tended [Display δ] : Tended δ Ambiguous Asked where
  lasting added := fun ⟨moment, hmoment, hambiguous⟩ =>
    ⟨moment, List.mem_append_left added hmoment, hambiguous⟩
  changed hline _ h := h.changed hline
  aside haside h := h.aside haside
  discovers atom property h := h.discovers atom property
  declines asks hnone haside h := h.declines asks hnone haside
  queues {relay history operation fetch} haccepted h := by
    by_cases hambiguous : fetch.target = relay.vocabulary.targets
    · refine (Action.spares_begun _).yields fun _ _ added _ _ => .inl ?_
      exact ⟨_, List.mem_append_left added (List.mem_append_right history List.mem_cons_self),
        fetch, haccepted, hambiguous⟩
    · exact (h.queueFetch haccepted hambiguous).mono fun _ _ _ => .inr
  drops selection h := h.dropFetches selection
  finishes data h := h.finishFetch data

/-- The calls that were made are those for the errands that have been at the head of the queue. -/
theorem petitions_eq {relay : Relay} {history : History} (h : Asked relay history) :
    history.petitions = (history.docket.ended ++ history.docket.waiting.take 1).filterMap
      (relay.vocabulary.conversion? ·.fetch) := by
  have hcalls {errands : List Errand}
      (hasked : ∀ errand ∈ errands, errand.AskedOnce relay.vocabulary) :
      errands.flatMap (·.calls) = errands.filterMap (relay.vocabulary.conversion? ·.fetch) := by
    induction errands with
    | nil => rfl
    | cons errand errands ih =>
      rw [List.forall_mem_cons] at hasked
      obtain ⟨⟨call, hcall, hmade⟩, hrest⟩ := hasked
      simp only [List.flatMap_cons, List.filterMap_cons, hcall, hmade, ih hrest]
      rfl
  have hmade := h.sound.made
  have hfront := h.front
  have hbehind := h.behind
  rw [List.filterMap_append, ← hcalls h.sound.ended, ← hmade, List.flatMap_append]
  congr 1
  cases hwaiting : history.docket.waiting with
  | nil => rfl
  | cons errand others =>
    rw [hwaiting] at hfront hbehind
    have hnone : others.flatMap (·.calls) = [] := List.flatMap_eq_nil_iff.mpr hbehind
    rw [List.flatMap_cons, hnone, List.append_nil, List.take_succ_cons, List.take_zero,
      ← hcalls (List.forall_mem_singleton.mpr (hfront errand rfl)), List.flatMap_singleton]

theorem fresh (relay : Relay) : Asked relay.fresh [] :=
  ⟨⟨.empty, rfl, rfl, by simp [Relay.fresh], by simp [Relay.fresh], .nil⟩,
    by simp [History.docket], by simp [History.docket]⟩

end Asked

theorem Relay.WellFormed.target_mem_of_fetch? {relay : Relay} (h : relay.WellFormed)
    {selection : Selection} {type : ContentType} {fetch : Fetch}
    (hfetch : relay.fetch? selection type = some fetch) :
    fetch.target ∈ relay.registry.targets := by
  obtain ⟨-, target, htarget, rfl⟩ := Relay.exists_of_fetch? hfetch
  cases hholder : relay.slots.holder selection with
  | nobody | agent types =>
    rw [hholder] at htarget
    cases htarget
  | desktop offers =>
    rw [hholder] at htarget
    obtain ⟨offer, hfind, rfl⟩ := Option.map_eq_some_iff.mp htarget
    obtain ⟨format, hformat, -, htarget⟩ :=
      ((h.held selection).listed offers hholder).exists_of_mem (List.mem_of_find?_eq_some hfind)
    exact List.mem_flatMap.mpr ⟨format, hformat, htarget⟩

namespace Course

variable {δ : Type} [Display δ] {display : δ} {course : Course δ} {moves : List (Move δ)}

/-- If no format has a target that means a question for targets, every fetch can be told apart from
such a question. -/
theorem not_ambiguous (hstart : start display = some course)
    (hapart : course.relay.vocabulary.targets ∉ course.relay.registry.targets) :
    ¬ Asked.Ambiguous (course.after moves).history := by
  rintro ⟨moment, hmoment, fetch, haccepted, hambiguous⟩
  obtain ⟨operation, type, hdeed, hfetch⟩ : ∃ operation type, moment.deed = .began operation ∧
      moment.relay.fetch? fetch.selection type = some fetch := by
    unfold Moment.accepted? at haccepted
    split at haccepted
    case h_1 operation hdeed =>
      obtain ⟨⟨selection, type⟩, -, hfetch⟩ := Option.bind_eq_some_iff.mp haccepted
      refine ⟨operation, type, hdeed, ?_⟩
      rw [Relay.selection_of_fetch? hfetch]
      exact hfetch
    case h_2 => cases haccepted
  obtain ⟨hwellFormed, hnames⟩ := wellFormed_at_cue hstart hmoment (by rw [hdeed]; rfl)
  have hknown := hwellFormed.target_mem_of_fetch? hfetch
  have hvocabulary : moment.relay.vocabulary = course.relay.vocabulary := congrArg (·.2.1) hnames
  have hregistry : moment.relay.registry = course.relay.registry := congrArg (·.2.2) hnames
  rw [hambiguous, hvocabulary, hregistry] at hknown
  exact hapart hknown

/-- As long as no call fails, the owner of every fetch is asked for it once, when the fetch comes to
the head of the queue, and the owner of no other fetch is. The calls are made in the order of the
questions, and the last one is for the fetch at the head. -/
theorem owners_asked_in_turn (hstart : start display = some course)
    (hapart : course.relay.vocabulary.targets ∉ course.relay.registry.targets)
    (hfaultless : (course.after moves).history.faultless = true) :
    let relay := (course.after moves).relay
    let history := (course.after moves).history
    let docket := history.docket
    docket.Sound relay.vocabulary history.accepted history.petitions ∧
      docket.waiting.map (·.fetch) = relay.fetches ∧
      (∀ errand ∈ docket.waiting.head?, errand.AskedOnce relay.vocabulary) ∧
      (∀ errand ∈ docket.waiting.tail, errand.calls = []) ∧
      history.Always History.Prompt ∧
      history.petitions = (docket.ended ++ docket.waiting.take 1).filterMap
        (relay.vocabulary.conversion? ·.fetch) ∧
      ∀ fetch ∈ relay.fetches.head?,
        history.petitions.getLast? = relay.vocabulary.conversion? fetch := by
  intro relay history docket
  have asked : Asked relay history :=
    (Asked.tended.kept.after Asked.fresh hstart hfaultless).resolve_left
      (not_ambiguous hstart hapart)
  refine ⟨asked.sound, asked.queue, asked.front, asked.behind, asked.prompt, asked.petitions_eq, ?_⟩
  intro fetch hfetch
  obtain ⟨rest, hfetches⟩ := List.head?_eq_some_iff.mp hfetch
  obtain ⟨errand, others, hwaiting, hsame, -⟩ := asked.exists_errand hfetches
  obtain ⟨call, hcall, -⟩ := asked.front errand (by rw [hwaiting]; rfl)
  rw [asked.petitions_eq, hwaiting, List.filterMap_append, ← hsame, hcall, List.take_succ_cons,
    List.take_zero]
  simp [hcall]

def takenOver : List (Move Memory.Display) :=
  ownedByTwo ++ [.operate (.ask .clipboard .utf8Text), .operate (.ask .clipboard .imagePng),
    .operate (.ask .primary .utf8Text), .elapse { events := [.ownerChanged ⟨100⟩ ⟨9⟩] },
    .operate .dispatch]

theorem owners_asked_in_turn_takenOver : ∃ course, start ({} : Memory.Display) = some course ∧
    course.relay.vocabulary.targets ∉ course.relay.registry.targets ∧
    (course.after takenOver).history.faultless = true ∧
    let docket := (course.after takenOver).history.docket
    docket.ended.map (·.fetch) = [⟨.clipboard, ⟨105⟩⟩] ∧
      docket.dropped.map (·.fetch) = [⟨.clipboard, ⟨108⟩⟩] ∧
      docket.waiting.map (·.fetch) = [⟨.primary, ⟨105⟩⟩] ∧
      (∀ errand ∈ docket.dropped, errand.calls = []) ∧
      (course.after takenOver).history.petitions.getLast? =
        some (.convertSelection ⟨101⟩ ⟨105⟩ ⟨101⟩) := by
  have hstart : start ({} : Memory.Display) =
      some ((start {}).get (by decide +kernel)) := (Option.some_get _).symm
  have hapart : ((start ({} : Memory.Display)).get (by decide +kernel)).relay.vocabulary.targets ∉
      ((start ({} : Memory.Display)).get (by decide +kernel)).relay.registry.targets := by
    decide +kernel
  have hfaultless : (((start ({} : Memory.Display)).get (by decide +kernel)).after
      takenOver).history.faultless = true := by decide +kernel
  obtain ⟨sound, -, -, -, -, -, last⟩ := owners_asked_in_turn hstart hapart hfaultless
  refine ⟨_, hstart, hapart, hfaultless, by decide +kernel, by decide +kernel, by decide +kernel,
    sound.dropped, ?_⟩
  apply (last ⟨.primary, ⟨105⟩⟩ (by decide +kernel)).trans
  decide +kernel

end Course

end ClipboardRelay
