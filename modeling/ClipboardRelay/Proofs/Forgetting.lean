import ClipboardRelay.Proofs.LateReplies
import ClipboardRelay.Proofs.Telling
import ClipboardRelay.Proofs.Tending
import ClipboardRelay.Proofs.WellFormed
import Mathlib.Data.List.Nodup
import Mathlib.Data.List.Perm.Subperm
/-!
The fetches that were given up before their owners replied, whatever calls fail. Each is remembered
until the reply comes, or until its selection is fetched from again. Main statement: in every run
few are remembered, and none of the selection that is fetched from. So a reply to one of them is put
aside, and that fetch is forgotten.
-/

namespace ClipboardRelay

variable {δ α : Type} {relay after : Relay} {history : History}

def Deed.isCall : Deed → Bool
  | called .. | failed .. => true
  | began _ | sent _ | noted _ => false

abbrev History.AtCalls (holds : Relay → Prop) (history : History) : Prop :=
  history.Each fun moment => moment.deed.isCall = true → holds moment.relay

theorem History.AtCalls.said {holds : Relay → Prop} (h : history.AtCalls holds) {added : History}
    (hadded : ∀ moment ∈ added, moment.deed.isCall = false) : (history ++ added).AtCalls holds := by
  refine List.forall_mem_append.mpr ⟨h, fun moment hmoment hcall => ?_⟩
  rw [hadded moment hmoment] at hcall
  cases hcall

/-- Whether something holds of the relay, and did whenever a call was made. Between two calls it
need not. -/
structure Steadily (holds : Relay → Prop) (relay : Relay) (history : History) : Prop where
  now : holds relay
  calls : history.AtCalls holds

namespace Steadily

variable {holds : Relay → Prop}

theorem become (h : Steadily holds relay history) (hafter : holds after) :
    Steadily holds after history :=
  ⟨hafter, h.calls⟩

theorem did (h : Steadily holds relay history) (deeds : List Deed) :
    Steadily holds relay (history ++ deeds.map (Moment.mk relay)) :=
  ⟨h.now, h.calls.did fun _ _ _ => h.now⟩

end Steadily

theorem Action.Yields.ensures_steadily [Nonempty δ] {holds : Relay → Prop} {action : Action δ α}
    (h : action.Yields (fun _ => Steadily holds) relay history) :
    action.Ensures (fun _ => Steadily holds) (Steadily holds) relay history := by
  induction action generalizing relay history with
  | done value => exact h
  | step effect next ih =>
    cases effect with
    | current => exact ih relay h
    | display => exact fun display => ih display (h display)
    | update change => exact ih () h
    | call asked =>
      refine ⟨fun answer => ih answer (h.1 answer), fun fault => ?_⟩
      -- Any answer will do: the call that it answers was made by the same relay.
      obtain ⟨answer⟩ : Nonempty asked.Answer := inferInstance
      have answered : (next answer).Yields (fun _ => Steadily holds) relay
          (history ++ [⟨relay, .called asked answer⟩]) := h.1 answer
      have hcalls := (answered.mono fun _ _ _ hend => hend.calls).each_before
      obtain ⟨hbefore, hcalled⟩ := List.forall_mem_append.mp hcalls
      have hrelay : holds relay := hcalled _ List.mem_cons_self rfl
      exact ⟨hrelay, History.Each.concat hbefore fun _ => hrelay⟩
    | send messages => exact ih () h
    | note notices => exact ih () h

namespace Relay

structure FewAbandoned (relay : Relay) : Prop where
  bridged : ∀ fetch ∈ relay.fetches ++ relay.abandoned,
    (relay.vocabulary.atom? fetch.selection).isSome = true
  single : (relay.abandoned.map (·.selection)).Nodup

/-- Those that were given up are not of the selection that is fetched from. -/
structure Unshadowed (relay : Relay) : Prop extends FewAbandoned relay where
  apart : ∀ active ∈ relay.fetches.head?, ∀ fetch ∈ relay.abandoned,
    fetch.selection ≠ active.selection

theorem FewAbandoned.mono (h : relay.FewAbandoned)
    (hvocabulary : after.vocabulary = relay.vocabulary) (hfetches : after.fetches ⊆ relay.fetches)
    (habandoned : after.abandoned.Sublist relay.abandoned) : after.FewAbandoned where
  bridged fetch hfetch := by
    rw [hvocabulary]
    refine h.bridged fetch (List.mem_append.mpr ?_)
    exact (List.mem_append.mp hfetch).imp (hfetches ·) (habandoned.subset ·)
  single := h.single.sublist (habandoned.map _)

theorem FewAbandoned.length_le (h : relay.FewAbandoned) : relay.abandoned.length ≤ 2 := by
  have hselections : relay.abandoned.map (·.selection) ⊆ [.clipboard, .primary] := by
    intro selection hselection
    obtain ⟨fetch, hfetch, rfl⟩ := List.mem_map.mp hselection
    have hother : fetch.selection ≠ .secondary :=
      Vocabulary.ne_secondary_of_atom? (h.bridged fetch (List.mem_append_right _ hfetch))
    cases hnamed : fetch.selection <;> simp_all
  simpa using (h.single.subperm hselections).length_le

namespace Unshadowed

theorem changed (h : relay.Unshadowed) (hline : after.fetchLine = relay.fetchLine)
    (hfewer : after.abandoned.Sublist relay.abandoned) : after.Unshadowed := by
  obtain ⟨hvocabulary, hfetches⟩ := Prod.mk.inj hline
  refine ⟨h.mono hvocabulary (hfetches ▸ List.Subset.refl _) hfewer, fun active hactive => ?_⟩
  rw [hfetches] at hactive
  exact fun fetch hfetch => h.apart active hactive fetch (hfewer.subset hfetch)

theorem fresh (relay : Relay) : relay.fresh.Unshadowed :=
  ⟨⟨by simp [Relay.fresh], by simp [Relay.fresh]⟩, by simp [Relay.fresh]⟩

end Unshadowed

/-- Whatever comes to the head of the queue, what was given up for its selection is forgotten before
the owner is asked. -/
theorem startFetch_steadily (h : relay.FewAbandoned) (hcalls : history.AtCalls Unshadowed) :
    (startFetch : Action δ Unit).Yields (fun _ => Steadily Unshadowed) relay history := by
  refine startFetch_ensures_of (fun unnamed => ⟨⟨h, fun active hactive => ?_⟩, hcalls⟩)
    fun fetch rest atom front named => ⟨?_, fun _ => trivial⟩
  · have hbridged := h.bridged active (List.mem_append_left _ (List.mem_of_mem_head? hactive))
    rw [unnamed active hactive] at hbridged
    cases hbridged
  · have asked : (relay.asking fetch).Unshadowed := by
      refine ⟨h.mono rfl (List.Subset.refl _) List.filter_sublist, ?_⟩
      intro active hactive other hother
      have hfront : active ∈ relay.fetches.head? := hactive
      rw [front] at hfront
      obtain rfl := Option.some.inj hfront
      exact of_decide_eq_true (List.mem_filter.mp hother).2
    exact ⟨asked, (hcalls.concat fun _ => asked).concat fun _ => asked⟩

theorem queueFetch_steadily (h : Steadily Unshadowed relay history) {fetch : Fetch}
    (bridged : (relay.vocabulary.atom? fetch.selection).isSome = true) :
    (queueFetch fetch : Action δ Unit).Yields (fun _ => Steadily Unshadowed) relay history := by
  have few : (relay.withFetches (relay.fetches ++ [fetch])).FewAbandoned := by
    refine ⟨fun other hother => ?_, h.now.single⟩
    simp only [withFetches, List.mem_append, List.mem_singleton] at hother
    rcases hother with (hold | rfl) | hgiven
    · exact h.now.bridged other (List.mem_append_left _ hold)
    · exact bridged
    · exact h.now.bridged other (List.mem_append_right _ hgiven)
  refine queueFetch_ensures_of fetch (fun empty => ?_) fun waiting => h.become ⟨few, ?_⟩
  · rw [empty] at few
    exact startFetch_steadily few h.calls
  · obtain ⟨front, rest, hfetches⟩ := List.exists_cons_of_ne_nil waiting
    have apart := h.now.apart
    rw [hfetches] at apart
    simpa [withFetches, hfetches] using apart

theorem finishFetch_steadily (h : Steadily Unshadowed relay history) (data : Option Bytes) :
    (finishFetch data : Action δ Unit).Yields (fun _ => Steadily Unshadowed) relay history := by
  refine finishFetch_ensures_of data (fun empty => h.become ?_) fun fetch rest front => ?_
  · refine ⟨h.now.mono rfl (List.nil_subset _) (List.Sublist.refl _), ?_⟩
    simp [finished, withFetches]
  · have few : (relay.finished data rest).FewAbandoned := by
      refine h.now.mono rfl ?_ (List.Sublist.refl _)
      rw [front]
      exact List.subset_cons_self fetch rest
    refine startFetch_steadily few (h.calls.said ?_)
    unfold finishing
    split <;> simp [Deed.isCall]

/-- Nothing had been given up for the selection of the fetch at the head. The next one in the queue
may still be shadowed. -/
theorem Unshadowed.giveUp (h : relay.Unshadowed) (selection : Selection) {active : Fetch}
    {rest : List Fetch} (front : relay.fetches = active :: rest) :
    (((relay.withoutFetches selection).withReader relay.reader.abort).withAbandoned
      (relay.abandoned ++ [active])).FewAbandoned where
  bridged fetch hfetch := by
    refine h.bridged fetch ?_
    rcases List.mem_append.mp hfetch with hkept | hgiven
    · exact List.mem_append_left _ (List.mem_of_mem_filter hkept)
    rcases List.mem_append.mp hgiven with hold | hnew
    · exact List.mem_append_right _ hold
    · rw [front, List.mem_singleton.mp hnew]
      exact List.mem_append_left _ List.mem_cons_self
  single := by
    have hactive : active ∈ relay.fetches.head? := by rw [front]; rfl
    have hnew : active.selection ∉ relay.abandoned.map (·.selection) := by
      intro hold
      obtain ⟨fetch, hfetch, hsame⟩ := List.mem_map.mp hold
      exact h.apart active hactive fetch hfetch hsame
    rw [withAbandoned, List.map_append, List.map_singleton, ← List.concat_eq_append]
    exact List.Nodup.concat hnew h.single

theorem dropFetches_steadily (h : Steadily Unshadowed relay history) (selection : Selection) :
    (dropFetches selection : Action δ Unit).Yields (fun _ => Steadily Unshadowed) relay
      history := by
  have hsaid : ∀ moment ∈ relay.dropping selection, moment.deed.isCall = false := by
    simp [dropping, Deed.isCall]
  refine dropFetches_ensures_of selection (fun _ => h) (fun active rest front _ same => ?_)
    fun active rest front _ other => ⟨⟨?_, ?_⟩, h.calls.said hsaid⟩
  · exact startFetch_steadily (h.now.giveUp selection front) (h.calls.said hsaid)
  · exact h.now.mono rfl (List.filter_subset_self _) (List.Sublist.refl _)
  · have apart := h.now.apart
    rw [front] at apart
    simpa [withoutFetches, withFetches, front, other] using apart

/-- Whatever calls fail, few fetches are given up and not forgotten. -/
theorem unshadowed_tended [Display δ] :
    Tended δ (fun _ => False) (Steadily Unshadowed) where
  lasting _ h := h
  changed hline hfewer h := h.become (h.now.changed hline hfewer)
  aside _ h := h.did [_]
  discovers _ _ h := h.did [_]
  declines _ _ _ h := h.did [_, _, _]
  queues accepted h :=
    (queueFetch_steadily (h.did [_]) (Moment.bridged_of_accepted? accepted)).mono fun _ _ _ => .inr
  drops selection h := dropFetches_steadily h selection
  finishes data h := finishFetch_steadily h data

theorem eraseP_answers {vocabulary : Vocabulary} {notify : SelectionNotify} {fetch : Fetch}
    (hanswers : answers vocabulary notify fetch = true) (fetches : List Fetch) :
    fetches.eraseP (answers vocabulary notify) = fetches.erase fetch := by
  have honly : answers vocabulary notify = (· == fetch) := by
    funext other
    rw [Bool.eq_iff_iff, beq_iff_eq]
    exact ⟨fun hother => answers_unique hother hanswers, fun hsame => hsame ▸ hanswers⟩
  rw [honly, List.erase_eq_eraseP']

theorem Unshadowed.handle (h : relay.Unshadowed) (history : History) {notify : SelectionNotify}
    (data : notify.target ≠ relay.vocabulary.targets) {fetch : Fetch}
    (hfetch : fetch ∈ relay.abandoned) (hanswers : answers relay.vocabulary notify fetch = true) :
    (Relay.handle (.selectionNotify notify) : Action δ Unit).Ensures
      (fun _ after later => after = relay.withAbandoned (relay.abandoned.erase fetch) ∧
        later.messages = history.messages)
      (fun after later => after = relay.withAbandoned (relay.abandoned.erase fetch) ∧
        later.messages = history.messages) relay history := by
  obtain ⟨found, hfound⟩ := Option.isSome_iff_exists.mp
    (List.find?_isSome.mpr ⟨fetch, hfetch, hanswers⟩)
  obtain rfl := answers_unique (List.find?_some hfound) hanswers
  have other : relay.fetches.head?.map (·.selection) ≠ some found.selection := by
    intro same
    obtain ⟨active, hactive, hsame⟩ := Option.map_eq_some_iff.mp same
    exact h.apart active hactive found hfetch hsame.symm
  unfold Relay.handle
  rw [Action.ensures_bind, ensures_current, if_neg data, ← eraseP_answers hanswers]
  exact handleConversion_of_late history hfound other

end Relay

namespace Course

/-- Whether a relay is what a run has come to, or what it was when a call was made. -/
def Passes (course : Course δ) (relay : Relay) : Prop :=
  relay = course.relay ∨ ∃ moment ∈ course.history, moment.deed.isCall = true ∧ moment.relay = relay

theorem Passes.of_steadily {holds : Relay → Prop} {course : Course δ}
    (hpasses : course.Passes relay) (h : Steadily holds course.relay course.history) :
    holds relay := by
  rcases hpasses with rfl | ⟨moment, hmoment, hcall, rfl⟩
  · exact h.now
  · exact h.calls moment hmoment hcall

theorem Passes.unshadowed [Display δ] {display : δ} {course : Course δ}
    (hstart : start display = some course) {moves : List (Move δ)}
    (hpasses : (course.after moves).Passes relay) : relay.Unshadowed := by
  have hnonempty : Nonempty δ := ⟨display⟩
  refine hpasses.of_steadily (Relay.unshadowed_tended.kept.after_faults
    Action.Yields.ensures_steadily (fun relay => ⟨.fresh relay, ?_⟩) hstart moves)
  simp [History.AtCalls, History.Each]

/-- Whatever calls fail, of each selection one fetch at most was given up and is not forgotten, and
none of the selection that is fetched from. A reply to one of them sends nothing, and changes
nothing in the relay except that this one is forgotten. -/
theorem given_up_kept_apart [Display δ] {display : δ} {course : Course δ}
    (hstart : start display = some course) (moves : List (Move δ))
    (hpasses : (course.after moves).Passes relay) :
    (∀ selection, (relay.abandoned.map (·.selection)).count selection ≤ 1) ∧
      relay.abandoned.length ≤ 2 ∧
      (∀ active ∈ relay.fetches.head?, ∀ fetch ∈ relay.abandoned,
        fetch.selection ≠ active.selection) ∧
      ∀ (notify : SelectionNotify), notify.target ≠ relay.vocabulary.targets →
        ∀ fetch ∈ relay.abandoned, Relay.answers relay.vocabulary notify fetch = true →
          ∀ session : Session δ, session.relay = relay →
            let after := ((Relay.handle (.selectionNotify notify)).run session).2
            after.outbox = session.outbox ∧
              after.relay = { relay with abandoned := relay.abandoned.erase fetch } := by
  have unshadowed : relay.Unshadowed := hpasses.unshadowed hstart
  refine ⟨List.nodup_iff_count_le_one.mp unshadowed.single, unshadowed.length_le,
    unshadowed.apart, ?_⟩
  rintro notify data fetch hfetch hanswers session rfl
  have aside := unshadowed.handle (δ := δ) [] data hfetch hanswers
  obtain ⟨hrelay, hmessages⟩ := aside.run_anyhow session
  exact ⟨Action.outbox_run_silent hmessages, hrelay⟩

/-- Questions for the clipboard and for the primary selection. The clipboard changes hands before
its owner has replied, and then the other owner cannot be asked. -/
def failingToAsk : List (Move Memory.Display) :=
  ownedByTwo ++ [.operate (.ask .clipboard .utf8Text), .operate (.ask .primary .utf8Text),
    .elapse {
      events := [.ownerChanged ⟨100⟩ ⟨9⟩]
      rules := [{ kind := .convertSelection, failure := .connection }] },
    .operate .dispatch]

theorem given_up_kept_apart_failingToAsk : ∃ course, start {} = some course ∧
    let ended := course.after failingToAsk
    ended.history.faultless = false ∧ ended.relay.fetches = [⟨.primary, ⟨105⟩⟩] ∧
      ended.relay.abandoned = [⟨.clipboard, ⟨105⟩⟩] ∧
      let after := ((Relay.handle (.selectionNotify ⟨0, ⟨1⟩, ⟨100⟩, ⟨105⟩, ⟨100⟩⟩)).run
        ended.session).2
      after.outbox = ended.session.outbox ∧
        after.relay = { ended.relay with
          abandoned := ended.relay.abandoned.erase ⟨.clipboard, ⟨105⟩⟩ } := by
  have hstart : start ({} : Memory.Display) =
      some ((start {}).get (by decide +kernel)) := (Option.some_get _).symm
  refine ⟨_, hstart, by decide +kernel, by decide +kernel, by decide +kernel, ?_⟩
  obtain ⟨-, -, -, late⟩ := given_up_kept_apart hstart failingToAsk (.inl rfl)
  exact late ⟨0, ⟨1⟩, ⟨100⟩, ⟨105⟩, ⟨100⟩⟩ (by decide +kernel) ⟨.clipboard, ⟨105⟩⟩
    (by decide +kernel) (by decide +kernel) _ rfl

end Course

end ClipboardRelay
