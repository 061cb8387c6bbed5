import ClipboardRelay.Proofs.Ensures
/-!
What an action leaves alone, whatever relay it starts with and whatever the display answers. Main
statement: a part of the relay that an action spares is as before when it ends, and what it did is
apart from the deeds that matter.
-/

namespace ClipboardRelay

variable {δ σ τ α β : Type}

def Effect.Spares (kept : Relay → σ) (apart : Deed → Bool) : Effect δ → Prop
  | .current | .display => True
  | .update change => ∀ relay, kept (change relay) = kept relay
  | .call asked => ∀ answer, apart (.called asked answer) = true
  | .send messages => ∀ message ∈ messages, apart (.sent message) = true
  | .note notices => ∀ notice ∈ notices, apart (.noted notice) = true

/-- A relay and a history in which a part is as in another relay, and so it was at all moments since a
history, the deeds of which are `apart`. -/
structure Spared (part : Relay → σ) (apart : Deed → Bool) (origin : Relay) (begun : History)
    (relay : Relay) (history : History) : Prop where
  kept : part relay = part origin
  added : ∃ added, history = begun ++ added ∧ ∀ moment ∈ added, apart moment.deed = true ∧
    part moment.relay = part origin

namespace Spared

variable {kept : Relay → σ} {apart : Deed → Bool} {origin relay : Relay} {begun history : History}

theorem refl : Spared kept apart relay history relay history :=
  ⟨rfl, [], (List.append_nil history).symm, by simp⟩

theorem deeds (h : Spared kept apart origin begun relay history) :
    ∃ added, history = begun ++ added ∧ ∀ moment ∈ added, apart moment.deed = true := by
  obtain ⟨added, hhistory, hadded⟩ := h.added
  exact ⟨added, hhistory, fun moment hmoment => (hadded moment hmoment).1⟩

theorem did (h : Spared kept apart origin begun relay history) (deeds : List Deed)
    (hdeeds : ∀ deed ∈ deeds, apart deed = true) :
    Spared kept apart origin begun relay (history ++ deeds.map (Moment.mk relay)) := by
  obtain ⟨added, rfl, hadded⟩ := h.added
  refine ⟨h.kept, added ++ deeds.map (Moment.mk relay), List.append_assoc .., ?_⟩
  intro moment hmoment
  rcases List.mem_append.mp hmoment with hold | hnew
  · exact hadded moment hold
  · obtain ⟨deed, hdeed, rfl⟩ := List.mem_map.mp hnew
    exact ⟨hdeeds deed hdeed, h.kept⟩

end Spared

namespace Action

/-- Every effect of an action keeps a part of the relay, and all deeds are `apart`. -/
def Spares (kept : Relay → σ) (apart : Deed → Bool) : Action δ α → Prop
  | done _ => True
  | step effect next => effect.Spares kept apart ∧ ∀ answer, (next answer).Spares kept apart

abbrev Yields (post : α → Relay → History → Prop) (action : Action δ α) (relay : Relay)
    (history : History) : Prop :=
  action.Ensures post (fun _ _ => True) relay history

namespace Spares

variable {kept : Relay → σ} {apart : Deed → Bool}

theorem pure {value : α} : (Pure.pure value : Action δ α).Spares kept apart :=
  trivial

theorem bind {first : Action δ α} {rest : α → Action δ β} (hfirst : first.Spares kept apart)
    (hrest : ∀ value, (rest value).Spares kept apart) : (first >>= rest).Spares kept apart := by
  change (first.bind rest).Spares kept apart
  induction first with
  | done value => exact hrest value
  | step effect next ih => exact ⟨hfirst.1, fun answer => ih answer (hfirst.2 answer)⟩

theorem mono {action : Action δ α} (h : action.Spares kept apart) {part : Relay → τ}
    (read : σ → τ) (hread : ∀ relay, part relay = read (kept relay)) {wide : Deed → Bool}
    (hwide : ∀ deed, apart deed = true → wide deed = true) : action.Spares part wide := by
  induction action with
  | done value => trivial
  | step effect next ih =>
    refine ⟨?_, fun answer => ih answer (h.2 answer)⟩
    have heffect := h.1
    cases effect with
    | current | display => trivial
    | update change =>
      intro relay
      rw [hread, hread, heffect relay]
    | call asked => exact fun answer => hwide _ (heffect answer)
    | send messages => exact fun message hmessage => hwide _ (heffect message hmessage)
    | note notices => exact fun notice hnotice => hwide _ (heffect notice hnotice)

theorem yields_spared {action : Action δ α} (h : action.Spares kept apart) {origin relay : Relay}
    {begun history : History} (spared : Spared kept apart origin begun relay history) :
    action.Yields (fun _ => Spared kept apart origin begun) relay history := by
  induction action generalizing relay history with
  | done value => exact spared
  | step effect next ih =>
    have heffect := h.1
    have hnext (answer : effect.Answer) {relay : Relay} {history : History}
        (spared : Spared kept apart origin begun relay history) := ih answer (h.2 answer) spared
    cases effect with
    | current => exact hnext relay spared
    | display => exact fun display => hnext display spared
    | update change => exact hnext () ⟨(heffect relay).trans spared.kept, spared.added⟩
    | call asked =>
      refine ⟨fun answer => hnext answer ?_, fun _ => trivial⟩
      exact spared.did [.called asked answer] (by simpa using heffect answer)
    | send messages =>
      refine hnext () ?_
      have hsent := spared.did (messages.map .sent) (List.forall_mem_map.mpr heffect)
      rwa [List.map_map] at hsent
    | note notices =>
      refine hnext () ?_
      have hnoted := spared.did (notices.map .noted) (List.forall_mem_map.mpr heffect)
      rwa [List.map_map] at hnoted

theorem yields_throughout {action : Action δ α} (h : action.Spares kept apart) {relay : Relay}
    {history : History} {post : α → Relay → History → Prop}
    (hpost : ∀ value after added, kept after = kept relay →
      (∀ moment ∈ added, apart moment.deed = true ∧ kept moment.relay = kept relay) →
      post value after (history ++ added)) : action.Yields post relay history := by
  have spared : Spared kept apart relay history relay history := .refl
  refine (h.yields_spared spared).mono ?_ fun _ _ h => h
  rintro value after _ ⟨hkept, added, rfl, hadded⟩
  exact hpost value after added hkept hadded

theorem yields {action : Action δ α} (h : action.Spares kept apart) {relay : Relay}
    {history : History} {post : α → Relay → History → Prop}
    (hpost : ∀ value after added, kept after = kept relay →
      (∀ moment ∈ added, apart moment.deed = true) → post value after (history ++ added)) :
    action.Yields post relay history :=
  h.yields_throughout fun value after added hkept hadded =>
    hpost value after added hkept fun moment hmoment => (hadded moment hmoment).1

end Spares

end Action

namespace Relay

open ClipboardRelay.Action (Spares)

variable {kept : Relay → σ} {apart : Deed → Bool}

theorem spares_current : Spares kept apart (current : Action δ Relay) :=
  ⟨trivial, fun _ => trivial⟩

theorem spares_update {change : Relay → Relay} (h : ∀ relay, kept (change relay) = kept relay) :
    Spares kept apart (update change : Action δ Unit) :=
  ⟨h, fun _ => trivial⟩

theorem spares_call {asked : Call} (h : ∀ answer, apart (.called asked answer) = true) :
    Spares kept apart (call asked : Action δ asked.Answer) :=
  ⟨h, fun _ => trivial⟩

theorem spares_noteAll {notices : List Notice}
    (h : ∀ notice ∈ notices, apart (.noted notice) = true) :
    Spares kept apart (noteAll notices : Action δ Unit) :=
  ⟨h, fun _ => trivial⟩

theorem spares_note {notice : Notice} (h : apart (.noted notice) = true) :
    Spares kept apart (note notice : Action δ Unit) :=
  spares_noteAll (by simpa using h)

theorem spares_remark {selection : Selection} {what : Remark}
    (h : apart (.noted (.about selection what)) = true) :
    Spares kept apart (remark selection what : Action δ Unit) :=
  spares_note h

theorem spares_remarkTargets {selection : Selection} {summary : Nat → Remark}
    {targets : List Atom} (hsummary : ∀ count, apart (.noted (.about selection (summary count))) = true)
    (hlisted : ∀ target, apart (.noted (.about selection (.listed target))) = true) :
    Spares kept apart (remarkTargets selection summary targets : Action δ Unit) := by
  refine spares_noteAll (List.forall_mem_cons.mpr ⟨hsummary _, ?_⟩)
  exact List.forall_mem_map.mpr fun target _ => hlisted target

theorem spares_sendAll {messages : List Wire.Message}
    (h : ∀ message ∈ messages, apart (.sent message) = true) :
    Spares kept apart (sendAll messages : Action δ Unit) :=
  ⟨h, fun _ => trivial⟩

theorem spares_send {message : Wire.Message} (h : apart (.sent message) = true) :
    Spares kept apart (send message : Action δ Unit) :=
  spares_sendAll (by simpa using h)

end Relay

end ClipboardRelay
