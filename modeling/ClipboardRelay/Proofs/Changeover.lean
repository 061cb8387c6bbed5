import ClipboardRelay.Proofs.History
/-!
When a selection changes hands. What is asked of its holder waits for that holder alone, so it may
be dropped then and at no other time. Main statement: once a relay has come to give a selection
another holder, it goes on to do so until it turns to another operation or event.
-/

namespace ClipboardRelay

namespace Operation

def release? : Operation → Option Selection
  | release selection | fulfil (.release selection) => some selection
  | _ => none

end Operation

namespace Deed

def begins : Deed → Bool
  | began _ => true
  | _ => false

/-- Whether the relay turns to something else: an operation begins, or the next event is polled. -/
def isTurn : Deed → Bool
  | began _ | called .pollEvent _ => true
  | _ => false

theorem not_begins_of_not_turn {deed : Deed} (h : deed.isTurn = false) : deed.begins = false := by
  cases deed with
  | began => cases h
  | _ => rfl

end Deed

namespace Moment

variable {moment : Moment}

def event? (moment : Moment) : Option Event :=
  match moment.deed with
  | .called .pollEvent event => event
  | _ => none

@[simp] theorem event?_polled (relay : Relay) (event : Option Event) :
    (Moment.mk relay (.called .pollEvent event)).event? = event := rfl

@[simp] theorem event?_began (relay : Relay) (operation : Operation) :
    (Moment.mk relay (.began operation)).event? = none := rfl

theorem eq_polled {event : Event} (h : moment.event? = some event) :
    moment = ⟨moment.relay, .called .pollEvent (some event)⟩ := by
  rcases moment with ⟨relay, deed⟩
  unfold event? at h
  split at h
  case h_1 hdeed =>
    dsimp only at hdeed
    rw [hdeed, h]
  case h_2 => cases h

/-- Whether someone else was reported to own a selection, or nobody. -/
def displaces (selection : Selection) (moment : Moment) : Bool :=
  match moment.event? with
  | some (.ownerChanged atom owner) =>
    moment.relay.vocabulary.selection? atom = some selection ∧ owner ≠ moment.relay.window
  | _ => false

def describes (selection : Selection) (moment : Moment) : Bool :=
  match moment.event? with
  | some (.selectionNotify notify) =>
    notify.target = moment.relay.vocabulary.targets ∧
      moment.relay.vocabulary.selection? notify.selection = some selection
  | _ => false

end Moment

namespace History

/-- Something was so, and nothing has ended it since. -/
def Lately (ends : Deed → Bool) (holds : Moment → Prop) (history : History) : Prop :=
  ∃ before moment since, history = before ++ moment :: since ∧ holds moment ∧
    ∀ later ∈ since, ends later.deed = false

variable {ends : Deed → Bool} {holds : Moment → Prop} {history : History}

theorem Lately.now {moment : Moment} (h : holds moment) :
    Lately ends holds (history ++ [moment]) :=
  ⟨history, moment, [], rfl, h, by simp⟩

theorem Lately.append (h : history.Lately ends holds) {added : History}
    (hadded : ∀ moment ∈ added, ends moment.deed = false) :
    Lately ends holds (history ++ added) := by
  obtain ⟨before, moment, since, rfl, hholds, hsince⟩ := h
  refine ⟨before, moment, since ++ added, by simp, hholds, fun later hlater => ?_⟩
  rcases List.mem_append.mp hlater with hold | hnew
  · exact hsince later hold
  · exact hadded later hnew

theorem Lately.mono (h : history.Lately ends holds) {weaker : Moment → Prop}
    (hweaker : ∀ moment, holds moment → weaker moment) {fewer : Deed → Bool}
    (hfewer : ∀ deed, ends deed = false → fewer deed = false) : history.Lately fewer weaker := by
  obtain ⟨before, moment, since, hsplit, hholds, hsince⟩ := h
  exact ⟨before, moment, since, hsplit, hweaker moment hholds,
    fun later hlater => hfewer _ (hsince later hlater)⟩

end History

namespace Relay

def taken? (relay : Relay) (operation : Operation) : Option (Selection × List ContentType) :=
  operation.grab?.bind fun (selection, types) =>
    if (relay.vocabulary.atom? selection).isSome ∧ ContentType.distinct types ≠ [] then
      some (selection, ContentType.distinct types)
    else none

theorem question?_of_taken? {relay : Relay} {operation : Operation} {selection : Selection}
    {types : List ContentType} (h : relay.taken? operation = some (selection, types)) :
    operation.question? = none := by
  obtain ⟨grabbed, hgrab, -⟩ := Option.bind_eq_some_iff.mp h
  cases operation with
  | ask => cases hgrab
  | fulfil request =>
    cases request with
    | ask => cases hgrab
    | _ => rfl
  | _ => rfl

theorem taken?_of_question? {relay : Relay} {operation : Operation} {selection : Selection}
    {type : ContentType} (h : operation.question? = some (selection, type)) :
    relay.taken? operation = none := by
  rcases htaken : relay.taken? operation with _ | taken
  · rfl
  · rw [question?_of_taken? htaken] at h
    cases h

/-- Whether a relay has come to give a selection another holder. -/
inductive Reassigns (relay : Relay) (selection : Selection) (history : History) : Prop
  | reported (displaced : history.Lately Deed.isTurn (·.displaces selection = true))
  | accepted (described : history.Lately Deed.isTurn (·.describes selection = true))
    (told : ∃ types, history.Lately Deed.isTurn (·.deed = .sent (.grab selection types)))
  | grabbed (took : history.Lately Deed.isTurn fun moment => ∃ operation types,
      moment.deed = .began operation ∧ moment.relay.taken? operation = some (selection, types))
  /-- The agent gave it up, and owns it even though all events were handled. -/
  | released (gave : history.Lately Deed.begins fun moment => ∃ operation,
      moment.deed = .began operation ∧ operation.release? = some selection)
    (unseen : history.Lately Deed.isTurn (·.deed = .noted (.about selection .releaseUnseen)))
    (own : relay.slots.owner selection = .agent)
  | ended (shut : history.Lately Deed.isTurn (·.deed = .began .shutdown))

namespace Reassigns

variable {relay after : Relay} {selection : Selection} {history added : History}

theorem of_slots (h : relay.Reassigns selection history) (hslots : after.slots = relay.slots) :
    after.Reassigns selection history := by
  cases h with
  | reported displaced => exact .reported displaced
  | accepted described told => exact .accepted described told
  | grabbed took => exact .grabbed took
  | released gave unseen own => exact .released gave unseen (hslots ▸ own)
  | ended shut => exact .ended shut

theorem append (h : relay.Reassigns selection history)
    (hadded : ∀ moment ∈ added, moment.deed.isTurn = false) :
    relay.Reassigns selection (history ++ added) := by
  cases h with
  | reported displaced => exact .reported (displaced.append hadded)
  | accepted described told =>
    obtain ⟨types, told⟩ := told
    exact .accepted (described.append hadded) ⟨types, told.append hadded⟩
  | grabbed took => exact .grabbed (took.append hadded)
  | released gave unseen own =>
    have hbegun : ∀ moment ∈ added, moment.deed.begins = false := fun moment hmoment =>
      Deed.not_begins_of_not_turn (hadded moment hmoment)
    exact .released (gave.append hbegun) (unseen.append hadded) own
  | ended shut => exact .ended (shut.append hadded)

end Reassigns

end Relay

end ClipboardRelay
