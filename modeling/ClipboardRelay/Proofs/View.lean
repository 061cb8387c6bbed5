import ClipboardRelay.Memory.Display
import ClipboardRelay.Proofs.Operating
/-!
What the agent can know of the desktop. It learns of desktop owners from grabs and releases alone,
and knows of its own grabs. What it makes of them is what the relay has in its slots, and no message
repeats what it knows already.
-/

namespace ClipboardRelay

namespace Holder

def offered? : Holder → Option (List ContentType)
  | desktop offers => some (offers.map (·.type))
  | nobody | agent _ => none

theorem offered?_eq_ite (holder : Holder) :
    holder.offered? = if holder.owner = .desktop then some holder.types else none := by
  cases holder <;> rfl

end Holder

namespace Moment

/-- What the agent takes to be on offer from the desktop, if it took `known` to be before. -/
def view (selection : Selection) (known : Option (List ContentType)) (moment : Moment) :
    Option (List ContentType) :=
  match moment.deed with
  | .sent (.grab owned types) => if owned = selection then some types else known
  | .sent (.release lost) => if lost = selection then none else known
  | .began operation =>
    if (moment.relay.taken? operation).map (·.1) = some selection then none else known
  | _ => known

def isNeutral (moment : Moment) : Bool :=
  match moment.deed with
  | .sent (.grab ..) | .sent (.release _) => false
  | .began operation => (moment.relay.taken? operation).isNone
  | _ => true

variable (relay : Relay)

@[simp] theorem isNeutral_called (call : Call) (answer : call.Answer) :
    (Moment.mk relay (.called call answer)).isNeutral = true := rfl

@[simp] theorem isNeutral_noted (notice : Notice) :
    (Moment.mk relay (.noted notice)).isNeutral = true := rfl

theorem view_neutral {moment : Moment} (h : moment.isNeutral = true) (selection : Selection)
    (known : Option (List ContentType)) : moment.view selection known = known := by
  rcases moment with ⟨relay, deed⟩
  cases deed with
  | sent message =>
    cases message with
    | grab | release => cases h
    | _ => rfl
  | began operation =>
    have hnone : relay.taken? operation = none := Option.isNone_iff_eq_none.mp h
    simp [view, hnone]
  | _ => rfl

end Moment

namespace History

/-- The desktop's offers as the agent can tell them from a history. -/
def view (selection : Selection) (history : History) : Option (List ContentType) :=
  history.foldl (Moment.view selection) none

/-- Whether a moment says something new after a history, if it says anything. -/
def Admits (history : History) (moment : Moment) : Prop :=
  (∀ selection, moment.deed = .sent (.release selection) →
    (history.view selection).isSome = true) ∧
  ∀ selection types, moment.deed = .sent (.grab selection types) → history.view selection = none

def Consistent (history : History) : Prop :=
  ∀ before moment rest, history = before ++ moment :: rest → Admits before moment

theorem view_append (first second : History) (selection : Selection) :
    (first ++ second).view selection = second.foldl (Moment.view selection) (first.view selection) :=
  List.foldl_append

theorem view_neutral {added : History} (neutral : ∀ moment ∈ added, moment.isNeutral = true)
    (history : History) (selection : Selection) :
    (history ++ added).view selection = history.view selection := by
  induction added generalizing history with
  | nil => rw [List.append_nil]
  | cons moment added ih =>
    rw [List.append_cons, ih fun other h => neutral other (List.mem_cons_of_mem _ h), view_append]
    exact moment.view_neutral (neutral moment List.mem_cons_self) selection _

theorem Consistent.concat {history : History} {moment : Moment} (h : history.Consistent)
    (admits : history.Admits moment) : (history ++ [moment]).Consistent :=
  Always.concat h admits

theorem Consistent.neutral {history added : History} (h : history.Consistent)
    (neutral : ∀ moment ∈ added, moment.isNeutral = true) : (history ++ added).Consistent := by
  refine Always.append h fun moment hmoment before => ⟨?_, ?_⟩
  · intro selection hdeed
    simpa [Moment.isNeutral, hdeed] using neutral moment hmoment
  · intro selection types hdeed
    simpa [Moment.isNeutral, hdeed] using neutral moment hmoment

end History

theorem Relay.isNeutral_answer (relay now : Relay) (fetch : Fetch) (data : Option Bytes) :
    (Moment.mk now (.sent (relay.answer fetch data))).isNeutral = true := by
  unfold Relay.answer
  split
  · split <;> rfl
  · rfl

/-- The holder that a selection has or, once this is settled, will have. -/
def Stage.holder (stage : Stage) (selection : Selection) : Holder :=
  match stage.duty.owed with
  | some (owed, holder) => if owed = selection then holder else stage.relay.slots.holder selection
  | none => stage.relay.slots.holder selection

theorem Stage.holder_of_idle {stage : Stage} (idle : stage.duty = {}) (selection : Selection) :
    stage.holder selection = stage.relay.slots.holder selection := by
  simp only [holder, idle]

/-- The agent sees the desktop as it is, and no answer of an owner is awaited for a selection that
the desktop holds. -/
structure Seen (stage : Stage) : Prop where
  agrees : ∀ selection, stage.history.view selection = (stage.holder selection).offered?
  settled : ∀ selection, (stage.holder selection).owner = .desktop →
    (stage.relay.slots.get selection).awaited = 0
  consistent : stage.history.Consistent

namespace Seen

variable {stage next : Stage}

theorem extend (h : Seen stage) {added : History} (hhistory : next.history = stage.history ++ added)
    (neutral : ∀ moment ∈ added, moment.isNeutral = true)
    (hoffered : ∀ selection, (next.holder selection).offered? = (stage.holder selection).offered?)
    (hsettled : ∀ selection, (next.holder selection).owner = .desktop →
      (next.relay.slots.get selection).awaited = 0) : Seen next := by
  refine ⟨fun selection => ?_, hsettled, ?_⟩
  · rw [hhistory, History.view_neutral neutral, hoffered]
    exact h.agrees selection
  · rw [hhistory]
    exact h.consistent.neutral neutral

theorem neutrally (h : Seen stage) {relay : Relay} {deeds : List Deed}
    (howed : next.duty.owed = stage.duty.owed) (hslots : next.relay.slots = stage.relay.slots)
    (hhistory : next.history = stage.history ++ deeds.map (Moment.mk relay))
    (neutral : ∀ deed ∈ deeds, (Moment.mk relay deed).isNeutral = true) : Seen next := by
  have hholder (selection : Selection) : next.holder selection = stage.holder selection := by
    simp only [Stage.holder, howed, hslots]
  apply h.extend hhistory (by simpa using neutral) (fun selection => by rw [hholder])
  intro selection hdesktop
  rw [hholder] at hdesktop
  rw [hslots]
  exact h.settled selection hdesktop

theorem silently (h : Seen stage) (howed : next.duty.owed = stage.duty.owed)
    (hslots : next.relay.slots = stage.relay.slots) (hhistory : next.history = stage.history) :
    Seen next :=
  h.neutrally howed hslots (show next.history = stage.history ++ [].map (Moment.mk stage.relay) by
    simpa using hhistory) (by simp)

theorem tell (h : Seen stage) {moment : Moment} {selection : Selection} {holder : Holder}
    (hhistory : next.history = stage.history ++ [moment])
    (admits : stage.history.Admits moment)
    (hview : ∀ other known, moment.view other known =
      if selection = other then holder.offered? else known)
    (hholder : ∀ other, next.holder other =
      if selection = other then holder else stage.holder other)
    (hsettled : ∀ other, (next.holder other).owner = .desktop →
      (next.relay.slots.get other).awaited = 0) : Seen next := by
  refine ⟨fun other => ?_, hsettled, ?_⟩
  · rw [hhistory, History.view_append, List.foldl_cons, List.foldl_nil, hview, hholder, h.agrees]
    split <;> rfl
  · rw [hhistory]
    exact h.consistent.concat admits

theorem promised (h : Seen stage) {operation : Operation} {selection : Selection}
    {types : List ContentType} (idle : stage.duty = {})
    (taken : stage.relay.taken? operation = some (selection, types))
    (howed : next.duty.owed = some (selection, .agent types))
    (hslots : next.relay.slots = stage.relay.slots)
    (hhistory : next.history = stage.history ++ [⟨stage.relay, .began operation⟩]) :
    Seen next := by
  have hholder (other : Selection) : next.holder other =
      if selection = other then .agent types else stage.holder other := by
    simp only [Stage.holder, howed, hslots, idle]
  refine h.tell hhistory ⟨by simp, by simp⟩ (fun other known => ?_) hholder ?_
  · simp [Moment.view, taken, Holder.offered?]
  · intro other hdesktop
    rw [hholder] at hdesktop
    rw [hslots]
    split at hdesktop
    · cases hdesktop
    · exact h.settled other hdesktop

theorem surrendered (h : Seen stage) {selection : Selection}
    (idle : stage.duty = {}) (hidle : next.duty = {})
    (hslots : next.relay.slots = stage.relay.slots.setHolder selection .nobody)
    (hhistory : next.history = stage.history ++
      if stage.relay.slots.owner selection = .desktop then
        [⟨next.relay, .sent (.release selection)⟩] else []) : Seen next := by
  have hholder (other : Selection) : next.holder other =
      if selection = other then .nobody else stage.holder other := by
    rw [Stage.holder_of_idle hidle, Stage.holder_of_idle idle, hslots, Slots.holder_setHolder]
  have hsettled (other : Selection) (hdesktop : (next.holder other).owner = .desktop) :
      (next.relay.slots.get other).awaited = 0 := by
    rw [hholder] at hdesktop
    rw [hslots, Slots.awaited_setHolder]
    split at hdesktop
    · cases hdesktop
    · exact h.settled other hdesktop
  have hoffered := (stage.relay.slots.holder selection).offered?_eq_ite
  rw [← Slots.owner] at hoffered
  split at hhistory
  case isTrue lost =>
    refine h.tell hhistory ⟨?_, by simp⟩ (fun _ _ => rfl) hholder hsettled
    intro other hdeed
    cases hdeed
    rw [h.agrees, Stage.holder_of_idle idle, hoffered, if_pos lost]
    rfl
  case isFalse kept =>
    refine h.extend hhistory (by simp) (fun other => ?_) hsettled
    rw [hholder]
    split
    case isTrue same =>
      rw [← same, Stage.holder_of_idle idle, hoffered, if_neg kept]
      rfl
    case isFalse => rfl

theorem installed (h : Seen stage) {selection : Selection} {holder : Holder}
    (owed : stage.duty.owed = some (selection, holder)) (hidle : next.duty = {})
    (hslots : next.relay.slots = stage.relay.slots.setHolder selection holder)
    (hhistory : next.history = stage.history) : Seen next := by
  have hholder (other : Selection) : next.holder other = stage.holder other := by
    rw [Stage.holder_of_idle hidle, hslots, Slots.holder_setHolder]
    simp only [Stage.holder, owed]
  rw [← List.append_nil stage.history] at hhistory
  apply h.extend hhistory (by simp) (fun other => by rw [hholder])
  intro other hdesktop
  rw [hholder] at hdesktop
  rw [hslots, Slots.awaited_setHolder]
  exact h.settled other hdesktop

theorem asked (h : Seen stage) {selection : Selection} {moment : Moment} (idle : stage.duty = {})
    (vacant : stage.relay.slots.holder selection = .nobody) (neutral : moment.isNeutral = true)
    (hidle : next.duty = {}) (hslots : next.relay.slots = stage.relay.slots.await selection)
    (hhistory : next.history = stage.history ++ [moment]) : Seen next := by
  have hholder (other : Selection) : next.holder other = stage.holder other := by
    rw [Stage.holder_of_idle hidle, Stage.holder_of_idle idle, hslots, Slots.holder_await]
  apply h.extend hhistory (by simpa using neutral) (fun other => by rw [hholder])
  intro other hdesktop
  rw [hholder] at hdesktop
  have hother : other ≠ selection := by
    rintro rfl
    rw [Stage.holder_of_idle idle, vacant] at hdesktop
    cases hdesktop
  rw [hslots, Slots.awaited_await_of_ne _ hother]
  exact h.settled other hdesktop

theorem countedOff (h : Seen stage) {selection : Selection}
    (howed : next.duty.owed = stage.duty.owed)
    (hslots : next.relay.slots = (stage.relay.slots.arrive selection).2)
    (hhistory : next.history = stage.history) : Seen next := by
  have hholder (other : Selection) : next.holder other = stage.holder other := by
    simp only [Stage.holder, howed, hslots, Slots.holder_arrive]
  rw [← List.append_nil stage.history] at hhistory
  apply h.extend hhistory (by simp) (fun other => by rw [hholder])
  intro other hdesktop
  rw [hholder] at hdesktop
  have hle := Slots.awaited_arrive_le stage.relay.slots selection other
  rw [h.settled other hdesktop] at hle
  rw [hslots]
  exact Nat.le_zero.mp hle

theorem announced (h : Seen stage) {selection : Selection} {offers : List Offer}
    (idle : stage.duty = {}) (vacant : (stage.holder selection).owner ≠ .desktop)
    (answered : (stage.relay.slots.get selection).awaited = 0)
    (howed : next.duty.owed = some (selection, .desktop offers))
    (hslots : next.relay.slots = stage.relay.slots)
    (hhistory : next.history = stage.history ++
      [⟨next.relay, .sent (.grab selection (offers.map (·.type)))⟩]) : Seen next := by
  have hholder (other : Selection) : next.holder other =
      if selection = other then .desktop offers else stage.holder other := by
    simp only [Stage.holder, howed, hslots, idle]
  refine h.tell hhistory ⟨by simp, ?_⟩ (fun _ _ => rfl) hholder ?_
  · intro other types hdeed
    cases hdeed
    rw [h.agrees, Holder.offered?_eq_ite, if_neg vacant]
  · intro other hdesktop
    rw [hholder] at hdesktop
    rw [hslots]
    split at hdesktop
    case isTrue same => rw [← same, answered]
    case isFalse => exact h.settled other hdesktop

end Seen

theorem Step.seen {stage next : Stage} (step : Step stage next) (h : Seen stage) : Seen next := by
  cases step with
  | plain deed plain =>
    refine h.neutrally rfl rfl rfl fun other hother => ?_
    rw [List.mem_singleton] at hother
    subst hother
    cases other with
    | began operation =>
      simp only [Moment.isPlain, Bool.and_eq_true] at plain
      exact plain.2
    | sent message => cases plain
    | _ => rfl
  | queueFetch operation selection type fetch asks accepted idle =>
    exact h.neutrally rfl rfl rfl (by
      simp [Moment.isNeutral, Relay.taken?_of_question? asks])
  | decline operation selection type remark asks declined plain =>
    exact h.neutrally rfl rfl rfl (by
      simp [Moment.isNeutral, Relay.taken?_of_question? asks, Wire.Message.noData])
  | dropRequests | dropFetches =>
    dsimp only
    split <;> exact h.neutrally rfl rfl rfl (by
      simp [or_imp, forall_and, Moment.isNeutral, Wire.Message.noData])
  | finishFetch data fetch rest front started =>
    refine h.neutrally rfl rfl rfl fun deed hdeed => ?_
    rcases List.mem_append.mp hdeed with hnoted | hsent
    · split at hnoted
      · rw [List.mem_singleton.mp hnoted]
        rfl
      · cases hnoted
    · rw [List.mem_singleton.mp hsent]
      exact Relay.isNeutral_answer _ _ _ _
  | promise operation selection types taken idle => exact h.promised idle taken rfl rfl rfl
  | surrender selection clear idle =>
    refine h.surrendered idle idle rfl ?_
    simp only [Stage.did, Stage.become]
    split <;> rfl
  | install selection holder clear owed => exact h.installed (by rw [owed]) rfl rfl rfl
  | await atom selection named vacant idle => exact h.asked idle vacant rfl idle rfl rfl
  | countOff selection => exact h.countedOff rfl rfl rfl
  | claim selection property words notices idle current free content known plain =>
    obtain ⟨waited, answered⟩ := Slots.awaited_of_current current
    have vacant : (stage.holder selection).owner ≠ .desktop := by
      intro hdesktop
      rw [h.settled selection hdesktop] at waited
      cases waited
    have counted : Seen (stage.become (stage.relay.withSlots
        (stage.relay.slots.arrive selection).2)) := h.countedOff rfl rfl rfl
    have read : Seen ((stage.become (stage.relay.withSlots
        (stage.relay.slots.arrive selection).2)).did
        (.called (.getProperty stage.relay.window stage.relay.vocabulary.targets true)
          (some property) :: notices.map .noted)) :=
      counted.neutrally rfl rfl rfl (by simp)
    refine read.announced idle ?_ answered rfl rfl ?_
    · simpa [Stage.holder_of_idle idle, Stage.holder, Stage.did, Stage.become, idle,
        Relay.withSlots] using vacant
    · simp [Stage.did, Stage.due, Stage.become, Function.comp_def]
  | rest | skipStart | forget | read => exact h.silently rfl rfl rfl
  | turnAway | store | ask | arrive | settle | announce | chunk | report | lastChunk
  | startFetch => exact h.neutrally rfl rfl rfl (by simp [Moment.isNeutral])

namespace Course

variable {δ : Type} [Display δ]

theorem seen_after {display : δ} {course : Course δ} (hstart : start display = some course)
    {moves : List (Move δ)} (hfaultless : (course.after moves).history.faultless = true) :
    Seen ⟨(course.after moves).relay, {}, (course.after moves).history⟩ := by
  refine holds_after_of_faultless Seen (fun relay => ⟨fun selection => ?_, fun selection _ => ?_,
    fun before moment rest hsplit => ?_⟩) (fun _ _ step => step.seen) hstart hfaultless
  · cases selection <;> rfl
  · cases selection <;> rfl
  · simp at hsplit

/-- As long as no call fails, what the agent makes of the messages is what the relay has in its
slots, and no grab or release of the desktop tells it what it knew. -/
theorem view_agrees_with_slots {display : δ} {course : Course δ}
    (hstart : start display = some course) (moves : List (Move δ))
    (hfaultless : (course.after moves).history.faultless = true) :
    (∀ selection,
      ((course.after moves).relay.slots.owner selection = .desktop ↔
        ((course.after moves).history.view selection).isSome = true) ∧
      ∀ types, (course.after moves).history.view selection = some types →
        (course.after moves).relay.slots.types selection = types) ∧
    ∀ before moment rest, (course.after moves).history = before ++ moment :: rest →
      (∀ selection, moment.deed = .sent (.release selection) →
        (History.view selection before).isSome = true) ∧
      ∀ selection types, moment.deed = .sent (.grab selection types) →
        History.view selection before = none := by
  have hseen := seen_after hstart hfaultless
  refine ⟨fun selection => ?_, hseen.consistent⟩
  have hview := hseen.agrees selection
  rw [Stage.holder_of_idle rfl, Holder.offered?_eq_ite] at hview
  simp only at hview
  rw [hview]
  constructor
  · rw [Slots.owner]
    split <;> simp_all
  · intro types htypes
    split at htypes
    · exact Option.some.inj htypes
    · cases htypes

/-- An application takes the clipboard and offers text, the agent takes the clipboard and gives it
up, and another application takes it and offers a picture. -/
def changingOwners : List (Move Memory.Display) :=
  [.elapse { events := [.ownerChanged ⟨100⟩ ⟨7⟩] }, .operate .dispatch,
    .elapse {
      properties := { entries := [⟨⟨1⟩, ⟨102⟩, (Content.words [105]).toProperty Atom.atomType⟩] }
      events := [.selectionNotify ⟨0, ⟨1⟩, ⟨100⟩, ⟨102⟩, ⟨102⟩⟩] },
    .operate .dispatch, .operate (.grab .clipboard [.utf8Text]),
    .operate (.fulfil (.release .clipboard)),
    .elapse {
      properties := { entries := [⟨⟨1⟩, ⟨102⟩, (Content.words [108]).toProperty Atom.atomType⟩] }
      events := [.ownerChanged ⟨100⟩ ⟨8⟩, .selectionNotify ⟨0, ⟨1⟩, ⟨100⟩, ⟨102⟩, ⟨102⟩⟩] },
    .operate .dispatch]

theorem view_agrees_with_slots_changingOwners : ∃ course, start {} = some course ∧
    (course.after changingOwners).history.faultless = true ∧
    (course.after changingOwners).relay.slots.owner .clipboard = .desktop ∧
    (course.after changingOwners).relay.slots.types .clipboard = [.imagePng] := by
  have hstart : start ({} : Memory.Display) =
      some ((start {}).get (by decide +kernel)) := (Option.some_get _).symm
  have hfaultless : (((start ({} : Memory.Display)).get (by decide +kernel)).after
      changingOwners).history.faultless = true := by decide +kernel
  have hview := (view_agrees_with_slots hstart changingOwners hfaultless).1 .clipboard
  refine ⟨_, hstart, hfaultless, hview.1.mpr (by decide +kernel), hview.2 _ (by decide +kernel)⟩

end Course

end ClipboardRelay
