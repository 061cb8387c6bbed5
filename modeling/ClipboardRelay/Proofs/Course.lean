import ClipboardRelay.Proofs.History
import ClipboardRelay.Relay.Opening
/-!
The runs of a relay. A run is a list of moves: operations, each of which may end with a fault, and
what the agent and the display do in between. The display may have become any other when the next
operation begins. Main statement: the messages of the history are those that the agent took out of
the outbox and those that are still in it.
-/

namespace ClipboardRelay

inductive Move (δ : Type) where
  | operate (operation : Operation)
  | collect
  /-- Time goes by: events arrive at the display, and other clients use it. -/
  | elapse (display : δ)

structure Course (δ : Type) where
  session : Session δ
  collected : List Wire.Message := []
  history : History

namespace Course

variable {δ : Type}

def relay (course : Course δ) : Relay :=
  course.session.relay

variable [Display δ]

def start (display : δ) : Option (Course δ) :=
  match Relay.prepare.run display, Session.opening display with
  | (.ok relay, after), .opened session =>
    some { session, history := Relay.begin.history (Session.prepared relay after) }
  | _, _ => none

def move (course : Course δ) : Move δ → Course δ
  | .operate operation =>
    { course with
      session := (operation.action.run course.session).2
      history := course.history ++
        ⟨course.relay, .began operation⟩ :: operation.action.history course.session }
  | .collect =>
    { course with
      session := course.session.takeMessages.2
      collected := course.collected ++ course.session.takeMessages.1 }
  | .elapse display => { course with session := { course.session with display } }

def after (course : Course δ) (moves : List (Move δ)) : Course δ :=
  moves.foldl move course

theorem after_append (course : Course δ) (first second : List (Move δ)) :
    course.after (first ++ second) = (course.after first).after second :=
  List.foldl_append

theorem after_induction (holds : Course δ → Prop)
    (hmove : ∀ course next, holds course → holds (course.move next)) {course : Course δ}
    (h : holds course) (moves : List (Move δ)) : holds (course.after moves) := by
  induction moves generalizing course with
  | nil => exact h
  | cons next moves ih => exact ih (hmove course next h)

theorem history_prefix_after (course : Course δ) (moves : List (Move δ)) :
    course.history <+: (course.after moves).history := by
  refine after_induction (fun later => course.history <+: later.history) ?_ List.prefix_rfl moves
  intro later next h
  cases next with
  | operate operation => exact h.trans (List.prefix_append _ _)
  | collect => exact h
  | elapse display => exact h

theorem faultless_of_after {course : Course δ} {moves : List (Move δ)}
    (h : (course.after moves).history.faultless = true) : course.history.faultless = true := by
  obtain ⟨added, hadded⟩ := course.history_prefix_after moves
  rw [← hadded, History.faultless_append, Bool.and_eq_true] at h
  exact h.1

theorem exists_of_start {display : δ} {course : Course δ} (h : start display = some course) :
    ∃ relay after, Relay.prepare.run display = (.ok relay, after) ∧
      course.session = (Relay.begin.run (Session.prepared relay after)).2 ∧
      course.collected = [] ∧
      course.history = Relay.begin.history (Session.prepared relay after) := by
  simp only [start, Session.opening] at h
  rcases hprepare : Relay.prepare.run display with ⟨fault | relay, after⟩
  · simp [hprepare] at h
  · rcases hbegin : Relay.begin.run (Session.prepared relay after) with ⟨fault | _, session⟩
    · simp [hprepare, hbegin] at h
    · simp only [hprepare, hbegin, Option.some.injEq] at h
      subst h
      exact ⟨relay, after, rfl, by rw [hbegin], rfl, rfl⟩

theorem messages_after {display : δ} {course : Course δ} (hstart : start display = some course)
    (moves : List (Move δ)) :
    (course.after moves).history.messages =
      (course.after moves).collected ++ (course.after moves).session.outbox := by
  refine after_induction (fun course =>
    course.history.messages = course.collected ++ course.session.outbox) ?_ ?_ moves
  · intro course next h
    cases next with
    | operate operation =>
      have hrun := operation.action.outbox_run course.session
      simp only [move, hrun, History.messages_append, h, List.append_assoc]
      rfl
    | collect => simpa [move, Session.takeMessages] using h
    | elapse display => exact h
  · obtain ⟨relay, after, -, hsession, hcollected, hhistory⟩ := exists_of_start hstart
    rw [hsession, hcollected, hhistory, Action.outbox_run]
    rfl

end Course

namespace Relay

variable {δ : Type}

def fresh (relay : Relay) : Relay :=
  { window := relay.window
    vocabulary := relay.vocabulary
    registry := relay.registry
    propertyLimit := relay.propertyLimit
    size := relay.size }

theorem eq_fresh_of_prepare [Display δ] {relay : Relay} {display after : δ}
    (h : prepare.run display = (.ok relay, after)) : relay = relay.fresh := by
  unfold prepare at h
  obtain ⟨vocabulary, _, -, h⟩ := Exchange.exists_of_run_bind h
  obtain ⟨registry, _, -, h⟩ := Exchange.exists_of_run_bind h
  obtain ⟨_, _, -, h⟩ := Exchange.exists_of_run_bind h
  obtain ⟨size, _, -, h⟩ := Exchange.exists_of_run_bind h
  obtain ⟨_, _, -, h⟩ := Exchange.exists_of_run_bind h
  cases h
  rfl

end Relay

end ClipboardRelay
