import ClipboardRelay.Incremental.Reader
import Mathlib.Data.List.DropRight
/-!
Reusing the buffer of the reader for one transfer after another. Main statement: however the reader
is used and however its buffer grows, it hands over what a reader does that has a new buffer for
each transfer, and it keeps little room in between.
-/

namespace ClipboardRelay.Incremental.Reader

/-- What can be done with a reader. Whenever the buffer has to grow it may do so in another way. -/
inductive Step
  | begin (grow : GrowthPolicy) (hint : Nat)
  | push (grow : GrowthPolicy) (chunk : Bytes)
  | finish
  | abort

namespace Step

def chunk? : Step → Option Bytes
  | push _ chunk => some chunk
  | begin .. | finish | abort => none

def isBegin : Step → Bool
  | begin .. => true
  | push .. | finish | abort => false

/-- The chunks that came since a transfer last began or ended. -/
def received (steps : List Step) : List Bytes :=
  (steps.rtakeWhile (·.chunk?.isSome)).filterMap chunk?

def turn? (steps : List Step) : Option Step :=
  (steps.filter (·.chunk?.isNone)).getLast?

theorem received_of_turn (steps : List Step) {step : Step} (turn : step.chunk? = none) :
    received (steps ++ [step]) = [] := by
  simp [received, turn]

theorem received_push (steps : List Step) (grow : GrowthPolicy) (chunk : Bytes) :
    received (steps ++ [push grow chunk]) = received steps ++ [chunk] := by
  simp [received, chunk?]

theorem turn?_of_turn (steps : List Step) {step : Step} (turn : step.chunk? = none) :
    turn? (steps ++ [step]) = some step := by
  simp [turn?, turn]

theorem turn?_push (steps : List Step) (grow : GrowthPolicy) (chunk : Bytes) :
    turn? (steps ++ [push grow chunk]) = turn? steps := by
  simp [turn?, chunk?]

end Step

def perform (reader : Reader) : Step → Option Bytes × Reader
  | .begin grow hint => (none, reader.begin grow hint)
  | .push grow chunk => (none, reader.push grow chunk)
  | .finish => (some reader.finish.1, reader.finish.2)
  | .abort => (none, reader.abort)

/-- The same for a reader that takes a new buffer whenever a transfer begins or ends. -/
def renew (reader : Reader) : Step → Option Bytes × Reader
  | .begin grow hint => (none, ({} : Reader).begin grow hint)
  | .push grow chunk => (none, reader.push grow chunk)
  | .finish => (some reader.data, {})
  | .abort => (none, {})

def after (reader : Reader) (steps : List Step) : Reader :=
  steps.foldl (fun reader step => (reader.perform step).2) reader

def handedOver (perform : Reader → Step → Option Bytes × Reader) (reader : Reader) :
    List Step → List Bytes
  | [] => []
  | step :: steps =>
    (perform reader step).1.toList ++ handedOver perform (perform reader step).2 steps

/-- What the reader stands for. The capacity has no part in it. -/
def content (reader : Reader) : Bytes × Bool :=
  (reader.data, reader.active)

/-- Between two transfers nothing is left of the first, except for some room. -/
structure Cleared (reader : Reader) : Prop where
  data : reader.data = []
  active : reader.active = false
  capacity : reader.capacity ≤ highWaterMark

theorem cleared_abort (reader : Reader) : reader.abort.Cleared :=
  ⟨rfl, rfl, reader.capacity_abort_le⟩

theorem content_begin (grow : GrowthPolicy) (hint : Nat) (reader : Reader) :
    (reader.begin grow hint).content = ([], true) := by
  rw [content, data_begin, begin]

theorem content_push (grow : GrowthPolicy) (chunk : Bytes) (reader : Reader) :
    (reader.push grow chunk).content = (reader.data ++ chunk, reader.active) := by
  rw [content, data_push, active_push]

/-- A kept buffer and a new one cannot be told apart by a step. -/
theorem perform_alike {reader other : Reader} (alike : reader.content = other.content)
    (step : Step) :
    (reader.perform step).1 = (other.renew step).1 ∧
      (reader.perform step).2.content = (other.renew step).2.content := by
  obtain ⟨hdata, hactive⟩ : reader.data = other.data ∧ reader.active = other.active :=
    Prod.mk.inj alike
  cases step with
  | begin grow hint => exact ⟨rfl, by rw [perform, renew, content_begin, content_begin]⟩
  | push grow chunk =>
    exact ⟨rfl, by rw [perform, renew, content_push, content_push, hdata, hactive]⟩
  | finish =>
    rw [perform, finish_eq]
    exact ⟨congrArg some hdata, rfl⟩
  | abort => exact ⟨rfl, rfl⟩

theorem handedOver_alike {reader other : Reader} (alike : reader.content = other.content)
    (steps : List Step) : handedOver perform reader steps = handedOver renew other steps := by
  induction steps generalizing reader other with
  | nil => rfl
  | cons step steps ih =>
    obtain ⟨hhanded, hleft⟩ := perform_alike alike step
    rw [handedOver, handedOver, hhanded, ih hleft]

theorem after_concat (reader : Reader) (steps : List Step) (step : Step) :
    reader.after (steps ++ [step]) = ((reader.after steps).perform step).2 := by
  rw [after, List.foldl_concat, after]

/-- The data is made of the last chunks only, and the last turn decides whether more may come. -/
theorem content_after (steps : List Step) :
    (({} : Reader).after steps).content =
      ((Step.received steps).flatten, (Step.turn? steps).any Step.isBegin) := by
  induction steps using List.reverseRecOn with
  | nil => rfl
  | append_singleton steps step ih =>
    obtain ⟨hdata, hactive⟩ := Prod.mk.inj ih
    rw [after_concat]
    cases step with
    | begin grow hint =>
      rw [Step.received_of_turn steps rfl, Step.turn?_of_turn steps rfl, perform, content_begin]
      rfl
    | push grow chunk =>
      rw [Step.received_push, Step.turn?_push, perform, content_push, hdata, hactive,
        List.flatten_concat]
    | finish =>
      rw [Step.received_of_turn steps rfl, Step.turn?_of_turn steps rfl, perform, finish_eq]
      rfl
    | abort =>
      rw [Step.received_of_turn steps rfl, Step.turn?_of_turn steps rfl]
      rfl

/-- Whatever is done with a reader, it hands over what it would if each transfer had a new buffer,
which is all the chunks since a transfer last began or ended. It is active if the last turn began a
transfer, and the end of one leaves little room allocated. -/
theorem reused_like_new (steps : List Step) :
    handedOver perform {} steps = handedOver renew {} steps ∧
      (({} : Reader).after steps).finish.1 = (Step.received steps).flatten ∧
      ((({} : Reader).after steps).active = true ↔
        ∃ turn, Step.turn? steps = some turn ∧ turn.isBegin = true) ∧
      (({} : Reader).after (steps ++ [.finish])).Cleared ∧
      (({} : Reader).after (steps ++ [.abort])).Cleared := by
  obtain ⟨hdata, hactive⟩ := Prod.mk.inj (content_after steps)
  refine ⟨handedOver_alike rfl steps, ?_, ?_, ?_, ?_⟩
  · rw [finish_eq, hdata]
  · rw [hactive, Option.any_eq_true]
  · rw [after_concat, perform, finish_eq]
    exact cleared_abort _
  · rw [after_concat]
    exact cleared_abort _

example :
    let grown := (({} : Reader).begin (fun _ _ => highWaterMark + 1) 4).push doubling [1, 2]
    grown.finish = ([1, 2], {}) ∧
      (grown.finish.2.push doubling [3]).finish = ([3], { capacity := 8 }) := by decide

end ClipboardRelay.Incremental.Reader
