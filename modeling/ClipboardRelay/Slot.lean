import ClipboardRelay.ContentType
import ClipboardRelay.Selection
import ClipboardRelay.Display.Resource
/-!
Who holds each selection and what the holder offers. Changing one selection leaves the others as
they are.
-/

namespace ClipboardRelay

inductive Owner where
  | nobody
  | desktop
  | agent
  deriving DecidableEq, Repr

def Owner.name : Owner → String
  | .nobody => "none"
  | .desktop => "desktop"
  | .agent => "agent"

structure Offer where
  type : ContentType
  target : Atom
  deriving DecidableEq, Repr

/-- The holder of a selection with all that it offers. The agent names kinds of content only: the
relay advertises every target of theirs. -/
inductive Holder where
  | nobody
  | desktop (offers : List Offer)
  | agent (types : List ContentType)
  deriving DecidableEq, Repr

namespace Holder

def owner : Holder → Owner
  | nobody => .nobody
  | desktop _ => .desktop
  | agent _ => .agent

def types : Holder → List ContentType
  | nobody => []
  | desktop offers => offers.map (·.type)
  | agent types => types

def targetFor? (holder : Holder) (type : ContentType) : Option Atom :=
  match holder with
  | desktop offers => (offers.find? fun offer => offer.type = type).map (·.target)
  | nobody | agent _ => none

theorem targetFor?_eq_none {holder : Holder} (h : holder.owner ≠ .desktop) (type : ContentType) :
    holder.targetFor? type = none := by
  cases holder with
  | nobody | agent types => rfl
  | desktop offers => exact absurd rfl h

end Holder

/-- One selection: its holder, and how many owners were asked for their targets and did not answer
yet. The count is meant to fit into 32 bits: nothing is claimed of a run in which as many as
`2 ^ 32` answers are still to come. -/
structure Slot where
  holder : Holder := .nobody
  awaited : Nat := 0
  deriving DecidableEq, Repr

inductive Arrival where
  | unexpected
  /-- A later owner was asked too, so this list is out of date. -/
  | stale
  | current
  deriving DecidableEq, Repr

namespace Slot

def arrive (slot : Slot) : Arrival × Slot :=
  match slot.awaited with
  | 0 => (.unexpected, slot)
  | 1 => (.current, { slot with awaited := 0 })
  | more + 2 => (.stale, { slot with awaited := more + 1 })

end Slot

structure Slots where
  clipboard : Slot := {}
  primary : Slot := {}
  secondary : Slot := {}
  deriving DecidableEq, Repr

namespace Slots

def get (slots : Slots) : Selection → Slot
  | .clipboard => slots.clipboard
  | .primary => slots.primary
  | .secondary => slots.secondary

def set (slots : Slots) (selection : Selection) (slot : Slot) : Slots :=
  match selection with
  | .clipboard => { slots with clipboard := slot }
  | .primary => { slots with primary := slot }
  | .secondary => { slots with secondary := slot }

@[simp] theorem get_set_self (slots : Slots) (selection : Selection) (slot : Slot) :
    (slots.set selection slot).get selection = slot := by
  cases selection <;> rfl

theorem get_set_of_ne (slots : Slots) {selection other : Selection} (slot : Slot)
    (h : other ≠ selection) : (slots.set selection slot).get other = slots.get other := by
  cases selection <;> cases other <;> first | rfl | exact absurd rfl h

def holder (slots : Slots) (selection : Selection) : Holder :=
  (slots.get selection).holder

def owner (slots : Slots) (selection : Selection) : Owner :=
  (slots.holder selection).owner

def types (slots : Slots) (selection : Selection) : List ContentType :=
  (slots.holder selection).types

def setHolder (slots : Slots) (selection : Selection) (holder : Holder) : Slots :=
  slots.set selection { slots.get selection with holder }

@[simp] theorem holder_setHolder_self (slots : Slots) (selection : Selection) (holder : Holder) :
    (slots.setHolder selection holder).holder selection = holder := by
  simp [Slots.holder, setHolder]

theorem holder_setHolder (slots : Slots) (selection other : Selection) (holder : Holder) :
    (slots.setHolder selection holder).holder other =
      if selection = other then holder else slots.holder other := by
  split
  case isTrue h => rw [← h, holder_setHolder_self]
  case isFalse h => simp only [Slots.holder, setHolder, get_set_of_ne slots _ (Ne.symm h)]

theorem awaited_setHolder (slots : Slots) (selection other : Selection) (holder : Holder) :
    ((slots.setHolder selection holder).get other).awaited = (slots.get other).awaited := by
  by_cases h : other = selection
  · rw [h, setHolder, get_set_self]
  · rw [setHolder, get_set_of_ne slots _ h]

def await (slots : Slots) (selection : Selection) : Slots :=
  let slot := slots.get selection
  slots.set selection { slot with awaited := slot.awaited + 1 }

def arrive (slots : Slots) (selection : Selection) : Arrival × Slots :=
  let (arrival, slot) := (slots.get selection).arrive
  (arrival, slots.set selection slot)

theorem holder_await (slots : Slots) (selection other : Selection) :
    (slots.await selection).holder other = slots.holder other := by
  by_cases h : other = selection
  · rw [h, Slots.holder, await, get_set_self, Slots.holder]
  · rw [Slots.holder, await, get_set_of_ne slots _ h, Slots.holder]

@[simp] theorem awaited_await_self (slots : Slots) (selection : Selection) :
    ((slots.await selection).get selection).awaited = (slots.get selection).awaited + 1 := by
  rw [await, get_set_self]

theorem awaited_await_of_ne (slots : Slots) {selection other : Selection} (h : other ≠ selection) :
    ((slots.await selection).get other).awaited = (slots.get other).awaited := by
  rw [await, get_set_of_ne slots _ h]

@[simp] theorem holder_arrive (slots : Slots) (selection other : Selection) :
    (slots.arrive selection).2.holder other = slots.holder other := by
  have hslot (slot : Slot) : slot.arrive.2.holder = slot.holder := by
    unfold Slot.arrive
    split <;> rfl
  by_cases h : other = selection
  · subst h
    simp [arrive, Slots.holder, hslot]
  · simp [arrive, Slots.holder, get_set_of_ne _ _ h]

theorem awaited_arrive_le (slots : Slots) (selection other : Selection) :
    ((slots.arrive selection).2.get other).awaited ≤ (slots.get other).awaited := by
  have hslot (slot : Slot) : slot.arrive.2.awaited ≤ slot.awaited := by
    unfold Slot.arrive
    split <;> simp_all
  by_cases h : other = selection
  · subst h
    simp only [arrive, get_set_self]
    exact hslot _
  · simp only [arrive, get_set_of_ne _ _ h, Nat.le_refl]

@[simp] theorem awaited_arrive_self (slots : Slots) (selection : Selection) :
    ((slots.arrive selection).2.get selection).awaited = (slots.get selection).awaited - 1 := by
  simp only [arrive, get_set_self, Slot.arrive]
  split <;> simp_all

theorem awaited_arrive_of_ne (slots : Slots) {selection other : Selection}
    (h : other ≠ selection) :
    ((slots.arrive selection).2.get other).awaited = (slots.get other).awaited := by
  rw [arrive, get_set_of_ne slots _ h]

theorem awaited_of_current {slots : Slots} {selection : Selection}
    (h : (slots.arrive selection).1 = .current) :
    (slots.get selection).awaited = 1 ∧ ((slots.arrive selection).2.get selection).awaited = 0 := by
  simp only [arrive, get_set_self] at h ⊢
  unfold Slot.arrive at h ⊢
  split at h <;> simp_all

def awaiting (slots : Slots) : Bool :=
  Selection.all.any fun selection => (slots.get selection).awaited > 0

end Slots

end ClipboardRelay
