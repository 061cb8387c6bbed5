import ClipboardRelay.Display.Property
/-!
The properties of all windows, in the order of the windows and the atoms that name them.
-/

namespace ClipboardRelay.Memory

structure StoredProperty where
  window : Window
  name : Atom
  property : Property
  deriving Repr

namespace StoredProperty

def isAt (stored : StoredProperty) (window : Window) (name : Atom) : Bool :=
  stored.window = window && stored.name = name

def precedes (stored : StoredProperty) (window : Window) (name : Atom) : Bool :=
  stored.window.number < window.number ||
    (stored.window = window && stored.name.number < name.number)

end StoredProperty

structure PropertyStore where
  entries : List StoredProperty := []
  deriving Repr

namespace PropertyStore

def get? (store : PropertyStore) (window : Window) (name : Atom) : Option Property :=
  (store.entries.find? (·.isAt window name)).map (·.property)

def erase (store : PropertyStore) (window : Window) (name : Atom) : PropertyStore :=
  { entries := store.entries.filter fun stored => !stored.isAt window name }

def insert (store : PropertyStore) (window : Window) (name : Atom) (property : Property) :
    PropertyStore :=
  let others := (store.erase window name).entries
  { entries := (others.takeWhile (·.precedes window name)) ++
      { window, name, property } :: others.dropWhile (·.precedes window name) }

@[simp] theorem get?_erase (store : PropertyStore) (window : Window) (name : Atom) :
    (store.erase window name).get? window name = none := by
  simp only [get?, erase, Option.map_eq_none_iff, List.find?_eq_none, List.mem_filter,
    Bool.not_eq_true', and_imp, Bool.not_eq_true]
  intro stored _ h
  exact h

@[simp] theorem get?_insert (store : PropertyStore) (window : Window) (name : Atom)
    (property : Property) :
    (store.insert window name property).get? window name = some property := by
  have hothers : ∀ stored ∈ (store.erase window name).entries,
      stored.isAt window name = false := by
    intro stored h
    simpa using (List.mem_filter.mp h).2
  have hbefore : ((store.erase window name).entries.takeWhile
      (·.precedes window name)).find? (·.isAt window name) = none := by
    simp only [List.find?_eq_none, Bool.not_eq_true]
    intro stored h
    exact hothers stored (List.takeWhile_sublist _ |>.subset h)
  simp only [get?, insert, List.find?_append, hbefore]
  simp [StoredProperty.isAt]

theorem get?_erase_of_ne (store : PropertyStore) {window other : Window} {name key : Atom}
    (h : other ≠ window ∨ key ≠ name) :
    (store.erase window name).get? other key = store.get? other key := by
  simp only [get?, erase, List.find?_filter]
  congr 2
  funext stored
  cases hat : stored.isAt other key with
  | false => simp
  | true =>
    simp only [StoredProperty.isAt, Bool.and_eq_true, decide_eq_true_eq] at hat
    rcases h with h | h <;> simp [StoredProperty.isAt, hat, h]

theorem get?_insert_of_ne (store : PropertyStore) {window other : Window} {name key : Atom}
    (property : Property) (h : other ≠ window ∨ key ≠ name) :
    (store.insert window name property).get? other key = store.get? other key := by
  have hnew : StoredProperty.isAt { window, name, property } other key = false := by
    rcases h with h | h <;> simp [StoredProperty.isAt, Ne.symm h]
  rw [← get?_erase_of_ne store h]
  simp only [get?, insert, List.find?_append, List.find?_cons, hnew]
  rw [← List.find?_append, List.takeWhile_append_dropWhile]

theorem get?_erase_eq_ite (store : PropertyStore) (window other : Window) (name key : Atom) :
    (store.erase window name).get? other key =
      if other = window ∧ key = name then none else store.get? other key := by
  split
  case isTrue same => rw [same.1, same.2, get?_erase]
  case isFalse apart => exact get?_erase_of_ne store (Decidable.not_and_iff_not_or_not.mp apart)

theorem get?_insert_eq_ite (store : PropertyStore) (window other : Window) (name key : Atom)
    (property : Property) : (store.insert window name property).get? other key =
      if other = window ∧ key = name then some property else store.get? other key := by
  split
  case isTrue same => rw [same.1, same.2, get?_insert]
  case isFalse apart =>
    exact get?_insert_of_ne store property (Decidable.not_and_iff_not_or_not.mp apart)

end PropertyStore

end ClipboardRelay.Memory
