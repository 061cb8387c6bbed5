import ClipboardRelay.Display.Resource
/-!
The names that a display has numbers for. Main statement: a name keeps the number it was given.
-/

namespace ClipboardRelay.Memory

structure AtomTable where
  /-- Names with their atoms. Of two names with the same atom the earlier gives it its name. -/
  entries : List (String × Atom) := []
  next : UInt32 := 100
  deriving Repr

namespace AtomTable

def find? (table : AtomTable) (name : String) : Option Atom :=
  table.entries.lookup name

def intern (table : AtomTable) (name : String) : Atom × AtomTable :=
  match table.find? name with
  | some atom => (atom, table)
  | none =>
    let atom : Atom := ⟨table.next⟩
    (atom, { entries := table.entries ++ [(name, atom)], next := table.next + 1 })

def name? (table : AtomTable) (atom : Atom) : Option String :=
  if atom = Atom.null then none
  else (table.entries.find? fun entry => entry.2 = atom).map (·.1)

def renumber (table : AtomTable) (name : String) (atom : Atom) : AtomTable :=
  { table with
    entries := table.entries.map fun entry => if entry.1 = name then (name, atom) else entry }

def label (table : AtomTable) (atom : Atom) : String :=
  if atom = Atom.null then "None"
  else (table.name? atom).getD s!"<atom {atom.number}>"

def ofNames (names : List String) : AtomTable :=
  names.foldl (fun table name => (table.intern name).2) { entries := [("ATOM", Atom.atomType)] }

theorem find?_intern (table : AtomTable) (name : String) :
    (table.intern name).2.find? name = some (table.intern name).1 := by
  unfold intern
  split
  · assumption
  · rename_i hnone
    simp only [find?] at hnone
    simp [find?, List.lookup_append, hnone]

theorem intern_intern (table : AtomTable) (name : String) :
    (table.intern name).2.intern name = table.intern name := by
  have hfound := find?_intern table name
  rw [intern, hfound]

end AtomTable

end ClipboardRelay.Memory
