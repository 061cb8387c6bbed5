import ClipboardRelay.Bytes
import ClipboardRelay.Display.Resource
/-!
Handing data to a desktop application in chunks. Each time the application deletes the property it
asks for the next chunk. An empty chunk ends the transfer.
-/

namespace ClipboardRelay.Incremental

structure Writer where
  data : Bytes
  position : Nat := 0
  requestor : Window
  property : Atom
  target : Atom
  deriving DecidableEq, Repr

namespace Writer

def concerns (writer : Writer) (window : Window) (property : Atom) : Bool :=
  writer.requestor = window && writer.property = property

def chunk (writer : Writer) (limit : Nat) : Bytes :=
  (writer.data.drop writer.position).take limit

def advance (writer : Writer) (limit : Nat) : Writer :=
  { writer with position := writer.position + (writer.chunk limit).length }

@[simp] theorem chunk_append_drop_advance (writer : Writer) (limit : Nat) :
    writer.chunk limit ++ writer.data.drop (writer.advance limit).position =
      writer.data.drop writer.position := by
  simp only [chunk, advance, List.length_take, List.length_drop]
  rcases Nat.le_total limit (writer.data.length - writer.position) with h | h
  · rw [Nat.min_eq_left h, ← List.drop_drop, List.take_append_drop]
  · have hend : writer.data.length ≤
        writer.position + (writer.data.length - writer.position) := by omega
    rw [Nat.min_eq_right h, List.take_of_length_le (by simpa using h),
      List.drop_of_length_le hend, List.append_nil]

end Writer

end ClipboardRelay.Incremental
