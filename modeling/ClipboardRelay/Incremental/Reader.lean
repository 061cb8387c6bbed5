import ClipboardRelay.Bytes
import ClipboardRelay.Incremental.Limit
/-!
Putting together the data that a desktop owner sends in chunks. The buffer is kept from one
transfer to the next, unless it grew too large. How much capacity it takes on when it has to grow
is a policy: the data does not depend on it.
-/

namespace ClipboardRelay.Incremental

/-- The new capacity of a buffer that has a capacity and needs a larger one. -/
abbrev GrowthPolicy := Nat → Nat → Nat

def doubling : GrowthPolicy :=
  fun capacity needed => max 8 (max (2 * capacity) needed)

structure Reader where
  data : Bytes := []
  capacity : Nat := 0
  active : Bool := false
  deriving DecidableEq, Repr

namespace Reader

def reserve (grow : GrowthPolicy) (extra : Nat) (reader : Reader) : Reader :=
  let needed := reader.data.length + extra
  if reader.capacity < needed then { reader with capacity := grow reader.capacity needed }
  else reader

/-- Starts a transfer. The owner may announce any size, so the hint is not trusted far. -/
def begin (grow : GrowthPolicy) (hint : Nat) (reader : Reader) : Reader :=
  { { reader with data := [] }.reserve grow (min hint highWaterMark) with active := true }

def push (grow : GrowthPolicy) (chunk : Bytes) (reader : Reader) : Reader :=
  let room := reader.reserve grow chunk.length
  { room with data := room.data ++ chunk }

def abort (reader : Reader) : Reader :=
  { data := []
    capacity := if reader.capacity > highWaterMark then 0 else reader.capacity
    active := false }

/-- Ends the transfer with the data. A buffer that grew too large is handed over itself, and an
empty one takes its place. Otherwise the data is copied. -/
def finish (reader : Reader) : Bytes × Reader :=
  if reader.capacity > highWaterMark then (reader.data, {})
  else (reader.data, { reader with data := [], active := false })

@[simp] theorem data_reserve (grow : GrowthPolicy) (extra : Nat) (reader : Reader) :
    (reader.reserve grow extra).data = reader.data := by
  unfold reserve
  dsimp only
  split <;> rfl

@[simp] theorem active_reserve (grow : GrowthPolicy) (extra : Nat) (reader : Reader) :
    (reader.reserve grow extra).active = reader.active := by
  unfold reserve
  dsimp only
  split <;> rfl

@[simp] theorem data_begin (grow : GrowthPolicy) (hint : Nat) (reader : Reader) :
    (reader.begin grow hint).data = [] := by
  simp [begin]

@[simp] theorem data_push (grow : GrowthPolicy) (chunk : Bytes) (reader : Reader) :
    (reader.push grow chunk).data = reader.data ++ chunk := by
  simp [push]

@[simp] theorem active_push (grow : GrowthPolicy) (chunk : Bytes) (reader : Reader) :
    (reader.push grow chunk).active = reader.active := by
  simp [push]

theorem finish_eq (reader : Reader) : reader.finish = (reader.data, reader.abort) := by
  unfold finish abort
  split <;> rfl

theorem capacity_abort_le (reader : Reader) : reader.abort.capacity ≤ highWaterMark := by
  unfold abort
  dsimp only
  split <;> omega

end Reader

end ClipboardRelay.Incremental
