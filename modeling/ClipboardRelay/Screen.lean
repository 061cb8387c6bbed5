/-!
Screen sizes, the monitors of a remote client, and the choice of the size that suits a monitor
best.
-/

namespace ClipboardRelay

structure ScreenSize where
  width : UInt16
  height : UInt16
  deriving DecidableEq, Repr

structure Monitor where
  height : UInt32
  width : UInt32
  depth : UInt32
  x : Int32
  y : Int32
  deriving DecidableEq, Repr

/-- The monitors of the remote client, the leading one first. -/
structure MonitorLayout where
  flags : UInt32
  monitors : List Monitor
  deriving DecidableEq, Repr

namespace ScreenSize

def fits (size : ScreenSize) (width height : UInt32) : Bool :=
  size.width.toNat ≤ width.toNat && size.height.toNat ≤ height.toNat

/-- The squared distance between the corner of the size and the corner `width` by `height`.
It measures how much room a size that fits leaves unused. -/
def gap (size : ScreenSize) (width height : UInt32) : Nat :=
  let across := width.toNat - size.width.toNat
  let down := height.toNat - size.height.toNat
  across * across + down * down

theorem gap_le (size : ScreenSize) (width height : UInt32) :
    size.gap width height ≤ 2 * UInt64.size := by
  have square_le (side : UInt32) (taken : Nat) :
      (side.toNat - taken) * (side.toNat - taken) ≤ UInt32.size * UInt32.size :=
    Nat.mul_le_mul (by have := side.toNat_lt; simp only [UInt32.size]; omega)
      (by have := side.toNat_lt; simp only [UInt32.size]; omega)
  have hacross := square_le width size.width.toNat
  have hdown := square_le height size.height.toNat
  simp only [UInt32.size, UInt64.size, gap] at *
  omega

/-- The candidate with the smaller gap. Of two equal ones the earlier stays. -/
def closer (width height : UInt32) (best : Option (ScreenSize × Nat))
    (candidate : ScreenSize × Nat) : Option (ScreenSize × Nat) :=
  match best with
  | none => some candidate
  | some found =>
    if candidate.1.gap width height < found.1.gap width height then some candidate else best

def bestFit (sizes : List ScreenSize) (width height : UInt32) : Option Nat :=
  ((sizes.zipIdx.filter fun candidate => candidate.1.fits width height).foldl
    (closer width height) none).map (·.2)

end ScreenSize

end ClipboardRelay
