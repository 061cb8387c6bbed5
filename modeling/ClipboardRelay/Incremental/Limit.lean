/-!
How much goes into one property.
-/

namespace ClipboardRelay.Incremental

/-- Above this capacity the buffer of a finished transfer is given back. -/
def highWaterMark : Nat := 512 * 1024

def maxPropertySize : Nat := 256 * 1024

def propertySizeMargin : Nat := 100

/-- How many bytes go into one property, if no request is longer than `maxRequestBytes`. -/
def propertyLimit (maxRequestBytes : Nat) : Nat :=
  min (maxRequestBytes - propertySizeMargin) maxPropertySize

end ClipboardRelay.Incremental
