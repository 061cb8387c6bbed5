import ClipboardRelay.Bytes
/-!
Reading text that may not be UTF-8. Each longest beginning of a character that goes no further
becomes one replacement character, and so does each byte that begins none.
-/

namespace ClipboardRelay.Text

def replacement : Char := '\uFFFD'

structure ByteRange where
  low : UInt8
  high : UInt8

def ByteRange.contains (range : ByteRange) (byte : UInt8) : Bool :=
  range.low ≤ byte && byte ≤ range.high

def tail : ByteRange := ⟨0x80, 0xBF⟩

/-- The bits of a character in its first byte, and the ranges of the bytes that follow it. Some
second bytes are left out: they would encode a character in more bytes than it needs, a surrogate,
or something beyond the last character. -/
def begins? (first : UInt8) : Option (Nat × List ByteRange) :=
  if first ≤ 0x7F then some (first.toNat, [])
  else if 0xC2 ≤ first && first ≤ 0xDF then some (first.toNat - 0xC0, [tail])
  else if first = 0xE0 then some (0, [⟨0xA0, 0xBF⟩, tail])
  else if first = 0xED then some (0x0D, [⟨0x80, 0x9F⟩, tail])
  else if 0xE1 ≤ first && first ≤ 0xEF then some (first.toNat - 0xE0, [tail, tail])
  else if first = 0xF0 then some (0, [⟨0x90, 0xBF⟩, tail, tail])
  else if 0xF1 ≤ first && first ≤ 0xF3 then some (first.toNat - 0xF0, [tail, tail, tail])
  else if first = 0xF4 then some (4, [⟨0x80, 0x8F⟩, tail, tail])
  else none

def follow (bits : Nat) : List ByteRange → Bytes → Char × Bytes
  | [], rest => (Char.ofNat bits, rest)
  | range :: ranges, byte :: rest =>
    if range.contains byte then follow (64 * bits + (byte.toNat - 0x80)) ranges rest
    else (replacement, byte :: rest)
  | _ :: _, [] => (replacement, [])

theorem length_follow_le (bits : Nat) (ranges : List ByteRange) (bytes : Bytes) :
    (follow bits ranges bytes).2.length ≤ bytes.length := by
  induction ranges generalizing bits bytes with
  | nil => exact Nat.le_refl _
  | cons range ranges ih =>
    cases bytes with
    | nil => exact Nat.le_refl _
    | cons byte rest =>
      unfold follow
      split
      · exact Nat.le_succ_of_le (ih _ rest)
      · exact Nat.le_refl _

def decodeChars : Bytes → List Char
  | [] => []
  | first :: rest =>
    match begins? first with
    | none => replacement :: decodeChars rest
    | some (bits, ranges) =>
      have := length_follow_le bits ranges rest
      (follow bits ranges rest).1 :: decodeChars (follow bits ranges rest).2
termination_by bytes => bytes.length

def decodeLossy (bytes : Bytes) : String :=
  String.ofList (decodeChars bytes)

end ClipboardRelay.Text
