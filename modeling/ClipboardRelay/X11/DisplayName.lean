/-!
The part of a display's name that chooses a screen.
-/

namespace ClipboardRelay.X11.DisplayName

/-- The number that digits write, if it is a number of 16 bits. A plus sign may stand in front. -/
def number? (digits : List Char) : Option Nat :=
  let digits := match digits with
    | '+' :: rest => rest
    | _ => digits
  if digits.isEmpty || !digits.all Char.isDigit then none
  else
    let value := digits.foldl (fun value digit => 10 * value + (digit.toNat - '0'.toNat)) 0
    if value < UInt16.size then some value else none

/-- The screen that the end of a name chooses: the first one, unless a point and a number follow. -/
def screen? (ending : String) : Option Nat :=
  match ending.toList with
  | [] => some 0
  | '.' :: digits => number? digits
  | _ => none

end ClipboardRelay.X11.DisplayName
