import ClipboardRelay.Wire.Request
/-!
A stream of bytes from the agent, cut into frames. Main statement: a frame that is cut off leaves
fewer bytes behind, so a stream has finitely many.
-/

namespace ClipboardRelay.Wire

structure Frame where
  header : Header
  payload : Bytes
  deriving DecidableEq, Repr

namespace Frame

/-- The most room that is made ahead for a frame that is still incomplete. The announced size
comes from outside and may be far too large. -/
def maxReserve : Nat := 64 * 1024

def next? (buffer : Bytes) : Option (Frame × Bytes) :=
  match Header.decode buffer with
  | .error _ => none
  | .ok header =>
    let rest := buffer.drop Header.length
    let size := header.size.toNat
    if Bytes.holds size rest then some (⟨header, rest.take size⟩, rest.drop size) else none

def missing (buffer : Bytes) : Nat :=
  match Header.decode buffer with
  | .error _ => Header.length - buffer.length
  | .ok header => min (Header.length + header.size.toNat - buffer.length) maxReserve

def request (frame : Frame) : Except DecodeError Request :=
  Request.decode frame.header frame.payload

/-- The selection and the unknown kinds of content in a grab that can be read. They are not part
of the request. -/
def unknownTypes (frame : Frame) : List (Selection × UInt32) :=
  match frame.request with
  | .ok (.grab selection _) =>
    (frame.payload.words.filter fun value => (ContentType.ofWire? value).isNone).map
      fun value => (selection, value)
  | _ => []

theorem length_of_decode {buffer : Bytes} {header : Header}
    (h : Header.decode buffer = .ok header) : Header.length ≤ buffer.length := by
  rcases Nat.lt_or_ge buffer.length Header.length with hlt | hge
  · exfalso
    unfold Header.decode at h
    rw [List.take_of_length_le (Nat.le_of_lt hlt)] at h
    split at h
    · rename_i kind arg1 arg2 size hwords
      have hfour : 4 * buffer.words.length ≤ buffer.length := Bytes.length_words_le buffer
      rw [hwords] at hfour
      simp only [List.length_cons, List.length_nil, Header.length] at hfour hlt
      omega
    · exact absurd h (by simp)
  · exact hge

theorem length_of_next? {buffer rest : Bytes} {frame : Frame}
    (h : next? buffer = some (frame, rest)) :
    Header.length + frame.payload.length + rest.length = buffer.length := by
  unfold next? at h
  split at h
  · exact absurd h (by simp)
  · rename_i header hheader
    have hlength := length_of_decode hheader
    simp only at h
    split at h
    · rename_i hholds
      simp only [Bytes.holds_iff, List.length_drop] at hholds
      simp only [Option.some.injEq, Prod.mk.injEq] at h
      obtain ⟨rfl, rfl⟩ := h
      simp only [List.length_take, List.length_drop]
      omega
    · exact absurd h (by simp)

theorem length_lt_of_next? {buffer rest : Bytes} {frame : Frame}
    (h : next? buffer = some (frame, rest)) : rest.length < buffer.length := by
  have := length_of_next? h
  simp only [Header.length] at this
  omega

def splitAfter (seen : List Frame) (buffer : Bytes) : List Frame × Bytes :=
  match h : next? buffer with
  | none => (seen.reverse, buffer)
  | some (frame, rest) =>
    have := length_lt_of_next? h
    splitAfter (frame :: seen) rest
termination_by buffer.length

def split (buffer : Bytes) : List Frame × Bytes :=
  splitAfter [] buffer

end Frame

def decodeStream (buffer : Bytes) : List (Except DecodeError Request) × Bytes :=
  let (frames, rest) := Frame.split buffer
  (frames.map Frame.request, rest)

def decodeChunks (buffer : Bytes) :
    List Bytes → List (List (Except DecodeError Request) × Bytes)
  | [] => []
  | chunk :: chunks =>
    let (results, rest) := decodeStream (buffer ++ chunk)
    (results, rest) :: decodeChunks rest chunks

end ClipboardRelay.Wire
