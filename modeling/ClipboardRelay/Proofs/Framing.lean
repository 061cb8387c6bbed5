import ClipboardRelay.Wire.Frame
/-!
A stream of bytes as complete frames and what is left behind them. Main statement: a stream can be
cut in one way only, and decoding it in chunks gives what each of its frames says on its own,
wherever the chunks end.
-/

namespace ClipboardRelay

namespace Wire

namespace Header

theorem exists_of_length {bytes : Bytes} (h : length ≤ bytes.length) :
    ∃ header rest, bytes = encode header ++ rest := by
  have hroom : 4 * 4 ≤ bytes.length := h
  obtain ⟨list, rest, hlist, rfl⟩ := Bytes.exists_ofWords_append hroom
  match list, hlist with
  | [kind, arg1, arg2, size], _ => exact ⟨{ kind, arg1, arg2, size }, rest, rfl⟩

end Header

namespace Frame

def encode (frame : Frame) : Bytes :=
  frame.header.encode ++ frame.payload

def Sized (frame : Frame) : Prop :=
  frame.payload.length = frame.header.size.toNat

def Incomplete (bytes : Bytes) : Prop :=
  bytes.length < Header.length ∨
    ∃ header payload, bytes = Header.encode header ++ payload ∧ payload.length < header.size.toNat

theorem incomplete_nil : Incomplete [] :=
  .inl (by decide)

theorem next?_encode_append {frame : Frame} (h : frame.Sized) (rest : Bytes) :
    next? (frame.encode ++ rest) = some (frame, rest) := by
  have hholds : Bytes.holds frame.header.size.toNat (frame.payload ++ rest) = true := by
    rw [Bytes.holds_iff, List.length_append, h]
    exact Nat.le_add_right _ _
  rw [encode, List.append_assoc, next?, Header.decode_encode_append]
  simp only [List.drop_left' (Header.length_encode frame.header), hholds, if_true]
  rw [List.take_left' h, List.drop_left' h]

theorem next?_of_incomplete {bytes : Bytes} (h : Incomplete bytes) : next? bytes = none := by
  rcases h with hshort | ⟨header, payload, rfl, hshort⟩
  · cases hnext : next? bytes with
    | none => rfl
    | some taken =>
      have hlength := length_of_next? hnext
      omega
  · have hholds : Bytes.holds header.size.toNat payload = false := by
      rw [Bool.eq_false_iff, ne_eq, Bytes.holds_iff]
      omega
    rw [next?, Header.decode_encode_append]
    simp only [List.drop_left' (Header.length_encode header), hholds]
    rfl

theorem incomplete_or_exists (bytes : Bytes) :
    Incomplete bytes ∨ ∃ frame rest, bytes = encode frame ++ rest ∧ frame.Sized := by
  rcases Nat.lt_or_ge bytes.length Header.length with hshort | hlong
  · exact .inl (.inl hshort)
  obtain ⟨header, rest, rfl⟩ := Header.exists_of_length hlong
  rcases Nat.lt_or_ge rest.length header.size.toNat with hshort | hlong
  · exact .inl (.inr ⟨header, rest, rfl, hshort⟩)
  · refine .inr ⟨⟨header, rest.take header.size.toNat⟩, rest.drop header.size.toNat, ?_, ?_⟩
    · rw [encode, List.append_assoc, List.take_append_drop]
    · exact List.length_take_of_le hlong

theorem next?_eq_none_iff {bytes : Bytes} : next? bytes = none ↔ Incomplete bytes := by
  constructor
  · intro h
    rcases incomplete_or_exists bytes with hincomplete | ⟨frame, rest, rfl, hsized⟩
    · exact hincomplete
    · rw [next?_encode_append hsized] at h
      cases h
  · exact next?_of_incomplete

theorem splitAfter_of_incomplete {bytes : Bytes} (h : Incomplete bytes) (seen : List Frame) :
    splitAfter seen bytes = (seen.reverse, bytes) := by
  rw [splitAfter]
  split
  case h_1 => rfl
  case h_2 frame rest hnext =>
    rw [next?_of_incomplete h] at hnext
    cases hnext

theorem splitAfter_encode_append {frame : Frame} (h : frame.Sized) (rest : Bytes)
    (seen : List Frame) :
    splitAfter seen (frame.encode ++ rest) = splitAfter (frame :: seen) rest := by
  rw [splitAfter]
  split
  case h_1 hnext =>
    rw [next?_encode_append h] at hnext
    cases hnext
  case h_2 taken left hnext =>
    rw [next?_encode_append h] at hnext
    cases hnext
    rfl

end Frame

/-- A stream of bytes cut into complete frames and what is left behind the last one. -/
structure Cut (bytes : Bytes) (frames : List Frame) (rest : Bytes) : Prop where
  whole : bytes = frames.flatMap Frame.encode ++ rest
  sized : ∀ frame ∈ frames, frame.Sized
  incomplete : Frame.Incomplete rest

namespace Cut

variable {bytes rest : Bytes} {frames : List Frame}

theorem nil (h : Frame.Incomplete rest) : Cut rest [] rest :=
  ⟨rfl, by simp, h⟩

theorem cons {frame : Frame} (hsized : frame.Sized) (h : Cut bytes frames rest) :
    Cut (frame.encode ++ bytes) (frame :: frames) rest := by
  refine ⟨?_, List.forall_mem_cons.mpr ⟨hsized, h.sized⟩, h.incomplete⟩
  rw [List.flatMap_cons, List.append_assoc, ← h.whole]

theorem single {frame : Frame} (hsized : frame.Sized) : Cut frame.encode [frame] [] := by
  have h := cons hsized (nil Frame.incomplete_nil)
  rwa [List.append_nil] at h

theorem append {more left : Bytes} {others : List Frame} (h : Cut bytes frames rest)
    (hmore : Cut (rest ++ more) others left) : Cut (bytes ++ more) (frames ++ others) left := by
  refine ⟨?_, ?_, hmore.incomplete⟩
  · rw [h.whole, List.flatMap_append, List.append_assoc, hmore.whole, List.append_assoc]
  · intro frame hframe
    rcases List.mem_append.mp hframe with hold | hnew
    · exact h.sized frame hold
    · exact hmore.sized frame hnew

theorem exists_of_bytes (bytes : Bytes) : ∃ frames rest, Cut bytes frames rest := by
  rcases Frame.incomplete_or_exists bytes with hincomplete | ⟨frame, rest, hbytes, hsized⟩
  · exact ⟨[], bytes, nil hincomplete⟩
  · have hshorter : rest.length < bytes.length := by
      apply Frame.length_lt_of_next?
      rw [hbytes]
      exact Frame.next?_encode_append hsized rest
    obtain ⟨frames, left, hcut⟩ := exists_of_bytes rest
    rw [hbytes]
    exact ⟨frame :: frames, left, cons hsized hcut⟩
termination_by bytes.length

/-- Splitting finds the frames of a cut, whatever it has seen before. -/
theorem splitAfter_eq (h : Cut bytes frames rest) (seen : List Frame) :
    Frame.splitAfter seen bytes = (seen.reverse ++ frames, rest) := by
  induction frames generalizing bytes seen with
  | nil =>
    obtain rfl : bytes = rest := h.whole
    rw [Frame.splitAfter_of_incomplete h.incomplete, List.append_nil]
  | cons frame frames ih =>
    have hframe := h.sized frame List.mem_cons_self
    have hrest : Cut (frames.flatMap Frame.encode ++ rest) frames rest :=
      ⟨rfl, fun other hother => h.sized other (List.mem_cons_of_mem _ hother), h.incomplete⟩
    rw [h.whole, List.flatMap_cons, List.append_assoc, Frame.splitAfter_encode_append hframe,
      ih hrest, List.reverse_cons, List.append_assoc]
    rfl

theorem unique {others : List Frame} {left : Bytes} (h : Cut bytes frames rest)
    (hother : Cut bytes others left) : others = frames ∧ left = rest := by
  have hsame := (hother.splitAfter_eq []).symm.trans (h.splitAfter_eq [])
  simpa using hsame

theorem decodeStream_eq (h : Cut bytes frames rest) :
    decodeStream bytes = (frames.map Frame.request, rest) := by
  rw [decodeStream, Frame.split, h.splitAfter_eq]
  rfl

end Cut

/-- What chunks say, one after the other, is what the frames say into which all of them together
are cut. -/
theorem exists_cut_decodeChunks {buffer : Bytes} (h : Frame.Incomplete buffer)
    (chunks : List Bytes) :
    ∃ frames rest, Cut (buffer ++ chunks.flatten) frames rest ∧
      (decodeChunks buffer chunks).flatMap (·.1) = frames.map Frame.request ∧
      ((decodeChunks buffer chunks).map (·.2)).getLastD buffer = rest := by
  induction chunks generalizing buffer with
  | nil =>
    refine ⟨[], buffer, ?_, rfl, rfl⟩
    rw [List.flatten_nil, List.append_nil]
    exact .nil h
  | cons chunk chunks ih =>
    obtain ⟨frames, rest, hchunk⟩ := Cut.exists_of_bytes (buffer ++ chunk)
    obtain ⟨others, left, hmore, hresults, hleft⟩ := ih hchunk.incomplete
    refine ⟨frames ++ others, left, ?_, ?_, ?_⟩
    · rw [List.flatten_cons, ← List.append_assoc]
      exact hchunk.append hmore
    · rw [decodeChunks, hchunk.decodeStream_eq, List.flatMap_cons, hresults, List.map_append]
    · rw [decodeChunks, hchunk.decodeStream_eq, List.map_cons, List.getLastD_cons]
      exact hleft

/-- A stream is cut into frames in one way. However it comes in chunks, what it says and what is
left of it are the same as in one piece: each frame says what it says on its own, and only bytes
that end before their frame does are left. -/
theorem decodeChunks_eq_frames (chunks : List Bytes) :
    ∃ frames rest, Cut chunks.flatten frames rest ∧
      (∀ others left, Cut chunks.flatten others left → others = frames ∧ left = rest) ∧
      decodeStream chunks.flatten = (frames.map Frame.request, rest) ∧
      (decodeChunks [] chunks).flatMap (·.1) = frames.map Frame.request ∧
      ((decodeChunks [] chunks).map (·.2)).getLastD [] = rest ∧
      (∀ frame ∈ frames, decodeStream frame.encode = ([frame.request], []) ∧
        ∀ behind, Frame.next? (frame.encode ++ behind) = some (frame, behind)) ∧
      ∀ buffer, Frame.next? buffer = none ↔ Frame.Incomplete buffer := by
  obtain ⟨frames, rest, hcut, hresults, hleft⟩ :=
    exists_cut_decodeChunks Frame.incomplete_nil chunks
  rw [List.nil_append] at hcut
  refine ⟨frames, rest, hcut, fun others left hother => hcut.unique hother, hcut.decodeStream_eq,
    hresults, hleft, fun frame hframe => ?_, fun buffer => Frame.next?_eq_none_iff⟩
  have hsized := hcut.sized frame hframe
  exact ⟨(Cut.single hsized).decodeStream_eq, Frame.next?_encode_append hsized⟩

end Wire

end ClipboardRelay
