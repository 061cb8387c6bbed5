import ClipboardRelay.Proofs.Framing
import ClipboardRelay.Wire.Message
/-!
What is written on the wire is read back. Main statements: the requests in a stream are those that
were encoded, as long as the size of each payload fits into a word, and a message is encoded like
the request with the same fields, unless it is of the one kind that has no request.
-/

namespace ClipboardRelay

namespace Wire

theorem requireLength_of_le {expected : Nat} {bytes : Bytes} (h : expected ≤ bytes.length) :
    requireLength expected bytes = .ok () := by
  rw [requireLength, if_pos ((Bytes.holds_iff expected bytes).mpr h)]

@[simp] theorem decodeSelection_toWire (selection : Selection) :
    decodeSelection selection.toWire = .ok selection := by
  rw [decodeSelection, Selection.ofWire?_toWire]

@[simp] theorem decodeContentType_toWire (type : ContentType) :
    decodeContentType type.toWire = .ok type := by
  rw [decodeContentType, ContentType.ofWire?_toWire]

theorem length_monitorWords (monitors : List Monitor) :
    (monitors.flatMap monitorWords).length = 5 * monitors.length := by
  induction monitors with
  | nil => rfl
  | cons monitor monitors ih =>
    rw [List.flatMap_cons, List.length_append, ih, List.length_cons]
    simp only [monitorWords, List.length_cons, List.length_nil]
    omega

theorem length_encodeLayout (layout : MonitorLayout) :
    (encodeLayout layout).length = 8 + layout.monitors.length * monitorLength := by
  rw [encodeLayout, Bytes.length_ofWords, List.length_cons, List.length_cons, length_monitorWords,
    monitorLength]
  omega

theorem decodeLayout_encodeLayout_append {layout : MonitorLayout}
    (h : layout.monitors.length < UInt32.size) (rest : Bytes) :
    decodeLayout (encodeLayout layout ++ rest) = .ok layout := by
  have hcount : (UInt32.ofNat layout.monitors.length).toNat = layout.monitors.length :=
    UInt32.toNat_ofNat_of_lt' h
  have hlength := length_encodeLayout layout
  have hhead : requireLength 8 (encodeLayout layout ++ rest) = .ok () :=
    requireLength_of_le (by rw [List.length_append]; omega)
  have hmonitors : requireLength (layout.monitors.length * monitorLength)
      ((encodeLayout layout ++ rest).drop 8) = .ok () :=
    requireLength_of_le (by rw [List.length_drop, List.length_append]; omega)
  have hwords : (encodeLayout layout ++ rest).words = UInt32.ofNat layout.monitors.length ::
      layout.flags :: (layout.monitors.flatMap monitorWords ++ rest.words) :=
    Bytes.words_ofWords_append _ rest
  have htake : (layout.monitors.flatMap monitorWords ++ rest.words).take
      (5 * layout.monitors.length) = layout.monitors.flatMap monitorWords :=
    List.take_left' (length_monitorWords layout.monitors)
  simp only [decodeLayout, hhead, hwords, hcount, hmonitors, htake, monitorsOfWords_flatMap]
  rfl

theorem decodeLayout_encodeLayout {layout : MonitorLayout}
    (h : layout.monitors.length < UInt32.size) :
    decodeLayout (encodeLayout layout) = .ok layout := by
  simpa using decodeLayout_encodeLayout_append h []

theorem decodeTypes_ofWords (values : List UInt32) :
    decodeTypes (Bytes.ofWords values) = .ok (values.filterMap ContentType.ofWire?) := by
  have hlength : requireLength (((Bytes.ofWords values).length + 3) / 4 * 4)
      (Bytes.ofWords values) = .ok () := by
    apply requireLength_of_le
    rw [Bytes.length_ofWords]
    omega
  simp only [decodeTypes, hlength, Bytes.words_ofWords]
  rfl

theorem decodeTypes_toWire (types : List ContentType) :
    decodeTypes (Bytes.ofWords (types.map ContentType.toWire)) = .ok types := by
  have hsome : ContentType.ofWire? ∘ ContentType.toWire = some := funext ContentType.ofWire?_toWire
  rw [decodeTypes_ofWords, List.filterMap_map, hsome, List.filterMap_some]

namespace Frame

def holding (kind : Kind) (arg1 arg2 : UInt32) (payload : Bytes) : Frame :=
  ⟨{ kind := kind.toWire, arg1, arg2, size := UInt32.ofNat payload.length }, payload⟩

theorem sized_holding (kind : Kind) (arg1 arg2 : UInt32) {payload : Bytes}
    (h : payload.length < UInt32.size) : (holding kind arg1 arg2 payload).Sized :=
  (UInt32.toNat_ofNat_of_lt' h).symm

theorem decodeStream_encode_append {frame : Frame} (h : frame.Sized) (behind : Bytes) :
    decodeStream (frame.encode ++ behind) =
      (frame.request :: (decodeStream behind).1, (decodeStream behind).2) := by
  obtain ⟨frames, rest, hcut⟩ := Cut.exists_of_bytes behind
  rw [(Cut.cons h hcut).decodeStream_eq, hcut.decodeStream_eq, List.map_cons]

end Frame

namespace Request

def frame : Request → Frame
  | monitors layout => .holding .monitors 0 0 (encodeLayout layout)
  | grab selection types =>
    .holding .grab selection.toWire 0 (Bytes.ofWords (types.map ContentType.toWire))
  | ask selection type => .holding .ask selection.toWire type.toWire []
  | data selection type bytes => .holding .data selection.toWire type.toWire bytes
  | release selection => .holding .release selection.toWire 0 []

variable {request : Request}

theorem encode_frame (request : Request) : request.frame.encode = request.encode := by
  cases request <;> rfl

theorem sized_frame (h : request.frame.payload.length < UInt32.size) : request.frame.Sized := by
  cases request <;> exact Frame.sized_holding _ _ _ h

theorem request_frame (h : request.frame.payload.length < UInt32.size) :
    request.frame.request = .ok request := by
  have hsized := sized_frame h
  have hlength : requireLength request.frame.header.size.toNat request.frame.payload = .ok () :=
    requireLength_of_le (Nat.le_of_eq hsized.symm)
  have htake : request.frame.payload.take request.frame.header.size.toNat =
      request.frame.payload :=
    List.take_of_length_le (Nat.le_of_eq hsized)
  rw [Frame.request, decode, hlength, htake]
  cases request with
  | monitors layout =>
    have hcount : layout.monitors.length < UInt32.size := by
      have hlayout : (encodeLayout layout).length < UInt32.size := h
      rw [length_encodeLayout, monitorLength] at hlayout
      omega
    simp only [frame, Frame.holding, Kind.ofWire?_toWire, decodeLayout_encodeLayout hcount]
    rfl
  | grab selection types =>
    simp only [frame, Frame.holding, Kind.ofWire?_toWire, decodeSelection_toWire,
      decodeTypes_toWire]
    rfl
  | ask selection type =>
    simp only [frame, Frame.holding, Kind.ofWire?_toWire, decodeSelection_toWire,
      decodeContentType_toWire]
    rfl
  | data selection type bytes =>
    simp only [frame, Frame.holding, Kind.ofWire?_toWire, decodeSelection_toWire,
      decodeContentType_toWire]
    rfl
  | release selection =>
    simp only [frame, Frame.holding, Kind.ofWire?_toWire, decodeSelection_toWire]
    rfl

theorem decodeStream_encode_append (h : request.frame.payload.length < UInt32.size)
    (behind : Bytes) :
    decodeStream (request.encode ++ behind) =
      (.ok request :: (decodeStream behind).1, (decodeStream behind).2) := by
  rw [← encode_frame, Frame.decodeStream_encode_append (sized_frame h), request_frame h]

/-- A stream of encoded requests is read back request by request, up to its end. -/
theorem decodeStream_encodeAll {requests : List Request}
    (h : ∀ request ∈ requests, request.frame.payload.length < UInt32.size) :
    decodeStream (encodeAll requests) = (requests.map .ok, []) := by
  induction requests with
  | nil => exact (Cut.nil Frame.incomplete_nil).decodeStream_eq
  | cons request requests ih =>
    have hrequest := h request List.mem_cons_self
    have hrequests := ih fun other hother => h other (List.mem_cons_of_mem _ hother)
    rw [encodeAll, List.flatMap_cons, decodeStream_encode_append hrequest]
    rw [encodeAll] at hrequests
    rw [hrequests, List.map_cons]

end Request

namespace Message

/-- The request with the same fields. The size of the screen is the one thing that only the relay
tells. -/
def request? : Message → Option Request
  | resolution _ _ => none
  | grab selection types => some (.grab selection types)
  | ask selection type => some (.ask selection type)
  | data selection type bytes => some (.data selection type bytes)
  | release selection => some (.release selection)

theorem encode_of_request? {message : Message} {request : Request}
    (h : message.request? = some request) : message.encode = request.encode := by
  cases message with
  | resolution width height => cases h
  | grab selection types => cases h; rfl
  | ask selection type => cases h; rfl
  | data selection type bytes => cases h; rfl
  | release selection => cases h; rfl

theorem request?_eq_none_iff {message : Message} :
    message.request? = none ↔ ∃ width height, message = resolution width height := by
  cases message <;> simp [request?]

def resolutionFrame (width height : UInt32) : Frame :=
  .holding .resolution 0 0 (Bytes.ofWords [width, height])

variable (width height : UInt32)

theorem encode_resolutionFrame :
    (resolutionFrame width height).encode = (resolution width height).encode := rfl

theorem length_encode_resolution : (resolution width height).encode.length = 24 := rfl

theorem sized_resolutionFrame : (resolutionFrame width height).Sized := rfl

theorem request_resolutionFrame :
    (resolutionFrame width height).request = .error (.unknownKind 0) := rfl

end Message

/-- The requests of a stream are read back as they were encoded, with nothing left over. A message
has the same bytes as the request with the same fields. Only the size of a screen has no such
request: its frame is taken off whole and is an error, and what comes behind it is read as if it had
not been there. -/
theorem stream_read_back {requests : List Request}
    (h : ∀ request ∈ requests, request.frame.payload.length < UInt32.size) :
    decodeStream (Request.encodeAll requests) = (requests.map .ok, []) ∧
      (∀ (message : Message) (request : Request),
        message.request? = some request → message.encode = request.encode) ∧
      (∀ message : Message,
        message.request? = none ↔ ∃ width height, message = .resolution width height) ∧
      ∀ (width height : UInt32) (behind : Bytes),
        (Message.resolution width height).encode.length = 24 ∧
        (∃ frame, Frame.next? ((Message.resolution width height).encode ++ behind) =
            some (frame, behind) ∧
          frame.request = .error (.unknownKind 0)) ∧
        decodeStream ((Message.resolution width height).encode ++ behind) =
          (.error (.unknownKind 0) :: (decodeStream behind).1, (decodeStream behind).2) := by
  refine ⟨Request.decodeStream_encodeAll h, fun message request => Message.encode_of_request?,
    fun message => Message.request?_eq_none_iff, fun width height behind => ?_⟩
  have hsized := Message.sized_resolutionFrame width height
  have hrequest := Message.request_resolutionFrame width height
  refine ⟨Message.length_encode_resolution width height, ⟨_, ?_, hrequest⟩, ?_⟩
  · rw [← Message.encode_resolutionFrame]
    exact Frame.next?_encode_append hsized behind
  · rw [← Message.encode_resolutionFrame, Frame.decodeStream_encode_append hsized, hrequest]

def everyKind : List Request :=
  [.monitors ⟨1, [⟨1080, 1920, 32, 0, 0⟩, ⟨600, 800, 32, -800, 480⟩]⟩,
    .grab .primary [.imagePng, .utf8Text], .ask .secondary .none,
    .data .clipboard .utf8Text [104, 105], .release .clipboard]

theorem stream_read_back_everyKind :
    (∀ request ∈ everyKind, request.frame.payload.length < UInt32.size) ∧
      decodeStream (Request.encodeAll everyKind) = (everyKind.map .ok, []) := by
  have h : ∀ request ∈ everyKind, request.frame.payload.length < UInt32.size := by decide
  exact ⟨h, (stream_read_back h).1⟩

end Wire

end ClipboardRelay
