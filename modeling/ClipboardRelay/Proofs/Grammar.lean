import ClipboardRelay.Proofs.RoundTrip
/-!
Which requests there are on the wire. `Conveys` says what a body stands for under its header, and
`Fails` which of the checks is the first that it does not pass. Main statement: decoding accepts
exactly what conveys a request and otherwise names the failure, so every body is one or the other.
No word is read that is not there, whatever number of monitors is announced.
-/

namespace ClipboardRelay

namespace Bytes

def takeWord? : Bytes → Option (UInt32 × Bytes)
  | b0 :: b1 :: b2 :: b3 :: rest => some (toWord b0 b1 b2 b3, rest)
  | _ => none

def takeWords? : Nat → Bytes → Option (List UInt32)
  | 0, _ => some []
  | count + 1, bytes => do
    let (word, rest) ← bytes.takeWord?
    return word :: (← takeWords? count rest)

@[simp] theorem takeWord?_ofWords_append (word : UInt32) (list : List UInt32) (rest : Bytes) :
    takeWord? (ofWords (word :: list) ++ rest) = some (word, ofWords list ++ rest) := by
  change some (toWord .., ofWords list ++ rest) = _
  rw [toWord_ofWord]

theorem takeWords?_ofWords_append (list : List UInt32) (rest : Bytes) :
    takeWords? list.length (ofWords list ++ rest) = some list := by
  induction list with
  | nil => rfl
  | cons word others ih =>
    rw [List.length_cons, takeWords?, takeWord?_ofWords_append]
    simp only [Option.bind_eq_bind, Option.bind_some, ih]
    rfl

end Bytes

namespace Wire

/-- What a body conveys under its header. -/
inductive Conveys (header : Header) (body : Bytes) : Request → Prop where
  /-- The number of the monitors is a word. What comes after them does not matter. -/
  | monitors (layout : MonitorLayout) (rest : Bytes)
    (kind : header.kind = Kind.monitors.toWire)
    (counted : layout.monitors.length < UInt32.size)
    (content : body = encodeLayout layout ++ rest) : Conveys header body (.monitors layout)
  /-- Kinds of content that are not known are left out. -/
  | grab (selection : Selection) (values : List UInt32)
    (kind : header.kind = Kind.grab.toWire) (named : header.arg1 = selection.toWire)
    (content : body = Bytes.ofWords values) :
    Conveys header body (.grab selection (values.filterMap ContentType.ofWire?))
  | ask (selection : Selection) (type : ContentType)
    (kind : header.kind = Kind.ask.toWire) (named : header.arg1 = selection.toWire)
    (known : header.arg2 = type.toWire) : Conveys header body (.ask selection type)
  | data (selection : Selection) (type : ContentType)
    (kind : header.kind = Kind.data.toWire) (named : header.arg1 = selection.toWire)
    (known : header.arg2 = type.toWire) : Conveys header body (.data selection type body)
  | release (selection : Selection) (kind : header.kind = Kind.release.toWire)
    (named : header.arg1 = selection.toWire) : Conveys header body (.release selection)

/-- The first check that a body does not pass under its header. -/
inductive Fails (header : Header) (body : Bytes) : DecodeError → Prop where
  | layout (kind : header.kind = Kind.monitors.toWire) (short : body.length < 8) :
    Fails header body (.truncated 8 body.length)
  | monitors (count flags : UInt32) (rest : Bytes) (kind : header.kind = Kind.monitors.toWire)
    (content : body = Bytes.ofWords [count, flags] ++ rest)
    (short : rest.length < count.toNat * monitorLength) :
    Fails header body (.truncated (count.toNat * monitorLength) rest.length)
  | selection (kind : Kind) (addressed : kind ∈ [.grab, .ask, .data, .release])
    (sort : header.kind = kind.toWire)
    (unknown : ∀ selection : Selection, header.arg1 ≠ selection.toWire) :
    Fails header body (.unknownSelection header.arg1)
  | types (selection : Selection) (expected : Nat) (kind : header.kind = Kind.grab.toWire)
    (named : header.arg1 = selection.toWire) (whole : 4 ∣ expected)
    (more : body.length < expected) (next : expected < body.length + 4) :
    Fails header body (.truncated expected body.length)
  | type (selection : Selection) (kind : Kind) (typed : kind ∈ [.ask, .data])
    (sort : header.kind = kind.toWire) (named : header.arg1 = selection.toWire)
    (unknown : ∀ type : ContentType, header.arg2 ≠ type.toWire) :
    Fails header body (.unknownContentType header.arg2)
  | kind (unknown : ∀ kind : Kind, kind ≠ .resolution → header.kind ≠ kind.toWire) :
    Fails header body (.unknownKind header.kind)

def Passes (header : Header) (body : Bytes) : Prop :=
  (header.kind = Kind.monitors.toWire ∧ 8 ≤ body.length ∧
      ∃ count ∈ body.words.head?, count.toNat * monitorLength ≤ body.length - 8) ∨
    (header.kind = Kind.grab.toWire ∧ (∃ selection : Selection, header.arg1 = selection.toWire) ∧
      4 ∣ body.length) ∨
    ((header.kind = Kind.ask.toWire ∨ header.kind = Kind.data.toWire) ∧
      (∃ selection : Selection, header.arg1 = selection.toWire) ∧
      ∃ type : ContentType, header.arg2 = type.toWire) ∨
    header.kind = Kind.release.toWire ∧ ∃ selection : Selection, header.arg1 = selection.toWire

theorem requireLength_of_lt {expected : Nat} {bytes : Bytes} (h : bytes.length < expected) :
    requireLength expected bytes = .error (.truncated expected bytes.length) := by
  have hshort : ¬bytes.holds expected = true := by
    rw [Bytes.holds_iff]
    omega
  rw [requireLength, if_neg hshort]

theorem exists_monitors_of_words {count : Nat} {list : List UInt32} (h : list.length = 5 * count) :
    ∃ monitors : List Monitor, monitors.length = count ∧ list = monitors.flatMap monitorWords := by
  induction count generalizing list with
  | zero => exact ⟨[], rfl, List.length_eq_zero_iff.mp h⟩
  | succ count ih =>
    match list, h with
    | height :: width :: depth :: x :: y :: rest, h =>
      have hrest : rest.length = 5 * count := by
        simp only [List.length_cons] at h
        omega
      obtain ⟨monitors, hcount, rfl⟩ := ih hrest
      exact ⟨⟨height, width, depth, x.toInt32, y.toInt32⟩ :: monitors,
        by rw [List.length_cons, hcount], rfl⟩

theorem layout_cases (body : Bytes) :
    body.length < 8 ∨
      (∃ (count flags : UInt32) (rest : Bytes), body = Bytes.ofWords [count, flags] ++ rest ∧
        rest.length < count.toNat * monitorLength) ∨
      ∃ (layout : MonitorLayout) (rest : Bytes), layout.monitors.length < UInt32.size ∧
        body = encodeLayout layout ++ rest := by
  rcases Nat.lt_or_ge body.length 8 with hshort | hlong
  · exact .inl hshort
  have hroom : 4 * 2 ≤ body.length := hlong
  obtain ⟨head, rest, hhead, rfl⟩ := Bytes.exists_ofWords_append hroom
  match head, hhead with
  | [count, flags], _ =>
    rcases Nat.lt_or_ge rest.length (count.toNat * monitorLength) with hless | hmore
    · exact .inr (.inl ⟨count, flags, rest, rfl, hless⟩)
    have hroom : 4 * (5 * count.toNat) ≤ rest.length := by
      rw [monitorLength] at hmore
      omega
    obtain ⟨list, behind, hlist, rfl⟩ := Bytes.exists_ofWords_append hroom
    obtain ⟨monitors, hmonitors, rfl⟩ := exists_monitors_of_words hlist
    refine .inr (.inr ⟨⟨flags, monitors⟩, behind, hmonitors ▸ count.toNat_lt_size, ?_⟩)
    have hcount : UInt32.ofNat monitors.length = count := by
      rw [hmonitors, UInt32.ofNat_toNat]
    rw [encodeLayout, hcount, ← List.append_assoc, ← Bytes.ofWords_append]
    rfl

theorem decodeLayout_of_short {body : Bytes} (h : body.length < 8) :
    decodeLayout body = .error (.truncated 8 body.length) := by
  rw [decodeLayout, requireLength_of_lt h]
  rfl

theorem length_head_le (count flags : UInt32) (rest : Bytes) :
    8 ≤ (Bytes.ofWords [count, flags] ++ rest).length := by
  rw [List.length_append, Bytes.length_ofWords]
  exact Nat.le_add_right 8 rest.length

theorem decodeLayout_of_less {count flags : UInt32} {rest : Bytes}
    (h : rest.length < count.toNat * monitorLength) :
    decodeLayout (Bytes.ofWords [count, flags] ++ rest) =
      .error (.truncated (count.toNat * monitorLength) rest.length) := by
  have hhead : requireLength 8 (Bytes.ofWords [count, flags] ++ rest) = .ok () :=
    requireLength_of_le (length_head_le count flags rest)
  have hdrop : (Bytes.ofWords [count, flags] ++ rest).drop 8 = rest := rfl
  simp only [decodeLayout, hhead, Bytes.words_ofWords_append, List.cons_append, List.nil_append,
    hdrop, requireLength_of_lt h]
  rfl

theorem decodeTypes_of_next {body : Bytes} {expected : Nat} (whole : 4 ∣ expected)
    (more : body.length < expected) (next : expected < body.length + 4) :
    decodeTypes body = .error (.truncated expected body.length) := by
  have hexpected : (body.length + 3) / 4 * 4 = expected := by omega
  rw [decodeTypes, hexpected, requireLength_of_lt more]
  rfl

def readMonitor? (bytes : Bytes) : Option (Monitor × Bytes) := do
  let (height, bytes) ← bytes.takeWord?
  let (width, bytes) ← bytes.takeWord?
  let (depth, bytes) ← bytes.takeWord?
  let (x, bytes) ← bytes.takeWord?
  let (y, bytes) ← bytes.takeWord?
  return ({ height, width, depth, x := x.toInt32, y := y.toInt32 }, bytes)

def readMonitors? : Nat → Bytes → Option (List Monitor)
  | 0, _ => some []
  | count + 1, bytes => do
    let (monitor, rest) ← readMonitor? bytes
    return monitor :: (← readMonitors? count rest)

/-- Decodes a layout word by word from the front. There is no result where a word is read that is
not there. -/
def readLayout? (body : Bytes) : Option (Except DecodeError MonitorLayout) := do
  let .ok () := requireLength 8 body | return .error (.truncated 8 body.length)
  let (count, rest) ← body.takeWord?
  let (flags, rest) ← rest.takeWord?
  let expected := count.toNat * monitorLength
  let .ok () := requireLength expected rest | return .error (.truncated expected rest.length)
  return .ok { flags, monitors := ← readMonitors? count.toNat rest }

def readTypes? (body : Bytes) : Option (Except DecodeError (List ContentType)) := do
  let expected := (body.length + 3) / 4 * 4
  let .ok () := requireLength expected body | return .error (.truncated expected body.length)
  return .ok ((← body.takeWords? (body.length / 4)).filterMap ContentType.ofWire?)

theorem readMonitor?_append (monitor : Monitor) (rest : Bytes) :
    readMonitor? (Bytes.ofWords (monitorWords monitor) ++ rest) = some (monitor, rest) := by
  simp only [readMonitor?, monitorWords, Bytes.takeWord?_ofWords_append, Option.bind_eq_bind,
    Option.bind_some]
  rfl

theorem readMonitors?_append (monitors : List Monitor) (rest : Bytes) :
    readMonitors? monitors.length (Bytes.ofWords (monitors.flatMap monitorWords) ++ rest) =
      some monitors := by
  induction monitors with
  | nil => rfl
  | cons monitor others ih =>
    rw [List.length_cons, readMonitors?, List.flatMap_cons, Bytes.ofWords_append,
      List.append_assoc, readMonitor?_append]
    simp only [Option.bind_eq_bind, Option.bind_some, ih]
    rfl

/-- No number of monitors leads to a read past the end. -/
theorem readLayout?_eq (body : Bytes) : readLayout? body = some (decodeLayout body) := by
  rcases layout_cases body with hshort | ⟨count, flags, rest, rfl, hless⟩ | ⟨layout, rest, h, rfl⟩
  · rw [readLayout?, requireLength_of_lt hshort, decodeLayout_of_short hshort]
    rfl
  · have hhead : requireLength 8 (Bytes.ofWords [count, flags] ++ rest) = .ok () :=
      requireLength_of_le (length_head_le count flags rest)
    simp only [readLayout?, hhead, Bytes.takeWord?_ofWords_append, Option.bind_eq_bind,
      Option.bind_some, Bytes.ofWords_nil, List.nil_append, requireLength_of_lt hless,
      decodeLayout_of_less hless]
    rfl
  · have hcount : (UInt32.ofNat layout.monitors.length).toNat = layout.monitors.length :=
      UInt32.toNat_ofNat_of_lt' h
    have hlength := length_encodeLayout layout
    have hhead : requireLength 8 (encodeLayout layout ++ rest) = .ok () :=
      requireLength_of_le (by rw [List.length_append]; omega)
    have hmonitors : requireLength (layout.monitors.length * monitorLength)
        (Bytes.ofWords (layout.monitors.flatMap monitorWords) ++ rest) = .ok () :=
      requireLength_of_le (by
        rw [List.length_append, Bytes.length_ofWords, length_monitorWords, monitorLength]
        omega)
    rw [decodeLayout_encodeLayout_append h, readLayout?, hhead, encodeLayout]
    simp only [Bytes.takeWord?_ofWords_append, Option.bind_eq_bind, Option.bind_some, hcount,
      hmonitors, readMonitors?_append]
    rfl

theorem types_cases (body : Bytes) :
    (∃ values, body = Bytes.ofWords values) ∨
      ∃ expected, 4 ∣ expected ∧ body.length < expected ∧ expected < body.length + 4 := by
  rcases Nat.eq_zero_or_pos (body.length % 4) with hwhole | hpart
  · exact .inl ⟨body.words, (Bytes.ofWords_words hwhole).symm⟩
  · exact .inr ⟨(body.length + 3) / 4 * 4, by omega, by omega, by omega⟩

theorem readTypes?_eq (body : Bytes) : readTypes? body = some (decodeTypes body) := by
  rcases types_cases body with ⟨values, rfl⟩ | ⟨expected, hwhole, hmore, hnext⟩
  · have hlength : (Bytes.ofWords values).length / 4 = values.length := by
      rw [Bytes.length_ofWords]
      omega
    have hfull : requireLength (((Bytes.ofWords values).length + 3) / 4 * 4)
        (Bytes.ofWords values) = .ok () :=
      requireLength_of_le (by rw [Bytes.length_ofWords]; omega)
    have hwords := Bytes.takeWords?_ofWords_append values []
    rw [List.append_nil] at hwords
    simp only [readTypes?, hfull, hlength, hwords, decodeTypes_ofWords]
    rfl
  · have hexpected : (body.length + 3) / 4 * 4 = expected := by omega
    rw [readTypes?, decodeTypes_of_next hwhole hmore hnext, hexpected, requireLength_of_lt hmore]
    rfl

theorem decodeSelection_of_unknown {value : UInt32}
    (h : ∀ selection : Selection, value ≠ selection.toWire) :
    decodeSelection value = .error (.unknownSelection value) := by
  rw [decodeSelection]
  cases hfound : Selection.ofWire? value with
  | none => rfl
  | some selection => exact absurd (Selection.toWire_of_ofWire? hfound).symm (h selection)

theorem decodeContentType_of_unknown {value : UInt32}
    (h : ∀ type : ContentType, value ≠ type.toWire) :
    decodeContentType value = .error (.unknownContentType value) := by
  rw [decodeContentType]
  cases hfound : ContentType.ofWire? value with
  | none => rfl
  | some type => exact absurd (ContentType.toWire_of_ofWire? hfound).symm (h type)

section Decoding

variable {header : Header} {payload : Bytes}

theorem decode_take (h : header.size.toNat ≤ payload.length) :
    Request.decode header (payload.take header.size.toNat) = Request.decode header payload := by
  have htake : header.size.toNat ≤ (payload.take header.size.toNat).length :=
    Nat.le_of_eq (List.length_take_of_le h).symm
  rw [Request.decode, Request.decode, requireLength_of_le h, requireLength_of_le htake,
    List.take_take, Nat.min_self]

theorem decode_of_short (h : payload.length < header.size.toNat) :
    Request.decode header payload = .error (.truncated header.size.toNat payload.length) := by
  rw [Request.decode, requireLength_of_lt h]
  rfl

theorem decode_of_conveys {request : Request} (h : header.size.toNat ≤ payload.length)
    (hconveys : Conveys header (payload.take header.size.toNat) request) :
    Request.decode header payload = .ok request := by
  rw [Request.decode, requireLength_of_le h]
  cases hconveys with
  | monitors layout rest kind counted content =>
    simp only [kind, content, Kind.ofWire?_toWire, decodeLayout_encodeLayout_append counted]
    rfl
  | grab selection values kind named content =>
    simp only [kind, named, content, Kind.ofWire?_toWire, decodeSelection_toWire,
      decodeTypes_ofWords]
    rfl
  | ask selection type kind named known =>
    simp only [kind, named, known, Kind.ofWire?_toWire, decodeSelection_toWire,
      decodeContentType_toWire]
    rfl
  | data selection type kind named known =>
    simp only [kind, named, known, Kind.ofWire?_toWire, decodeSelection_toWire,
      decodeContentType_toWire]
    rfl
  | release selection kind named =>
    simp only [kind, named, Kind.ofWire?_toWire, decodeSelection_toWire]
    rfl

theorem decode_of_fails {error : DecodeError} (h : header.size.toNat ≤ payload.length)
    (hfails : Fails header (payload.take header.size.toNat) error) :
    Request.decode header payload = .error error := by
  rw [Request.decode, requireLength_of_le h]
  cases hfails with
  | layout kind short =>
    simp only [kind, Kind.ofWire?_toWire, decodeLayout_of_short short]
    rfl
  | monitors count flags rest kind content short =>
    simp only [kind, content, Kind.ofWire?_toWire, decodeLayout_of_less short]
    rfl
  | selection kind addressed sort unknown =>
    simp only [sort, Kind.ofWire?_toWire, decodeSelection_of_unknown unknown]
    cases kind with
    | grab | ask | data | release => rfl
    | resolution | monitors => simp at addressed
  | types selection expected kind named whole more next =>
    simp only [kind, named, Kind.ofWire?_toWire, decodeSelection_toWire,
      decodeTypes_of_next whole more next]
    rfl
  | type selection kind typed sort named unknown =>
    simp only [sort, named, Kind.ofWire?_toWire, decodeSelection_toWire,
      decodeContentType_of_unknown unknown]
    cases kind with
    | ask | data => rfl
    | resolution | monitors | grab | release => simp at typed
  | kind unknown =>
    cases hkind : Kind.ofWire? header.kind with
    | none => rfl
    | some kind =>
      have hsort := (Kind.toWire_of_ofWire? hkind).symm
      by_cases hresolution : kind = .resolution
      · rw [hresolution]
        rfl
      · exact absurd hsort (unknown kind hresolution)

end Decoding

theorem conveys_or_fails (header : Header) (body : Bytes) :
    (∃ request, Conveys header body request) ∨ ∃ error, Fails header body error := by
  by_cases hknown : ∃ kind : Kind, kind ≠ .resolution ∧ header.kind = kind.toWire
  case neg =>
    simp only [not_exists, not_and] at hknown
    exact .inr ⟨_, .kind hknown⟩
  obtain ⟨kind, hresolution, hkind⟩ := hknown
  by_cases hmonitors : kind = .monitors
  · subst hmonitors
    rcases layout_cases body with hshort | ⟨count, flags, rest, hbody, hless⟩ |
      ⟨layout, rest, hcounted, hbody⟩
    · exact .inr ⟨_, .layout hkind hshort⟩
    · exact .inr ⟨_, .monitors count flags rest hkind hbody hless⟩
    · exact .inl ⟨_, .monitors layout rest hkind hcounted hbody⟩
  -- All other kinds are about a selection, so this is what is looked at first.
  by_cases hnamed : ∃ selection : Selection, header.arg1 = selection.toWire
  case neg =>
    have haddressed : kind ∈ [.grab, .ask, .data, .release] := by cases kind <;> simp_all
    exact .inr ⟨_, .selection kind haddressed hkind (not_exists.mp hnamed)⟩
  obtain ⟨selection, hnamed⟩ := hnamed
  cases kind with
  | resolution => exact absurd rfl hresolution
  | monitors => exact absurd rfl hmonitors
  | grab =>
    rcases types_cases body with ⟨values, hbody⟩ | ⟨expected, hwhole, hmore, hnext⟩
    · exact .inl ⟨_, .grab selection values hkind hnamed hbody⟩
    · exact .inr ⟨_, .types selection expected hkind hnamed hwhole hmore hnext⟩
  | ask =>
    by_cases htype : ∃ type : ContentType, header.arg2 = type.toWire
    · obtain ⟨type, htype⟩ := htype
      exact .inl ⟨_, .ask selection type hkind hnamed htype⟩
    · exact .inr ⟨_, .type selection .ask (by simp) hkind hnamed (not_exists.mp htype)⟩
  | data =>
    by_cases htype : ∃ type : ContentType, header.arg2 = type.toWire
    · obtain ⟨type, htype⟩ := htype
      exact .inl ⟨_, .data selection type hkind hnamed htype⟩
    · exact .inr ⟨_, .type selection .data (by simp) hkind hnamed (not_exists.mp htype)⟩
  | release => exact .inl ⟨_, .release selection hkind hnamed⟩

theorem conveys_of_passes {header : Header} {body : Bytes} (h : Passes header body) :
    ∃ request, Conveys header body request := by
  rcases h with ⟨hkind, hlong, count, hcount, hroom⟩ | ⟨hkind, ⟨selection, hnamed⟩, hwhole⟩ |
    ⟨hkind, ⟨selection, hnamed⟩, type, hknown⟩ | ⟨hkind, selection, hnamed⟩
  · rcases layout_cases body with hshort | ⟨first, flags, rest, rfl, hless⟩ |
      ⟨layout, rest, hcounted, hbody⟩
    · omega
    · rw [Bytes.words_ofWords_append] at hcount
      have hfirst : first = count := Option.some_inj.mp hcount
      simp only [List.length_append, Bytes.length_ofWords, List.length_cons, List.length_nil]
        at hroom
      rw [hfirst] at hless
      omega
    · exact ⟨_, .monitors layout rest hkind hcounted hbody⟩
  · have hbody := Bytes.ofWords_words (Nat.mod_eq_zero_of_dvd hwhole)
    exact ⟨_, .grab selection body.words hkind hnamed hbody.symm⟩
  · rcases hkind with hkind | hkind
    · exact ⟨_, .ask selection type hkind hnamed hknown⟩
    · exact ⟨_, .data selection type hkind hnamed hknown⟩
  · exact ⟨_, .release selection hkind hnamed⟩

theorem Conveys.passes {header : Header} {body : Bytes} {request : Request}
    (h : Conveys header body request) : Passes header body := by
  cases h with
  | monitors layout rest kind counted content =>
    have hcount : (UInt32.ofNat layout.monitors.length).toNat = layout.monitors.length :=
      UInt32.toNat_ofNat_of_lt' counted
    have hlength : body.length = 8 + layout.monitors.length * monitorLength + rest.length := by
      rw [content, List.length_append, length_encodeLayout]
    refine .inl ⟨kind, by omega, UInt32.ofNat layout.monitors.length, ?_, by rw [hcount]; omega⟩
    rw [content, encodeLayout, Bytes.words_ofWords_append]
    rfl
  | grab selection values kind named content =>
    have hwhole : 4 ∣ body.length := by
      rw [content, Bytes.length_ofWords]
      exact Nat.dvd_mul_right 4 values.length
    exact .inr (.inl ⟨kind, ⟨selection, named⟩, hwhole⟩)
  | ask selection type kind named known =>
    exact .inr (.inr (.inl ⟨.inl kind, ⟨selection, named⟩, type, known⟩))
  | data selection type kind named known =>
    exact .inr (.inr (.inl ⟨.inr kind, ⟨selection, named⟩, type, known⟩))
  | release selection kind named => exact .inr (.inr (.inr ⟨kind, selection, named⟩))

section Exactness

variable {header : Header} {payload : Bytes}

theorem decode_eq_ok_iff (h : header.size.toNat ≤ payload.length) (request : Request) :
    Request.decode header payload = .ok request ↔
      Conveys header (payload.take header.size.toNat) request := by
  refine ⟨fun hdecode => ?_, decode_of_conveys h⟩
  rcases conveys_or_fails header (payload.take header.size.toNat) with
    ⟨other, hconveys⟩ | ⟨error, hfails⟩
  · have hother := decode_of_conveys h hconveys
    rw [hdecode] at hother
    cases hother
    exact hconveys
  · have herror := decode_of_fails h hfails
    rw [hdecode] at herror
    cases herror

theorem decode_eq_error_iff (h : header.size.toNat ≤ payload.length) (error : DecodeError) :
    Request.decode header payload = .error error ↔
      Fails header (payload.take header.size.toNat) error := by
  refine ⟨fun hdecode => ?_, decode_of_fails h⟩
  rcases conveys_or_fails header (payload.take header.size.toNat) with
    ⟨request, hconveys⟩ | ⟨other, hfails⟩
  · have hrequest := decode_of_conveys h hconveys
    rw [hdecode] at hrequest
    cases hrequest
  · have hother := decode_of_fails h hfails
    rw [hdecode] at hother
    cases hother
    exact hfails

theorem exists_decode_iff (h : header.size.toNat ≤ payload.length) :
    (∃ request, Request.decode header payload = .ok request) ↔
      Passes header (payload.take header.size.toNat) := by
  constructor
  · rintro ⟨request, hdecode⟩
    exact ((decode_eq_ok_iff h request).mp hdecode).passes
  · intro hpasses
    obtain ⟨request, hconveys⟩ := conveys_of_passes hpasses
    exact ⟨request, decode_of_conveys h hconveys⟩

end Exactness

/-- Every header and payload is decoded. A payload that is too short for its header is an error, and
behind the announced part it may hold anything. That part is decoded to what it conveys, which is
something exactly if it passes all checks, and otherwise to the first check that it does not pass.
Decoding a body word by word from its front gives the same, so no word is read that is not there, up
to the largest number of monitors. -/
theorem decode_exact (header : Header) (payload : Bytes) :
    (payload.length < header.size.toNat →
        Request.decode header payload = .error (.truncated header.size.toNat payload.length)) ∧
      (header.size.toNat ≤ payload.length →
        Request.decode header payload =
            Request.decode header (payload.take header.size.toNat) ∧
          (∀ request, Request.decode header payload = .ok request ↔
            Conveys header (payload.take header.size.toNat) request) ∧
          (∀ error, Request.decode header payload = .error error ↔
            Fails header (payload.take header.size.toNat) error) ∧
          ((∃ request, Request.decode header payload = .ok request) ↔
            Passes header (payload.take header.size.toNat))) ∧
      ∀ body, readLayout? body = some (decodeLayout body) ∧
        readTypes? body = some (decodeTypes body) :=
  ⟨decode_of_short,
    fun h => ⟨(decode_take h).symm, decode_eq_ok_iff h, decode_eq_error_iff h, exists_decode_iff h⟩,
    fun body => ⟨readLayout?_eq body, readTypes?_eq body⟩⟩

example : Request.decode ⟨1, 0, 0, 8⟩ (Bytes.ofWords [0xffffffff, 1, 7]) =
    .error (.truncated 85899345900 0) := by rfl

end Wire

end ClipboardRelay
