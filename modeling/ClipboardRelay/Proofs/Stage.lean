import ClipboardRelay.Proofs.Changeover
import ClipboardRelay.Proofs.Footprint
import Mathlib.Logic.Relation
/-!
What the relay can do, step by step. A stage is a relay with its history and with what it has yet to
do before it is done with an operation or an event. `Step` says all that can happen to a stage while
the display answers, and `Break` what a call that fails leaves behind. The modules that follow show
that the actions take no other steps, so a property of all runs is proved once for each step.
-/

namespace ClipboardRelay

/-- What the relay began and has yet to do. -/
structure Duty where
  /-- The request at the head of the queue was not looked at. -/
  serve : Bool := false
  /-- The owner was not asked for the fetch at the head of the queue. -/
  start : Bool := false
  /-- The next holder of a selection, announced already or asked for by the agent. -/
  owed : Option (Selection × Holder) := none

namespace Duty

def serving (duty : Duty) (serve : Bool) : Duty :=
  { duty with serve }

def starting (duty : Duty) (start : Bool) : Duty :=
  { duty with start }

def owing (duty : Duty) (owed : Option (Selection × Holder)) : Duty :=
  { duty with owed }

end Duty

structure Stage where
  relay : Relay
  duty : Duty := {}
  history : History

namespace Relay

def fetch? (relay : Relay) (selection : Selection) (type : ContentType) : Option Fetch :=
  if (relay.vocabulary.atom? selection).isSome then
    ((relay.slots.holder selection).targetFor? type).map fun target => { selection, target }
  else none

def answer (relay : Relay) (fetch : Fetch) (data : Option Bytes) : Wire.Message :=
  match relay.registry.typeFor fetch.target, data with
  | some type, some bytes =>
    if type = .none then .noData fetch.selection else .data fetch.selection type bytes
  | _, _ => .noData fetch.selection

def withRequests (relay : Relay) (requests : List DesktopRequest) : Relay :=
  { relay with requests }

def withWriter (relay : Relay) (writer : Option Incremental.Writer) : Relay :=
  { relay with writer }

def withFetches (relay : Relay) (fetches : List Fetch) : Relay :=
  { relay with fetches }

def withAbandoned (relay : Relay) (abandoned : List Fetch) : Relay :=
  { relay with abandoned }

def withReader (relay : Relay) (reader : Incremental.Reader) : Relay :=
  { relay with reader }

def withSlots (relay : Relay) (slots : Slots) : Relay :=
  { relay with slots }

def withSize (relay : Relay) (size : ScreenSize) : Relay :=
  { relay with size }

def requestsOf (relay : Relay) (selection : Selection) : List DesktopRequest :=
  relay.requests.filter (·.selection = selection)

def fetchesOf (relay : Relay) (selection : Selection) : List Fetch :=
  relay.fetches.filter (·.selection = selection)

def withoutRequests (relay : Relay) (selection : Selection) : Relay :=
  relay.withRequests (relay.requests.filter (·.selection ≠ selection))

def withoutFetches (relay : Relay) (selection : Selection) : Relay :=
  relay.withFetches (relay.fetches.filter (·.selection ≠ selection))

def Clear (relay : Relay) (selection : Selection) : Prop :=
  (∀ request ∈ relay.requests, request.selection ≠ selection) ∧
    ∀ fetch ∈ relay.fetches, fetch.selection ≠ selection

end Relay

/-- Whether a deed has no part in the bookkeeping of requests, fetches and holders. -/
def Moment.isPlain (moment : Moment) : Bool :=
  match moment.deed with
  | .began operation =>
    operation.question?.isNone && (moment.relay.taken? operation).isNone
  | .called .pollEvent (some (.selectionRequest _)) | .called (.convertSelection ..) _
  | .called (.changeProperty ..) _ | .called (.notifyRequestor ..) _ => false
  | .called .. => true
  | .noted (.about _ (.requestsDropped _)) | .noted (.about _ (.fetchesDropped _)) => false
  | .noted _ => true
  | .failed .. | .sent _ => false

namespace Stage

def did (stage : Stage) (deeds : List Deed) : Stage :=
  { stage with history := stage.history ++ deeds.map (Moment.mk stage.relay) }

def become (stage : Stage) (relay : Relay) : Stage :=
  { stage with relay }

def due (stage : Stage) (duty : Duty) : Stage :=
  { stage with duty }

end Stage

/-- A step of the relay on a display that answers. -/
inductive Step : Stage → Stage → Prop where
  | plain (stage : Stage) (deed : Deed) (h : (Moment.mk stage.relay deed).isPlain = true) :
    Step stage (stage.did [deed])
  | report (stage : Stage) (size : ScreenSize) :
    Step stage ((stage.become (stage.relay.withSize size)).did
      [.sent (.resolution size.width.toUInt32 size.height.toUInt32)])
  -- Requests of applications.
  | arrive (stage : Stage) (event : SelectionRequest) (selection : Selection)
    (bridged : stage.relay.vocabulary.selection? event.selection = some selection)
    (idle : stage.duty = {}) :
    Step stage (((stage.did [.called .pollEvent (some (.selectionRequest event))]).become
      (stage.relay.withRequests (stage.relay.requests ++ [⟨selection, event⟩]))).due
        (stage.duty.serving stage.relay.requests.isEmpty))
  | turnAway (stage : Stage) (event : SelectionRequest)
    (foreign : stage.relay.vocabulary.selection? event.selection = none) :
    Step stage (stage.did [.called .pollEvent (some (.selectionRequest event)),
      .noted (.requestForUnknownSelection event.selection),
      .called (.notifyRequestor event Atom.null) ()])
  | ask (stage : Stage) (request : DesktopRequest) (rest : List DesktopRequest)
    (type : ContentType) (due : stage.duty.serve = true)
    (front : stage.relay.requests = request :: rest)
    (owned : stage.relay.slots.owner request.selection = .agent)
    (single : request.event.target ≠ stage.relay.vocabulary.multiple)
    (content : request.event.target ≠ stage.relay.vocabulary.targets)
    (known : stage.relay.registry.typeFor request.event.target = some type) :
    Step stage ((stage.did [.sent (.ask request.selection type)]).due
      (stage.duty.serving false))
  | store (stage : Stage) (request : DesktopRequest) (rest : List DesktopRequest) (type : Atom)
    (content : Content) (front : stage.relay.requests = request :: rest)
    (owned : stage.duty.serve = false ∨
      stage.relay.slots.owner request.selection = .agent) :
    Step stage (stage.did [.called (.changeProperty request.event.requestor
      request.event.replyProperty type content) ()])
  | settle (stage : Stage) (request : DesktopRequest) (rest : List DesktopRequest)
    (property : Atom) (front : stage.relay.requests = request :: rest)
    (free : stage.duty.serve = true ∨ stage.relay.writer = none)
    (reply : property = Atom.null ∨ property = request.event.replyProperty) :
    Step stage (((stage.did [.called (.notifyRequestor request.event property) ()]).become
      (stage.relay.withRequests rest)).due (stage.duty.serving true))
  | announce (stage : Stage) (request : DesktopRequest) (rest : List DesktopRequest)
    (data : Bytes) (front : stage.relay.requests = request :: rest)
    (served : stage.duty.serve = false) (free : stage.relay.writer = none) :
    Step stage ((stage.did [.called (.notifyRequestor request.event
      request.event.replyProperty) ()]).become
        (stage.relay.withWriter (some {
          data
          requestor := request.event.requestor
          property := request.event.replyProperty
          target := request.event.target })))
  | chunk (stage : Stage) (writer : Incremental.Writer)
    (busy : stage.relay.writer = some writer) (served : stage.duty.serve = false)
    (more : (writer.chunk stage.relay.propertyLimit).isEmpty = false) :
    Step stage ((stage.become (stage.relay.withWriter
      (some (writer.advance stage.relay.propertyLimit)))).did
        [.noted (.chunkSent writer.position (writer.chunk stage.relay.propertyLimit).length
            writer.data.length),
          .called (.changeProperty writer.requestor writer.property writer.target
            (.bytes (writer.chunk stage.relay.propertyLimit))) ()])
  | lastChunk (stage : Stage) (writer : Incremental.Writer)
    (busy : stage.relay.writer = some writer) (served : stage.duty.serve = false)
    (done : (writer.chunk stage.relay.propertyLimit).isEmpty = true) :
    Step stage ((((stage.become (stage.relay.withWriter
      (some (writer.advance stage.relay.propertyLimit)))).did
        [.noted (.sendingDone writer.data.length),
          .called (.changeProperty writer.requestor writer.property writer.target
            (.bytes (writer.chunk stage.relay.propertyLimit))) ()]).become
      ((stage.relay.withWriter none).withRequests stage.relay.requests.tail)).due
        (stage.duty.serving true))
  | dropRequests (stage : Stage) (selection : Selection)
    (found : stage.relay.requestsOf selection ≠ []) (served : stage.duty.serve = false)
    (change : stage.relay.Reassigns selection stage.history) :
    Step stage
      (let dropped := (stage.become (stage.relay.withoutRequests selection)).did
        (.noted (.about selection (.requestsDropped (stage.relay.requestsOf selection).length)) ::
          (stage.relay.requestsOf selection).map fun request =>
            .called (.notifyRequestor request.event Atom.null) ())
      if stage.relay.requests.head?.map (·.selection) = some selection then
        (dropped.become (dropped.relay.withWriter none)).due (stage.duty.serving true)
      else dropped)
  | rest (stage : Stage) (due : stage.duty.serve = true) (empty : stage.relay.requests = []) :
    Step stage (stage.due (stage.duty.serving false))
  -- Fetches for the agent.
  | queueFetch (stage : Stage) (operation : Operation) (selection : Selection)
    (type : ContentType) (fetch : Fetch)
    (asks : operation.question? = some (selection, type))
    (accepted : stage.relay.fetch? selection type = some fetch) (idle : stage.duty = {}) :
    Step stage (((stage.did [.began operation]).become
      (stage.relay.withFetches (stage.relay.fetches ++ [fetch]))).due
        (stage.duty.starting stage.relay.fetches.isEmpty))
  | decline (stage : Stage) (operation : Operation) (selection : Selection)
    (type : ContentType) (remark : Remark)
    (asks : operation.question? = some (selection, type))
    (declined : stage.relay.fetch? selection type = none)
    (plain : (Moment.mk stage.relay (.noted (.about selection remark))).isPlain = true) :
    Step stage (stage.did [.began operation, .noted (.about selection remark),
      .sent (.noData selection)])
  | startFetch (stage : Stage) (fetch : Fetch) (rest : List Fetch) (atom : Atom)
    (due : stage.duty.start = true) (front : stage.relay.fetches = fetch :: rest)
    (named : stage.relay.vocabulary.atom? fetch.selection = some atom) :
    Step stage (((stage.become (stage.relay.withAbandoned
      (stage.relay.abandoned.filter (·.selection ≠ fetch.selection)))).did
        [.noted (.about fetch.selection (.converting fetch.target)),
          .called (.convertSelection atom fetch.target atom) ()]).due
      (stage.duty.starting false))
  | skipStart (stage : Stage) (due : stage.duty.start = true)
    (unnamed : ∀ fetch ∈ stage.relay.fetches.head?,
      stage.relay.vocabulary.atom? fetch.selection = none) :
    Step stage (stage.due (stage.duty.starting false))
  | dropFetches (stage : Stage) (selection : Selection) (active : Fetch) (rest : List Fetch)
    (front : stage.relay.fetches = active :: rest)
    (found : stage.relay.fetchesOf selection ≠ []) (started : stage.duty.start = false)
    (change : stage.relay.Reassigns selection stage.history) :
    Step stage
      (let dropped := (stage.become (stage.relay.withoutFetches selection)).did
        (.noted (.about selection (.fetchesDropped (stage.relay.fetchesOf selection).length)) ::
          (stage.relay.fetchesOf selection).map fun fetch => .sent (.noData fetch.selection))
      if active.selection = selection then
        (dropped.become ((dropped.relay.withReader stage.relay.reader.abort).withAbandoned
          (stage.relay.abandoned ++ [active]))).due (stage.duty.starting true)
      else dropped)
  | finishFetch (stage : Stage) (data : Option Bytes) (fetch : Fetch) (rest : List Fetch)
    (front : stage.relay.fetches = fetch :: rest) (started : stage.duty.start = false) :
    Step stage (((stage.become ((stage.relay.withReader
      (if data.isNone then stage.relay.reader.abort else stage.relay.reader)).withFetches
        rest)).did
        ((if (stage.relay.registry.typeFor fetch.target).isNone then
            [.noted (.about fetch.selection (.unknownTarget fetch.target))] else []) ++
          [.sent (stage.relay.answer fetch data)])).due (stage.duty.starting true))
  | forget (stage : Stage) (notify : SelectionNotify) :
    Step stage (stage.become (stage.relay.withAbandoned
      (stage.relay.abandoned.eraseP (Relay.answers stage.relay.vocabulary notify))))
  | read (stage : Stage) (reader : Incremental.Reader) :
    Step stage (stage.become (stage.relay.withReader reader))
  -- Holders of selections.
  | promise (stage : Stage) (operation : Operation) (selection : Selection)
    (types : List ContentType)
    (taken : stage.relay.taken? operation = some (selection, types)) (idle : stage.duty = {}) :
    Step stage ((stage.did [.began operation]).due
      (stage.duty.owing (some (selection, .agent types))))
  | surrender (stage : Stage) (selection : Selection) (clear : stage.relay.Clear selection)
    (idle : stage.duty = {}) :
    Step stage ((stage.become (stage.relay.withSlots
      (stage.relay.slots.setHolder selection .nobody))).did
        (if stage.relay.slots.owner selection = .desktop then [.sent (.release selection)]
          else []))
  | install (stage : Stage) (selection : Selection) (holder : Holder)
    (clear : stage.relay.Clear selection)
    (owed : stage.duty = { owed := some (selection, holder) }) :
    Step stage ((stage.become (stage.relay.withSlots
      (stage.relay.slots.setHolder selection holder))).due {})
  | await (stage : Stage) (atom : Atom) (selection : Selection)
    (named : stage.relay.vocabulary.selection? atom = some selection)
    (vacant : stage.relay.slots.holder selection = .nobody) (idle : stage.duty = {}) :
    Step stage ((stage.did [.called (.convertSelection atom stage.relay.vocabulary.targets
      stage.relay.vocabulary.targets) ()]).become
        (stage.relay.withSlots (stage.relay.slots.await selection)))
  | countOff (stage : Stage) (selection : Selection) :
    Step stage (stage.become (stage.relay.withSlots (stage.relay.slots.arrive selection).2))
  | claim (stage : Stage) (selection : Selection) (property : Property) (words : List UInt32)
    (notices : List Notice) (idle : stage.duty = {})
    (current : (stage.relay.slots.arrive selection).1 = .current)
    (free : stage.relay.slots.owner selection ≠ .agent)
    (content : property.words? = some words)
    (known : stage.relay.registry.negotiate (words.map Atom.mk) ≠ [])
    (plain : ∀ notice ∈ notices, (Moment.mk stage.relay (.noted notice)).isPlain = true) :
    Step stage (((stage.become (stage.relay.withSlots
      (stage.relay.slots.arrive selection).2)).did
        (.called (.getProperty stage.relay.window stage.relay.vocabulary.targets true)
            (some property) ::
          notices.map .noted ++
          [.sent (.grab selection
            ((stage.relay.registry.negotiate (words.map Atom.mk)).map (·.1)))])).due
      (stage.duty.owing (some (selection,
          .desktop ((stage.relay.registry.negotiate (words.map Atom.mk)).map
            fun (type, target) => ⟨type, target⟩)))))

/-- What a failing call leaves behind. Nothing is due any more: the operation is over. -/
inductive Break : Stage → Stage → Prop where
  | call (stage : Stage) (asked : Call) (fault : Fault) :
    Break stage ((stage.did [.failed asked fault]).due {})
  | turnAway (stage : Stage) (event : SelectionRequest) (fault : Fault)
    (foreign : stage.relay.vocabulary.selection? event.selection = none) :
    Break stage ((stage.did [.called .pollEvent (some (.selectionRequest event)),
      .noted (.requestForUnknownSelection event.selection),
      .failed (.notifyRequestor event Atom.null) fault]).due {})
  | dropRequests (stage : Stage) (selection : Selection) (told untold : List DesktopRequest)
    (request : DesktopRequest) (fault : Fault)
    (found : stage.relay.requestsOf selection = told ++ request :: untold)
    (change : stage.relay.Reassigns selection stage.history) :
    Break stage (((stage.become (stage.relay.withoutRequests selection)).did
      (.noted (.about selection (.requestsDropped (stage.relay.requestsOf selection).length)) ::
        (told.map fun request => .called (.notifyRequestor request.event Atom.null) ()) ++
        [.failed (.notifyRequestor request.event Atom.null) fault])).due {})
  | chunk (stage : Stage) (writer : Incremental.Writer) (notice : Notice) (fault : Fault)
    (busy : stage.relay.writer = some writer)
    (plain : (Moment.mk stage.relay (.noted notice)).isPlain = true) :
    Break stage (((stage.become (stage.relay.withWriter
      (some (writer.advance stage.relay.propertyLimit)))).did
        [.noted notice, .failed (.changeProperty writer.requestor writer.property writer.target
          (.bytes (writer.chunk stage.relay.propertyLimit))) fault]).due {})
  | startFetch (stage : Stage) (fetch : Fetch) (rest : List Fetch) (atom : Atom) (fault : Fault)
    (front : stage.relay.fetches = fetch :: rest) :
    Break stage (((stage.become (stage.relay.withAbandoned
      (stage.relay.abandoned.filter (·.selection ≠ fetch.selection)))).did
        [.noted (.about fetch.selection (.converting fetch.target)),
          .failed (.convertSelection atom fetch.target atom) fault]).due {})

theorem Step.history_prefix {stage next : Stage} (step : Step stage next) :
    stage.history <+: next.history := by
  cases step with
  | dropRequests | dropFetches =>
    dsimp only
    split <;> exact List.prefix_append _ _
  | rest | skipStart | forget | read | countOff | install => exact List.prefix_rfl
  | _ => exact List.prefix_append _ _

theorem Break.history_prefix {stage next : Stage} (broke : Break stage next) :
    stage.history <+: next.history := by
  cases broke <;> exact List.prefix_append _ _

theorem Break.not_faultless {stage next : Stage} (broke : Break stage next) :
    next.history.faultless = false := by
  cases broke <;> simp [Stage.did, Stage.due, Stage.become, History.faultless, Deed.isFault]

abbrev Path : Stage → Stage → Prop :=
  Relation.ReflTransGen Step

def Broken (first last : Stage) : Prop :=
  ∃ stage, Path first stage ∧ Break stage last

namespace Stage

variable {α : Type}

def Reaches (origin : Stage) (post : α → Stage → Prop) (value : α) (relay : Relay)
    (history : History) : Prop :=
  ∃ duty, Path origin ⟨relay, duty, history⟩ ∧ post value ⟨relay, duty, history⟩

def Faults (origin : Stage) (relay : Relay) (history : History) : Prop :=
  Broken origin ⟨relay, {}, history⟩

end Stage

/-- An action takes steps only, from a stage to one where `post` holds, or breaks. -/
def Leads {δ α : Type} (stage : Stage) (action : Action δ α) (post : α → Stage → Prop) : Prop :=
  action.Ensures (stage.Reaches post) stage.Faults stage.relay stage.history

namespace Leads

variable {δ α : Type} {origin stage : Stage} {action : Action δ α} {post : α → Stage → Prop}

theorem andThen (h : Leads stage action post) (path : Path origin stage)
    {next : α → Relay → History → Prop}
    (hnext : ∀ value last, Path origin last → post value last →
      next value last.relay last.history) :
    action.Ensures next origin.Faults stage.relay stage.history := by
  refine Action.Ensures.mono h ?_ ?_
  · rintro value relay history ⟨duty, steps, holds⟩
    exact hnext value ⟨relay, duty, history⟩ (path.trans steps) holds
  · rintro relay history ⟨last, steps, broke⟩
    exact ⟨last, path.trans steps, broke⟩

theorem after (h : Leads stage action post) (path : Path origin stage) :
    action.Ensures (origin.Reaches post) origin.Faults stage.relay stage.history :=
  h.andThen path fun _ last steps holds => ⟨last.duty, steps, holds⟩

theorem andThen_spared (h : Leads stage action post) {σ : Type} {kept : Relay → σ}
    {apart : Deed → Bool} (hspares : action.Spares kept apart) (path : Path origin stage)
    {next : α → Relay → History → Prop}
    (hnext : ∀ value last added, Path origin last → post value last →
      kept last.relay = kept stage.relay → last.history = stage.history ++ added →
      (∀ moment ∈ added, apart moment.deed = true) → next value last.relay last.history) :
    action.Ensures next origin.Faults stage.relay stage.history := by
  have hspared := hspares.yields_spared (.refl : Spared kept apart stage.relay stage.history _ _)
  refine (Action.Ensures.and h hspared).mono ?_ ?_
  · rintro value relay history ⟨⟨duty, steps, holds⟩, hkept, added, hhistory, hadded⟩
    exact hnext value ⟨relay, duty, history⟩ added (path.trans steps) holds hkept hhistory
      fun moment hmoment => (hadded moment hmoment).1
  · rintro relay history ⟨⟨last, steps, broke⟩, -⟩
    exact ⟨last, path.trans steps, broke⟩

end Leads

namespace Stage

variable {origin stage : Stage}

theorem did_lately {ends : Deed → Bool} {holds : Moment → Prop} (stage : Stage) (deed : Deed)
    (h : holds ⟨stage.relay, deed⟩) : (stage.did [deed]).history.Lately ends holds :=
  .now h

theorem faults_call (path : Path origin stage) (asked : Call) (fault : Fault) :
    origin.Faults stage.relay (stage.history ++ [⟨stage.relay, .failed asked fault⟩]) :=
  ⟨stage, path, .call stage asked fault⟩

theorem path_remark (path : Path origin stage) (selection : Selection) (what : Remark)
    (plain : (Moment.mk stage.relay (.noted (.about selection what))).isPlain = true) :
    Path origin (stage.did [.noted (.about selection what)]) :=
  path.tail (.plain stage _ plain)

theorem path_noted (path : Path origin stage) (notices : List Notice)
    (plain : ∀ notice ∈ notices, (Moment.mk stage.relay (.noted notice)).isPlain = true) :
    Path origin { stage with
      history := stage.history ++ notices.map fun notice => ⟨stage.relay, .noted notice⟩ } := by
  induction notices generalizing stage with
  | nil => simpa using path
  | cons notice notices ih =>
    have first := path.tail (.plain stage (.noted notice) (plain notice List.mem_cons_self))
    have rest := ih first fun other h => plain other (List.mem_cons_of_mem _ h)
    simpa only [did, List.append_assoc, List.map_cons, List.map_nil, List.cons_append,
      List.nil_append] using rest

end Stage

end ClipboardRelay
