import ClipboardRelay.Proofs.Stage
import ClipboardRelay.Relay.Serve
/-!
The steps that serving desktop applications takes.
-/

namespace ClipboardRelay.Relay

variable {δ : Type}

theorem refuse_ensures {origin stage : Stage} (path : Path origin stage)
    {request : DesktopRequest} {rest : List DesktopRequest}
    (front : stage.relay.requests = request :: rest)
    (free : stage.duty.serve = true ∨ stage.relay.writer = none) :
    (refuse request.event : Action δ Unit).Ensures
      (fun _ relay history => relay = stage.relay ∧
        Path origin ⟨relay.withRequests rest, stage.duty.serving true, history⟩)
      origin.Faults stage.relay stage.history := by
  refine ⟨fun _ => ⟨rfl, ?_⟩, fun fault => Stage.faults_call path _ fault⟩
  exact path.tail (.settle stage request rest Atom.null front free (.inl rfl))

theorem sendTargets_ensures (stage : Stage) (request : DesktopRequest)
    (rest : List DesktopRequest) (front : stage.relay.requests = request :: rest)
    (due : stage.duty.serve = true)
    (owned : stage.relay.slots.owner request.selection = .agent) :
    (sendTargets request.selection request.event : Action δ Unit).Ensures
      (fun _ relay history => relay = stage.relay ∧
        Path stage ⟨relay.withRequests rest, stage.duty.serving true, history⟩)
      stage.Faults stage.relay stage.history := by
  unfold sendTargets
  simp only [Action.ensures_bind, ensures_current, remarkTargets]
  generalize stage.relay.vocabulary.targets ::
    stage.relay.registry.targetsFor (stage.relay.slots.types request.selection) = targets
  refine ⟨fun _ => ?_, fun fault => Stage.faults_call .refl _ fault⟩
  have stored : Path stage _ := .single (.store stage request rest Atom.atomType
    (.words (targets.map (·.number))) front (.inr owned))
  have listed := Stage.path_noted stored (.about request.selection (.targetsSent targets.length) ::
    targets.map fun target => .about request.selection (.listed target)) (by
      intro notice h
      rcases List.mem_cons.mp h with rfl | h
      · rfl
      · obtain ⟨target, _, rfl⟩ := List.mem_map.mp h
        rfl)
  refine ⟨fun _ => ⟨rfl, ?_⟩, fun fault => Stage.faults_call listed _ fault⟩
  exact listed.tail (.settle _ request rest request.event.replyProperty front (.inl due)
    (.inr rfl))

theorem serve_ensures (stage : Stage) (request : DesktopRequest) (rest : List DesktopRequest)
    (front : stage.relay.requests = request :: rest) (due : stage.duty.serve = true) :
    (serve request : Action δ Progress).Ensures
      (fun progress relay history => relay = stage.relay ∧
        match progress with
        | .waiting => Path stage ⟨relay, stage.duty.serving false, history⟩
        | .answered =>
          Path stage ⟨relay.withRequests rest, stage.duty.serving true, history⟩)
      stage.Faults stage.relay stage.history := by
  have refused (what : Remark)
      (plain : (Moment.mk stage.relay (.noted (.about request.selection what))).isPlain = true) :=
    refuse_ensures (δ := δ) (.single (.plain stage _ plain)) front (.inl due)
  unfold serve
  simp only [Action.ensures_bind, ensures_current, ite_not]
  split
  case isFalse notOwned => exact refused _ rfl
  case isTrue owned =>
    split
    case isTrue multiple => exact (Action.ensures_bind _ _).mpr (refused _ rfl)
    case isFalse single =>
      split
      case isTrue listing =>
        exact (Action.ensures_bind _ _).mpr
          (sendTargets_ensures stage request rest front due owned)
      case isFalse content =>
        split
        case h_1 unknown => exact (Action.ensures_bind _ _).mpr (refused _ rfl)
        case h_2 type known =>
          exact ⟨rfl, .single (.ask stage request rest type due front owned single content known)⟩

theorem serveFrom_leads (queue : List DesktopRequest) (stage : Stage)
    (hqueue : stage.relay.requests = queue) (due : stage.duty.serve = true) :
    Leads stage (serveFrom queue : Action δ Unit) fun _ last =>
      last.duty = stage.duty.serving false ∧
        last.relay = stage.relay.withRequests last.relay.requests ∧
        last.relay.requests <:+ queue := by
  induction queue generalizing stage with
  | nil =>
    refine ⟨stage.duty.serving false, .single (.rest stage due hqueue), rfl, rfl, ?_⟩
    exact hqueue ▸ List.suffix_refl _
  | cons request rest ih =>
    unfold Leads serveFrom
    simp only [Action.ensures_bind]
    refine (serve_ensures stage request rest hqueue due).mono ?_ fun _ _ h => h
    rintro progress relay history ⟨rfl, path⟩
    cases progress with
    | waiting =>
      refine ⟨stage.duty.serving false, path, rfl, rfl, ?_⟩
      exact hqueue ▸ List.suffix_refl _
    | answered =>
      have hrest := ih ⟨stage.relay.withRequests rest, stage.duty.serving true, history⟩ rfl rfl
      apply hrest.andThen path
      rintro _ ⟨relay, duty, history⟩ steps ⟨hduty, hrelay, hsuffix⟩
      exact ⟨duty, steps, hduty, hrelay, hsuffix.trans (List.suffix_cons request rest)⟩

theorem serveRequests_leads (stage : Stage) (due : stage.duty.serve = true) :
    Leads stage (serveRequests : Action δ Unit) fun _ last =>
      last.duty = stage.duty.serving false ∧
        last.relay = stage.relay.withRequests last.relay.requests ∧
        last.relay.requests <:+ stage.relay.requests := by
  unfold Leads serveRequests
  simp only [Action.ensures_bind, ensures_current]
  exact serveFrom_leads stage.relay.requests stage rfl due

theorem queueRequest_ensures (stage : Stage) (event : SelectionRequest) (idle : stage.duty = {}) :
    (queueRequest event : Action δ Unit).Ensures (stage.Reaches fun _ last => last.duty = {})
      stage.Faults stage.relay
      (stage.history ++
        [⟨stage.relay, .called .pollEvent (some (.selectionRequest event))⟩]) := by
  unfold queueRequest
  simp only [Action.ensures_bind, ensures_current]
  split
  case h_1 foreign =>
    simp only [Action.ensures_bind, ensures_note]
    rw [List.append_assoc]
    refine ⟨fun _ => ?_, fun fault => ?_⟩
    · have turned := Step.turnAway stage event foreign
      simp only [Stage.did, idle] at turned
      rw [List.append_assoc]
      exact ⟨{}, .single turned, rfl⟩
    · refine ⟨stage, .refl, ?_⟩
      simpa [Stage.did, Stage.due] using Break.turnAway stage event fault foreign
  case h_2 selection bridged =>
    have arrived := Step.arrive stage event selection bridged idle
    simp only [Action.ensures_bind, ensures_update]
    split
    case isTrue empty =>
      rw [empty] at arrived
      apply (serveRequests_leads _ rfl).andThen (.single arrived)
      rintro _ ⟨relay, duty, history⟩ path ⟨rfl, -⟩
      exact ⟨_, path, by simp [Stage.due, idle, Duty.serving]⟩
    case isFalse waiting =>
      rw [Bool.not_eq_true] at waiting
      rw [waiting] at arrived
      exact ⟨_, .single arrived, by simp [idle, Duty.serving]⟩

theorem refuseAll_ensures {post : Unit → Relay → History → Prop}
    {broken : Relay → History → Prop} {relay : Relay} {history : History}
    (requests : List DesktopRequest)
    (hpost : post () relay (history ++ requests.map fun request =>
      ⟨relay, .called (.notifyRequestor request.event Atom.null) ()⟩))
    (hbroken : ∀ told request untold fault, requests = told ++ request :: untold →
      broken relay (history ++
        (told.map fun request => ⟨relay, .called (.notifyRequestor request.event Atom.null) ()⟩) ++
        [⟨relay, .failed (.notifyRequestor request.event Atom.null) fault⟩])) :
    (refuseAll (requests.map (·.event)) : Action δ Unit).Ensures post broken relay history := by
  induction requests generalizing history with
  | nil => simpa [refuseAll] using hpost
  | cons request requests ih =>
    simp only [List.map_cons, refuseAll, Action.ensures_bind]
    refine ⟨fun _ => ih ?_ ?_, fun fault => ?_⟩
    · simpa using hpost
    · intro told other untold fault h
      simpa using hbroken (request :: told) other untold fault (by simp [h])
    · simpa using hbroken [] request requests fault rfl

theorem dropRequests_leads (stage : Stage) (selection : Selection)
    (served : stage.duty.serve = false) (change : stage.relay.Reassigns selection stage.history) :
    Leads stage (dropRequests selection : Action δ Unit) fun _ last =>
      last.duty = stage.duty ∧
        last.relay = (stage.relay.withRequests last.relay.requests).withWriter last.relay.writer ∧
        ∀ request ∈ last.relay.requests, request.selection ≠ selection := by
  unfold Leads dropRequests
  simp only [Action.ensures_bind, ensures_current]
  split
  case isTrue none =>
    refine ⟨stage.duty, .refl, rfl, rfl, ?_⟩
    simpa [List.filter_eq_nil_iff] using none
  case isFalse found =>
    have hof : stage.relay.requests.filter (·.selection = selection) =
      stage.relay.requestsOf selection := rfl
    rw [hof] at found
    rw [hof, Action.ensures_bind, ensures_update]
    change Action.Ensures _ _ _ (stage.relay.withoutRequests selection) _
    simp only [Action.ensures_bind, ensures_remark]
    refine refuseAll_ensures (stage.relay.requestsOf selection) ?_ ?_
    · have dropped := Step.dropRequests stage selection (by simpa using found) served change
      simp only [Stage.did, Stage.become, List.map_cons, List.map_map, Function.comp_def]
        at dropped
      rw [List.append_assoc, List.singleton_append]
      split
      case isTrue active =>
        rw [if_pos active] at dropped
        simp only [Action.ensures_bind, ensures_update]
        apply (serveRequests_leads _ rfl).andThen (.single dropped)
        rintro _ ⟨relay, duty, history⟩ path ⟨hduty, hrelay, hsuffix⟩
        refine ⟨duty, path, ?_, ?_, ?_⟩
        · rw [hduty]
          simp [Stage.due, Duty.serving, ← served]
        · rw [hrelay]
          rfl
        · intro request h
          simpa using (List.mem_filter.mp (hsuffix.subset h)).2
      case isFalse other =>
        rw [if_neg other] at dropped
        refine ⟨_, .single dropped, rfl, rfl, ?_⟩
        simp [withoutRequests, withRequests]
    · intro told request untold fault h
      refine ⟨stage, .refl, ?_⟩
      simpa [Stage.did, Stage.due, Stage.become, Function.comp_def] using
        Break.dropRequests stage selection told untold request fault h change

theorem finishRequest_ensures {origin : Stage} {relay : Relay} {duty : Duty} {history : History}
    (path : Path origin
      ⟨relay.withRequests relay.requests.tail, duty.serving true, history⟩) :
    (finishRequest : Action δ Unit).Ensures
      (origin.Reaches fun _ last => last.duty = duty.serving false) origin.Faults relay
      history := by
  unfold finishRequest
  simp only [Action.ensures_bind, ensures_update]
  apply (serveRequests_leads _ rfl).andThen path
  rintro _ ⟨relay, after, history⟩ steps ⟨hduty, -⟩
  exact ⟨after, steps, hduty⟩

theorem startSending_leads (stage : Stage) (request : DesktopRequest)
    (rest : List DesktopRequest) (data : Bytes)
    (front : stage.relay.requests = request :: rest) (served : stage.duty.serve = false)
    (free : stage.relay.writer = none) :
    Leads stage (startSending request.selection request.event data : Action δ Unit) fun _ last =>
      last.duty = stage.duty := by
  unfold Leads startSending
  simp only [Action.ensures_bind, ensures_current, ensures_remark]
  have noted : Path stage _ := .single (.plain stage
    (.noted (.about request.selection (.sendingStarted data.length))) rfl)
  refine ⟨fun _ => ?_, fun fault => Stage.faults_call noted _ fault⟩
  have watched := noted.tail (.plain _
    (.called (.watchProperties request.event.requestor) ()) rfl)
  refine ⟨fun _ => ?_, fun fault => Stage.faults_call watched _ fault⟩
  have stored := watched.tail (.store _ request rest stage.relay.vocabulary.incr
    (.words [UInt32.ofNat (min data.length (UInt32.size - 1))]) front (.inl served))
  refine ⟨fun _ => ?_, fun fault => Stage.faults_call stored _ fault⟩
  exact ⟨stage.duty, stored.tail (.announce _ request rest data front served free), rfl⟩

theorem sendWhole_leads (stage : Stage) (request : DesktopRequest) (rest : List DesktopRequest)
    (data : Bytes) (front : stage.relay.requests = request :: rest)
    (served : stage.duty.serve = false) (free : stage.relay.writer = none) :
    Leads stage (sendWhole request.event data : Action δ Unit) fun _ last =>
      last.duty = stage.duty := by
  unfold Leads sendWhole
  simp only [Action.ensures_bind]
  refine ⟨fun _ => ?_, fun fault => Stage.faults_call .refl _ fault⟩
  have stored : Path stage _ := .single (.store stage request rest request.event.target
    (.bytes data) front (.inl served))
  refine ⟨fun _ => ?_, fun fault => Stage.faults_call stored _ fault⟩
  have settled := stored.tail (.settle _ request rest request.event.replyProperty front
    (.inr free) (.inr rfl))
  have hserved : stage.duty.serving false = stage.duty := by simp [Duty.serving, ← served]
  rw [← hserved]
  apply finishRequest_ensures
  rw [front]
  exact settled

theorem refuse_finishRequest_ensures {origin stage : Stage} (path : Path origin stage)
    {request : DesktopRequest} {rest : List DesktopRequest}
    (front : stage.relay.requests = request :: rest) (served : stage.duty.serve = false)
    (free : stage.relay.writer = none) :
    (do refuse request.event; finishRequest : Action δ Unit).Ensures
      (origin.Reaches fun _ last => last.duty = stage.duty) origin.Faults stage.relay
      stage.history := by
  have hserved : stage.duty.serving false = stage.duty := by simp [Duty.serving, ← served]
  rw [Action.ensures_bind, ← hserved]
  refine (refuse_ensures path front (.inr free)).mono ?_ fun _ _ h => h
  rintro _ relay history ⟨rfl, settled⟩
  apply finishRequest_ensures
  rw [front]
  exact settled

theorem deliver_leads (stage : Stage) (selection : Selection) (type : ContentType) (data : Bytes)
    (served : stage.duty.serve = false) :
    Leads stage (deliver selection type data : Action δ Unit) fun _ last =>
      last.duty = stage.duty := by
  have here : Path stage stage := .refl
  unfold Leads deliver
  simp only [Action.ensures_bind, ensures_current]
  split
  case h_1 writer busy =>
    split
    · exact ⟨stage.duty, Stage.path_remark here selection .dataWhileSending rfl, rfl⟩
    · exact ⟨stage.duty, .refl, rfl⟩
  case h_2 free empty =>
    split
    · exact ⟨stage.duty, Stage.path_remark here selection .dataUnasked rfl, rfl⟩
    · exact ⟨stage.duty, .refl, rfl⟩
  case h_3 request rest free front =>
    split
    case isTrue fits =>
      obtain ⟨rfl, -⟩ := fits
      split
      · exact startSending_leads stage request rest data front served free
      · exact sendWhole_leads stage request rest data front served free
    case isFalse =>
      generalize (stage.relay.registry.typeFor request.event.target).getD .none = expected
      have other := Stage.path_remark here selection (.dataForOther request.selection) rfl
      have wrong := Stage.path_remark here selection (.dataOfOtherType expected type) rfl
      split
      · rw [Action.ensures_bind, ensures_remark]
        split
        · rw [Action.ensures_bind, ensures_remark]
          exact refuse_finishRequest_ensures (Stage.path_remark other selection
            (.dataOfOtherType expected type) rfl) front served free
        · exact refuse_finishRequest_ensures other front served free
      · split
        · rw [Action.ensures_bind, ensures_remark]
          exact refuse_finishRequest_ensures wrong front served free
        · exact refuse_finishRequest_ensures .refl front served free

theorem handleDeleted_leads (stage : Stage) (window : Window) (property : Atom)
    (served : stage.duty.serve = false) :
    Leads stage (handleDeleted window property : Action δ Unit) fun _ last =>
      last.duty = stage.duty := by
  have hserved : stage.duty.serving false = stage.duty := by simp [Duty.serving, ← served]
  unfold Leads handleDeleted
  simp only [Action.ensures_bind, ensures_current]
  split
  case h_1 free => exact ⟨stage.duty, .refl, rfl⟩
  case h_2 writer busy =>
    split
    case isFalse other => exact ⟨stage.duty, .refl, rfl⟩
    case isTrue concerned =>
      simp only [Action.ensures_bind, ensures_update, ensures_note]
      refine ⟨fun _ => ?_, fun fault => ?_⟩
      · change Action.Ensures _ _ (if (writer.chunk stage.relay.propertyLimit).isEmpty then
          (do update fun relay => { relay with writer := none }
              finishRequest) else pure ()) _ _
        split
        case isTrue done =>
          have last := Step.lastChunk stage writer busy served done
          rw [Action.ensures_bind, ensures_update, ← hserved]
          refine finishRequest_ensures (.single ?_)
          simpa [Stage.did, Stage.due, Stage.become, withRequests, withWriter] using last
        case isFalse more =>
          rw [Bool.not_eq_true] at more
          have chunk := Step.chunk stage writer busy served more
          refine ⟨stage.duty, .single ?_, rfl⟩
          simpa [Stage.did, Stage.become, withWriter] using chunk
      · refine ⟨stage, .refl, ?_⟩
        simpa [Stage.did, Stage.due, Stage.become, withWriter] using
          Break.chunk stage writer _ fault busy (by split <;> rfl)

end ClipboardRelay.Relay
