import ClipboardRelay.Proofs.Course
import ClipboardRelay.Proofs.Owning
/-!
The steps that whole operations take. Main statement: what every step keeps, and every failing call,
holds after every run of a relay. A run in which no call failed takes steps only.
-/

namespace ClipboardRelay.Relay

variable {δ : Type}

theorem reportResolution_leads (stage : Stage) (idle : stage.duty = {}) :
    Leads stage (reportResolution : Action δ Unit) fun _ last => last.duty = {} :=
  ⟨stage.duty, .single (.report stage stage.relay.size), idle⟩

theorem handleResize_leads (stage : Stage) (size : ScreenSize) (idle : stage.duty = {}) :
    Leads stage (handleResize size : Action δ Unit) fun _ last => last.duty = {} := by
  unfold Leads handleResize
  rw [Action.ensures_bind, ensures_current]
  split
  · exact ⟨stage.duty, .refl, idle⟩
  · exact ⟨stage.duty, .single (.report stage size), idle⟩

theorem handle_ensures (stage : Stage) (event : Event) (idle : stage.duty = {}) :
    (handle event : Action δ Unit).Ensures (stage.Reaches fun _ last => last.duty = {})
      stage.Faults stage.relay
      (stage.history ++ [⟨stage.relay, .called .pollEvent (some event)⟩]) := by
  have served : stage.duty.serve = false := by rw [idle]
  have started : stage.duty.start = false := by rw [idle]
  have polled (plain : (Moment.mk stage.relay (.called .pollEvent (some event))).isPlain = true) :
      Path stage _ := .single (.plain stage _ plain)
  cases event with
  | selectionRequest request => exact queueRequest_ensures stage request idle
  | ownerChanged selection owner =>
    have h := (handleOwner_leads (δ := δ) _ selection owner (by exact idle)
      (stage.did_lately _ rfl)).after (polled rfl)
    exact h
  | selectionNotify notify =>
    simp only [handle]
    rw [Action.ensures_bind, ensures_current]
    split
    case isTrue targets =>
      have h := (handleTargets_leads (δ := δ) (stage.did _) notify (by exact idle) targets
        (stage.did_lately _ rfl)).after (polled rfl)
      exact h
    case isFalse =>
      have h := (handleConversion_leads (δ := δ) _ notify (by exact started)).after (polled rfl)
      rw [← idle]
      exact h
  | propertyStored window property =>
    have h := (handleStored_leads (δ := δ) _ window property (by exact started)).after (polled rfl)
    rw [← idle]
    exact h
  | propertyDeleted window property =>
    have h := (handleDeleted_leads (δ := δ) _ window property (by exact served)).after (polled rfl)
    rw [← idle]
    exact h
  | rootResized size =>
    have h := (handleResize_leads (δ := δ) _ size (by exact idle)).after (polled rfl)
    exact h
  | protocolError text =>
    exact ⟨stage.duty, (polled rfl).tail (.plain _ (.noted (.protocolError text)) rfl), idle⟩
  | other kind =>
    exact ⟨stage.duty, (polled rfl).tail (.plain _ (.noted (.unhandledEvent kind)) rfl), idle⟩
  | selectionCleared selection => exact ⟨stage.duty, polled rfl, idle⟩
  | mappingChanged => exact ⟨stage.duty, polled rfl, idle⟩

theorem drain_leads (fuel : Nat) (stage : Stage) (idle : stage.duty = {}) :
    Leads stage (drain fuel : Action δ Unit) fun _ last => last.duty = {} := by
  induction fuel generalizing stage with
  | zero => exact ⟨stage.duty, .refl, idle⟩
  | succ fuel ih =>
    unfold Leads drain
    refine ensures_call_bind (fun _ => ?_) fun fault => Stage.faults_call .refl _ fault
    have flushed : Path stage _ := .single (.plain stage (.called .flush ()) rfl)
    refine ensures_call_bind (fun event => ?_) fun fault => Stage.faults_call flushed _ fault
    split
    case h_1 =>
      exact ⟨stage.duty, flushed.tail (.plain _ (.called .pollEvent none) rfl), idle⟩
    case h_2 event =>
      rw [Action.ensures_bind]
      have handled := handle_ensures (δ := δ) (stage.did [.called .flush ()]) event idle
      refine handled.mono ?_ ?_
      · rintro _ relay history ⟨duty, path, hduty⟩
        exact (ih ⟨relay, duty, history⟩ hduty).after (flushed.trans path)
      · rintro relay history ⟨last, path, broke⟩
        exact ⟨last, flushed.trans path, broke⟩

variable [Display δ]

theorem dispatch_leads (stage : Stage) (idle : stage.duty = {}) :
    Leads stage (dispatch : Action δ Unit) fun _ last => last.duty = {} := by
  unfold Leads dispatch
  rw [Action.ensures_bind, ensures_display]
  exact fun display => drain_leads _ stage idle

theorem dispatch_ensures {origin : Stage} {relay : Relay} {history : History}
    (path : Path origin ⟨relay, {}, history⟩) :
    (dispatch : Action δ Unit).Ensures (origin.Reaches fun _ last => last.duty = {})
      origin.Faults relay history :=
  (dispatch_leads ⟨relay, {}, history⟩ rfl).after path

/-- What an operation promises when it has just begun: it leaves nothing to do. -/
abbrev Completes (stage : Stage) (operation : Operation) (action : Action δ Unit) : Prop :=
  action.Ensures (stage.Reaches fun _ last => last.duty = {}) stage.Faults stage.relay
    (stage.history ++ [⟨stage.relay, .began operation⟩])

theorem grab_completes (stage : Stage) (operation : Operation) (selection : Selection)
    (types : List ContentType) (idle : stage.duty = {}) (asks : operation.question? = none)
    (grabs : operation.grab? = some (selection, types)) :
    Completes stage operation (grab selection types : Action δ Unit) := by
  have plainly (untaken : stage.relay.taken? operation = none) : Path stage _ :=
    .single (.plain stage (.began operation) (by simp [Moment.isPlain, asks, untaken]))
  unfold Completes grab
  rw [Action.ensures_bind, ensures_current]
  split
  case h_1 unbridged =>
    have began := plainly (by simp [taken?, grabs, unbridged])
    exact ⟨stage.duty, began.tail (.plain _ (.noted (.about selection .grabUnsupported)) rfl), idle⟩
  case h_2 atom bridged =>
    dsimp only
    split
    case isTrue empty =>
      have began := plainly (by simp [taken?, grabs, List.isEmpty_iff.mp empty])
      exact ⟨stage.duty, began.tail (.plain _ (.noted (.about selection .grabEmpty)) rfl), idle⟩
    case isFalse offered =>
      have taken : stage.relay.taken? operation =
          some (selection, ContentType.distinct types) := by
        simpa [taken?, grabs, bridged, List.isEmpty_iff] using offered
      have promised : Path stage _ :=
        .single (.promise stage operation selection (ContentType.distinct types) taken idle)
      refine ensures_call_bind (fun _ => ?_) fun fault => Stage.faults_call promised _ fault
      have owned := promised.tail (.plain _
        (.called (.setSelectionOwner atom stage.relay.window) ()) rfl)
      rw [Action.ensures_bind]
      have took : History.Lately Deed.isTurn (fun moment => ∃ operation types,
          moment.deed = .began operation ∧
            moment.relay.taken? operation = some (selection, types))
          (stage.history ++ [⟨stage.relay, .began operation⟩]) :=
        .now ⟨operation, _, rfl, taken⟩
      refine (changeHolder_leads _ selection (.agent (ContentType.distinct types))
        (by exact .inr ⟨by simp [Holder.owner], by rw [idle]; rfl⟩)
        (.grabbed (took.append (by simp [Deed.isTurn])))).andThen owned ?_
      rintro _ ⟨relay, _, history⟩ path ⟨rfl, -⟩
      exact dispatch_ensures path

theorem release_leads (stage : Stage) (selection : Selection) (idle : stage.duty = {})
    (gave : stage.history.Lately Deed.begins fun moment => ∃ operation,
      moment.deed = .began operation ∧ operation.release? = some selection) :
    Leads stage (release selection : Action δ Unit) fun _ last => last.duty = {} := by
  unfold Leads release
  rw [Action.ensures_bind, ensures_current]
  split
  case h_1 unbridged =>
    exact ⟨stage.duty, .single (.plain _
      (.noted (.about selection .releaseUnsupported)) rfl), idle⟩
  case h_2 atom bridged =>
    split
    case isTrue foreign =>
      exact ⟨stage.duty, .single (.plain _
        (.noted (.about selection .releaseNotOwned)) rfl), idle⟩
    case isFalse own =>
      refine ensures_call_bind (fun _ => ?_) fun fault => Stage.faults_call .refl _ fault
      have given : Path stage _ := .single (.plain stage
        (.called (.setSelectionOwner atom Window.null) ()) rfl)
      refine ensures_call_bind (fun _ => ?_) fun fault => Stage.faults_call given _ fault
      have synced := given.tail (.plain _ (.called .sync ()) rfl)
      rw [Action.ensures_bind]
      apply (dispatch_leads _ (by exact idle)).andThen_spared
        (dispatch : Action δ Unit).spares_begun synced
      rintro _ ⟨relay, _, history⟩ added path ⟨rfl⟩ - hadded hbegun
      have hhistory : history = stage.history ++ [⟨stage.relay, .called
        (.setSelectionOwner atom Window.null) ()⟩] ++ [⟨stage.relay, .called .sync ()⟩] ++ added :=
        hadded
      have gave : history.Lately Deed.begins fun moment => ∃ operation,
          moment.deed = .began operation ∧ operation.release? = some selection := by
        rw [hhistory, List.append_assoc, List.append_assoc]
        refine gave.append ?_
        simpa [Deed.begins] using hbegun
      rw [Action.ensures_bind, ensures_current]
      split
      case isFalse seen => exact dispatch_ensures path
      case isTrue unseen =>
        have noted := path.tail (.plain _ (.noted (.about selection .releaseUnseen)) rfl)
        rw [Action.ensures_bind, ensures_remark, Action.ensures_bind]
        have change : relay.Reassigns selection
            (history ++ [⟨relay, .noted (.about selection .releaseUnseen)⟩]) :=
          .released (gave.append (by simp [Deed.begins])) (.now rfl) unseen
        refine (changeHolder_leads _ selection .nobody (by exact .inl ⟨rfl, rfl⟩) change).andThen
          noted ?_
        rintro _ ⟨relay, _, history⟩ path ⟨rfl, -⟩
        exact dispatch_ensures path

theorem ask_completes (stage : Stage) (operation : Operation) (selection : Selection)
    (type : ContentType) (idle : stage.duty = {})
    (asks : operation.question? = some (selection, type)) :
    Completes stage operation (ask selection type : Action δ Unit) := by
  have declined (remark : Remark)
      (plain : (Moment.mk stage.relay (.noted (.about selection remark))).isPlain = true)
      (h : stage.relay.fetch? selection type = none) :
      (dispatch : Action δ Unit).Ensures (stage.Reaches fun _ last => last.duty = {})
        stage.Faults stage.relay (stage.history ++ [⟨stage.relay, .began operation⟩] ++
          [⟨stage.relay, .noted (.about selection remark)⟩] ++
          [⟨stage.relay, .sent (.noData selection)⟩]) := by
    have path : Path stage _ :=
      .single (.decline stage operation selection type remark asks h plain)
    apply dispatch_ensures
    simpa [Stage.did, ← idle] using path
  unfold Completes ask
  rw [Action.ensures_bind, ensures_current]
  split
  case isTrue unbridged =>
    simp only [Action.ensures_bind, ensures_remark, sendNoData, ensures_send]
    exact declined _ rfl (by simp [fetch?, Option.isNone_iff_eq_none.mp unbridged])
  case isFalse bridged =>
    split
    case isTrue foreign =>
      simp only [Action.ensures_bind, ensures_remark, sendNoData, ensures_send]
      exact declined _ rfl (by simp [fetch?, Holder.targetFor?_eq_none foreign])
    case isFalse own =>
      split
      case h_1 unavailable =>
        simp only [Action.ensures_bind, ensures_remark, sendNoData, ensures_send]
        exact declined _ rfl (by simp [fetch?, unavailable])
      case h_2 target available =>
        rw [Action.ensures_bind]
        have accepted : stage.relay.fetch? selection type = some ⟨selection, target⟩ := by
          rw [Option.isNone_iff_eq_none, ← ne_eq, Option.ne_none_iff_isSome] at bridged
          simp [fetch?, bridged, available]
        refine (queueFetch_ensures stage operation selection type ⟨selection, target⟩ asks
          accepted idle).mono ?_ fun _ _ h => h
        rintro _ relay history ⟨_, path, ⟨rfl⟩⟩
        exact dispatch_ensures path

theorem supply_leads (stage : Stage) (selection : Selection) (type : ContentType) (data : Bytes)
    (idle : stage.duty = {}) :
    Leads stage (supply selection type data : Action δ Unit) fun _ last => last.duty = {} := by
  unfold Leads supply
  rw [Action.ensures_bind]
  apply (deliver_leads stage selection type data (by rw [idle])).andThen .refl
  rintro _ ⟨relay, duty, history⟩ path rfl
  rw [idle] at path
  exact dispatch_ensures path

theorem fitScreen_leads (stage : Stage) (monitor : Monitor) (idle : stage.duty = {}) :
    Leads stage (fitScreen monitor : Action δ Unit) fun _ last => last.duty = {} := by
  unfold Leads fitScreen
  refine ensures_call_bind (fun sizes => ?_) fun fault => Stage.faults_call .refl _ fault
  have listed : Path stage _ := .single (.plain stage (.called .screenSizes sizes) rfl)
  split
  · exact ⟨stage.duty, listed.tail (.plain _ (.noted .noScreenSizes) rfl), idle⟩
  split
  case h_1 => exact ⟨stage.duty, listed.tail (.plain _ (.noted (.noFit _ _)) rfl), idle⟩
  case h_2 index _ =>
    refine ensures_call_bind (fun _ => ?_) fun fault => Stage.faults_call listed _ fault
    have resized := listed.tail (.plain _ (.called (.setScreenSize index) ()) rfl)
    have reported := resized.tail (.report _ (List.getD sizes index stage.relay.size))
    rw [Action.ensures_bind, ensures_update, Action.ensures_bind]
    exact dispatch_ensures (idle ▸ reported)

theorem applyMonitors_leads (stage : Stage) (layout : MonitorLayout) (idle : stage.duty = {}) :
    Leads stage (applyMonitors layout : Action δ Unit) fun _ last => last.duty = {} := by
  unfold Leads applyMonitors
  rw [Action.ensures_bind, ensures_display]
  intro display
  split
  case isFalse rigid => exact ⟨stage.duty, .single (.plain stage (.noted .noRandr) rfl), idle⟩
  case isTrue flexible =>
    split
    case h_1 empty => exact ⟨stage.duty, .single (.plain stage (.noted .noMonitors) rfl), idle⟩
    case h_2 monitor others _ =>
      split
      · have extra : Path stage _ := .single (.plain stage (.noted .extraMonitors) rfl)
        have fitted := (fitScreen_leads (δ := δ) _ monitor (by exact idle)).after extra
        exact fitted
      · exact fitScreen_leads stage monitor idle

omit [Display δ] in
theorem vacate_leads (stage : Stage) (selection : Selection) (idle : stage.duty = {})
    (shut : stage.history.Lately Deed.isTurn (·.deed = .began .shutdown)) :
    Leads stage (vacate selection : Action δ Unit) fun _ last => last.duty = {} := by
  unfold Leads vacate
  rw [Action.ensures_bind, ensures_current]
  have vacated {history : History} (path : Path stage ⟨stage.relay, stage.duty, history⟩)
      (shut : history.Lately Deed.isTurn (·.deed = .began .shutdown)) :
      (changeHolder selection .nobody : Action δ Unit).Ensures
        (stage.Reaches fun _ last => last.duty = {}) stage.Faults stage.relay history := by
    refine (changeHolder_leads _ selection .nobody (by exact .inl ⟨rfl, idle⟩)
      (.ended shut)).andThen path ?_
    rintro _ last steps ⟨hduty, -⟩
    exact ⟨last.duty, steps, hduty⟩
  split
  case h_1 atom own bridged =>
    refine ensures_call_bind (fun _ => ?_) fun fault => Stage.faults_call .refl _ fault
    exact vacated (.single (.plain stage (.called (.setSelectionOwner atom Window.null) ()) rfl))
      (shut.append (by simp [Deed.isTurn]))
  case h_2 => exact vacated .refl shut

theorem shutdown_leads (stage : Stage) (idle : stage.duty = {})
    (shut : stage.history.Lately Deed.isTurn (·.deed = .began .shutdown)) :
    Leads stage (shutdown : Action δ Unit) fun _ last => last.duty = {} := by
  unfold Leads shutdown
  rw [Action.ensures_bind]
  apply (vacate_leads stage .clipboard idle shut).andThen_spared (vacate_spares .clipboard) .refl
  rintro _ ⟨relay, _, history⟩ added path ⟨rfl⟩ - hadded hquiet
  have shut : history.Lately Deed.isTurn (·.deed = .began .shutdown) := by
    have hhistory : history = stage.history ++ added := hadded
    rw [hhistory]
    exact shut.append fun moment hmoment => Deed.not_turn_of_leaving (hquiet moment hmoment)
  rw [Action.ensures_bind]
  refine (vacate_leads ⟨relay, {}, history⟩ .primary rfl shut).andThen path ?_
  rintro _ ⟨relay, _, history⟩ path ⟨rfl⟩
  exact dispatch_ensures path

omit [Display δ] in
theorem completes_of_leads {stage : Stage} {operation : Operation} {action : Action δ Unit}
    (idle : stage.duty = {}) (asks : operation.question? = none) (grabs : operation.grab? = none)
    (h : ∀ stage : Stage, stage.duty = {} →
      stage.history.Lately Deed.isTurn (·.deed = .began operation) →
      Leads stage action fun _ last => last.duty = {}) :
    Completes stage operation action := by
  have began : Path stage _ :=
    .single (.plain stage (.began operation) (by simp [Moment.isPlain, asks, taken?, grabs]))
  have led := (h (stage.did [.began operation]) idle (.now rfl)).after began
  exact led

theorem fulfil_completes (stage : Stage) (request : Wire.Request) (idle : stage.duty = {}) :
    Completes stage (.fulfil request) (fulfil request : Action δ Unit) := by
  cases request with
  | grab selection types => exact grab_completes stage _ selection types idle rfl rfl
  | ask selection type => exact ask_completes stage _ selection type idle rfl
  | monitors layout =>
    exact completes_of_leads idle rfl rfl fun stage idle _ => applyMonitors_leads stage layout idle
  | data selection type data =>
    exact completes_of_leads idle rfl rfl fun stage idle _ =>
      supply_leads stage selection type data idle
  | release selection =>
    exact completes_of_leads idle rfl rfl fun stage idle began =>
      release_leads stage selection idle (began.mono (fun _ hdeed => ⟨_, hdeed, rfl⟩)
        fun _ => Deed.not_begins_of_not_turn)

theorem operation_completes (stage : Stage) (operation : Operation) (idle : stage.duty = {}) :
    Completes stage operation (operation.action : Action δ Unit) := by
  cases operation with
  | grab selection types => exact grab_completes stage _ selection types idle rfl rfl
  | ask selection type => exact ask_completes stage _ selection type idle rfl
  | fulfil request => exact fulfil_completes stage request idle
  | release selection =>
    exact completes_of_leads idle rfl rfl fun stage idle began =>
      release_leads stage selection idle (began.mono (fun _ hdeed => ⟨_, hdeed, rfl⟩)
        fun _ => Deed.not_begins_of_not_turn)
  | supply selection type data =>
    exact completes_of_leads idle rfl rfl fun stage idle _ =>
      supply_leads stage selection type data idle
  | applyMonitors layout =>
    exact completes_of_leads idle rfl rfl fun stage idle _ => applyMonitors_leads stage layout idle
  | shutdown => exact completes_of_leads idle rfl rfl shutdown_leads
  | dispatch => exact completes_of_leads idle rfl rfl fun stage idle _ => dispatch_leads stage idle

theorem begin_leads (stage : Stage) (idle : stage.duty = {}) :
    Leads stage (begin : Action δ Unit) fun _ last => last.duty = {} := by
  unfold Leads begin
  rw [Action.ensures_bind]
  apply (reportResolution_leads stage idle).andThen .refl
  rintro _ ⟨relay, _, history⟩ path ⟨rfl⟩
  exact dispatch_ensures path

end ClipboardRelay.Relay

namespace ClipboardRelay

theorem Path.keeps {holds : Stage → Prop} {first last : Stage} (path : Path first last)
    (hstep : ∀ stage next, Step stage next → holds stage → holds next) (h : holds first) :
    holds last := by
  induction path with
  | refl => exact h
  | tail _ step ih => exact hstep _ _ step ih

/-- What every step keeps, and what every failing call keeps, holds wherever an action ends that is
done with all that it began. -/
theorem Action.Ensures.holds_run {δ : Type} [Display δ] {action : Action δ Unit} {origin : Stage}
    {session : Session δ} {history : History}
    (h : action.Ensures (origin.Reaches fun _ last => last.duty = {}) origin.Faults session.relay
      history) (holds : Stage → Prop)
    (hstep : ∀ stage next, Step stage next → holds stage → holds next)
    (hbreak : ∀ stage next, Break stage next → holds stage → holds next) (horigin : holds origin) :
    holds ⟨(action.run session).2.relay, {}, history ++ action.history session⟩ := by
  have ended := h.run session
  rcases hend : action.run session with ⟨fault | _, after⟩
  · rw [hend] at ended
    obtain ⟨last, path, broke⟩ := ended
    exact hbreak _ _ broke (path.keeps hstep horigin)
  · rw [hend] at ended
    obtain ⟨_, path, ⟨rfl⟩⟩ := ended
    exact path.keeps hstep horigin

namespace Course

variable {δ : Type} [Display δ]

/-- What holds of every relay that was prepared on a display, and is kept by every step and every
failing call, holds after every run on it. -/
theorem holds_after_prepared (holds : Stage → Prop) {display : δ}
    (hprepared : ∀ relay after, Relay.prepare.run display = (.ok relay, after) →
      holds ⟨relay.fresh, {}, []⟩)
    (hstep : ∀ stage next, Step stage next → holds stage → holds next)
    (hbreak : ∀ stage next, Break stage next → holds stage → holds next)
    {course : Course δ} (hstart : start display = some course) (moves : List (Move δ)) :
    holds ⟨(course.after moves).relay, {}, (course.after moves).history⟩ := by
  refine after_induction (fun course => holds ⟨course.relay, {}, course.history⟩)
    ?_ ?_ moves
  · intro course next h
    cases next with
    | operate operation =>
      have hcompletes := Relay.operation_completes (δ := δ) ⟨course.relay, {}, course.history⟩
        operation rfl
      have hafter := hcompletes.holds_run holds hstep hbreak h
      simpa [move, Course.relay] using hafter
    | collect => exact h
    | elapse display => exact h
  · obtain ⟨relay, after, hprepare, hsession, -, hhistory⟩ := exists_of_start hstart
    have hleads : (Relay.begin : Action δ Unit).Ensures
        (Stage.Reaches ⟨relay.fresh, {}, []⟩ fun _ last => last.duty = {})
        (Stage.Faults ⟨relay.fresh, {}, []⟩) (Session.prepared relay after).relay [] := by
      rw [Relay.eq_fresh_of_prepare hprepare]
      exact Relay.begin_leads ⟨relay.fresh, {}, []⟩ rfl
    have hafter := hleads.holds_run holds hstep hbreak (hprepared relay after hprepare)
    simpa [Course.relay, hsession, hhistory] using hafter

/-- What every step keeps, and what every failing call keeps, holds after every run. -/
theorem holds_after (holds : Stage → Prop)
    (hfresh : ∀ relay : Relay, holds ⟨relay.fresh, {}, []⟩)
    (hstep : ∀ stage next, Step stage next → holds stage → holds next)
    (hbreak : ∀ stage next, Break stage next → holds stage → holds next)
    {display : δ} {course : Course δ} (hstart : start display = some course)
    (moves : List (Move δ)) :
    holds ⟨(course.after moves).relay, {}, (course.after moves).history⟩ :=
  holds_after_prepared holds (fun relay _ _ => hfresh relay) hstep hbreak hstart moves

/-- What every step keeps holds after every run in which no call failed. -/
theorem holds_after_of_faultless (holds : Stage → Prop)
    (hfresh : ∀ relay : Relay, holds ⟨relay.fresh, {}, []⟩)
    (hstep : ∀ stage next, Step stage next → holds stage → holds next)
    {display : δ} {course : Course δ} (hstart : start display = some course)
    {moves : List (Move δ)} (hfaultless : (course.after moves).history.faultless = true) :
    holds ⟨(course.after moves).relay, {}, (course.after moves).history⟩ := by
  refine holds_after (fun stage => stage.history.faultless = true → holds stage)
    (fun relay _ => hfresh relay) ?_ ?_ hstart moves hfaultless
  · intro stage next step h hnext
    obtain ⟨added, hadded⟩ := step.history_prefix
    rw [← hadded, History.faultless_append, Bool.and_eq_true] at hnext
    exact hstep stage next step (h hnext.1)
  · intro stage next broke _ hnext
    rw [broke.not_faultless] at hnext
    cases hnext

end Course

end ClipboardRelay
