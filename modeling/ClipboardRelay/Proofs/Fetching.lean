import ClipboardRelay.Proofs.FetchQueue
/-!
The steps that fetching the data of desktop owners takes.
-/

namespace ClipboardRelay.Relay

variable {δ : Type}

theorem startFetch_leads (stage : Stage) (due : stage.duty.start = true) :
    Leads stage (startFetch : Action δ Unit) fun _ last =>
      last.duty = stage.duty.starting false ∧
        last.relay = stage.relay.withAbandoned last.relay.abandoned := by
  refine startFetch_ensures_of ?_ fun fetch rest atom front named => ⟨?_, fun fault => ?_⟩
  · exact fun unnamed => ⟨_, .single (.skipStart stage due unnamed), rfl, rfl⟩
  · have started := Step.startFetch stage fetch rest atom due front named
    simp only [Stage.did, Stage.due] at started
    rw [List.append_assoc]
    exact ⟨_, .single started, rfl, rfl⟩
  · have broke := Break.startFetch stage fetch rest atom fault front
    simp only [Stage.did, Stage.due] at broke
    rw [List.append_assoc]
    exact ⟨stage, .refl, broke⟩

theorem queueFetch_ensures (stage : Stage) (operation : Operation) (selection : Selection)
    (type : ContentType) (fetch : Fetch)
    (asks : operation.question? = some (selection, type))
    (accepted : stage.relay.fetch? selection type = some fetch) (idle : stage.duty = {}) :
    (queueFetch fetch : Action δ Unit).Ensures (stage.Reaches fun _ last => last.duty = {})
      stage.Faults stage.relay (stage.history ++ [⟨stage.relay, .began operation⟩]) := by
  have queued := Step.queueFetch stage operation selection type fetch asks accepted idle
  refine queueFetch_ensures_of fetch (fun empty => ?_) fun waiting => ?_
  · rw [empty] at queued
    apply (startFetch_leads _ rfl).andThen (.single queued)
    rintro _ ⟨relay, duty, history⟩ path ⟨rfl, -⟩
    exact ⟨_, path, by simp [Stage.due, idle, Duty.starting]⟩
  · rw [List.isEmpty_eq_false_iff.mpr waiting] at queued
    exact ⟨_, .single queued, by simp [idle, Duty.starting]⟩

theorem dropFetches_leads (stage : Stage) (selection : Selection)
    (started : stage.duty.start = false)
    (change : stage.relay.Reassigns selection stage.history) :
    Leads stage (dropFetches selection : Action δ Unit) fun _ last =>
      last.duty = stage.duty ∧
        last.relay = ((stage.relay.withFetches last.relay.fetches).withReader
          last.relay.reader).withAbandoned last.relay.abandoned ∧
        ∀ fetch ∈ last.relay.fetches, fetch.selection ≠ selection := by
  refine dropFetches_ensures_of selection (fun none => ?_) (fun active rest front found same => ?_)
    fun active rest front found other => ?_
  · refine ⟨stage.duty, .refl, rfl, rfl, ?_⟩
    simpa [fetchesOf, List.filter_eq_nil_iff] using none
  · have dropped := Step.dropFetches stage selection active rest front found started change
    simp only [if_pos same] at dropped
    apply (startFetch_leads _ rfl).andThen (.single dropped)
    rintro _ ⟨relay, duty, history⟩ path ⟨hduty, hrelay⟩
    simp only at hrelay
    refine ⟨duty, path, ?_, ?_, ?_⟩
    · rw [hduty]
      simp [Stage.due, Duty.starting, ← started]
    · rw [hrelay]
      rfl
    · rw [hrelay]
      simp [Stage.did, Stage.due, Stage.become, withoutFetches, withFetches, withAbandoned,
        withReader]
  · have dropped := Step.dropFetches stage selection active rest front found started change
    simp only [if_neg other] at dropped
    refine ⟨_, .single dropped, rfl, rfl, ?_⟩
    simp [withoutFetches, withFetches]

theorem finishFetch_leads (stage : Stage) (data : Option Bytes)
    (started : stage.duty.start = false) :
    Leads stage (finishFetch data : Action δ Unit) fun _ last => last.duty = stage.duty := by
  refine finishFetch_ensures_of data (fun empty => ?_) fun fetch rest front => ?_
  · have read := Step.read stage (stage.relay.finished data []).reader
    have hrelay : stage.relay.finished data [] =
        stage.relay.withReader (stage.relay.finished data []).reader := by
      rw [← empty]
      rfl
    rw [hrelay]
    exact ⟨_, .single read, rfl⟩
  · have finished := Step.finishFetch stage data fetch rest front started
    apply (startFetch_leads _ rfl).andThen (.single finished)
    rintro _ ⟨relay, duty, history⟩ path ⟨rfl, -⟩
    exact ⟨_, path, by simp [Stage.due, Duty.starting, ← started]⟩

theorem checkProperty_ensures {origin stage : Stage} (path : Path origin stage)
    (selection : Selection) (target : Atom) (property : Property) :
    (checkProperty selection target property : Action δ Bool).Ensures
      (fun _ relay history => relay = stage.relay ∧ Path origin ⟨relay, stage.duty, history⟩)
      origin.Faults stage.relay stage.history := by
  unfold checkProperty
  split
  · exact ⟨rfl, Stage.path_remark path selection (.wrongType target property.type) rfl⟩
  · split
    · exact ⟨rfl, Stage.path_remark path selection (.wrongFormat 8 property.format) rfl⟩
    · exact ⟨rfl, path⟩

theorem readReply_leads (stage : Stage) (fetch : Fetch) (notify : SelectionNotify) :
    Leads stage (readReply fetch notify : Action δ Reply) fun _ last =>
      last.duty = stage.duty := by
  unfold Leads readReply
  simp only [Action.ensures_bind, ensures_current]
  split
  · exact ⟨stage.duty, Stage.path_remark .refl fetch.selection .conversionRefused rfl, rfl⟩
  split
  · exact ⟨stage.duty, Stage.path_remark .refl fetch.selection .replyMismatch rfl, rfl⟩
  refine ensures_call_bind (fun found => ?_) fun fault => Stage.faults_call .refl _ fault
  have read : Path stage _ := .single (.plain stage
    (.called (.getProperty stage.relay.window notify.property false) found) rfl)
  split
  case h_1 missing =>
    exact ⟨stage.duty, Stage.path_remark read fetch.selection .replyWithoutProperty rfl, rfl⟩
  case h_2 property =>
    split
    case isTrue incremental =>
      split
      case isTrue busy =>
        have noted := Stage.path_remark read fetch.selection .readingAlready rfl
        rw [Action.ensures_bind, ensures_remark]
        refine ensures_call_bind (fun _ => ?_) fun fault => Stage.faults_call noted _ fault
        exact ⟨stage.duty, noted.tail (.plain _
          (.called (.deleteProperty stage.relay.window notify.property) ()) rfl), rfl⟩
      case isFalse free =>
        generalize (property.words?.bind List.head?).getD 0 = hint
        have noted := Stage.path_remark read fetch.selection (.readingStarted hint) rfl
        have started := noted.tail (.read _
          (stage.relay.reader.begin Incremental.doubling hint.toNat))
        simp only [Action.ensures_bind, ensures_remark, ensures_update]
        refine ensures_call_bind (fun _ => ?_) fun fault => Stage.faults_call started _ fault
        have watched := started.tail (.plain _
          (.called (.watchProperties stage.relay.window) ()) rfl)
        refine ensures_call_bind (fun _ => ?_) fun fault => Stage.faults_call watched _ fault
        exact ⟨stage.duty, watched.tail (.plain _
          (.called (.deleteProperty stage.relay.window notify.property) ()) rfl), rfl⟩
    case isFalse whole =>
      refine ensures_call_bind (fun _ => ?_) fun fault => Stage.faults_call read _ fault
      have deleted := read.tail (.plain _
        (.called (.deleteProperty stage.relay.window notify.property) ()) rfl)
      rw [Action.ensures_bind]
      refine (checkProperty_ensures deleted fetch.selection fetch.target property).mono ?_
        fun _ _ h => h
      rintro fits _ history ⟨rfl, path⟩
      split
      · split
        · exact ⟨stage.duty, Stage.path_remark path fetch.selection .noData rfl, rfl⟩
        · exact ⟨stage.duty, path, rfl⟩
      · exact ⟨stage.duty, path, rfl⟩

theorem checkReply_ensures (stage : Stage) (fetch : Fetch) (notify : SelectionNotify) :
    (checkReply fetch notify : Action δ Bool).Ensures
      (fun _ relay history => relay = stage.relay ∧ Path stage ⟨relay, stage.duty, history⟩)
      stage.Faults stage.relay stage.history := by
  have here : Path stage stage := .refl
  have other := Stage.path_remark here fetch.selection (.replyForOther notify.selection) rfl
  unfold checkReply
  simp only [Action.ensures_bind, ensures_current]
  split
  · rw [Action.ensures_bind, ensures_remark]
    split
    · exact ⟨rfl, Stage.path_remark other fetch.selection
        (.replyForTarget fetch.target notify.target) rfl⟩
    · exact ⟨rfl, other⟩
  · split
    · exact ⟨rfl, Stage.path_remark here fetch.selection
        (.replyForTarget fetch.target notify.target) rfl⟩
    · exact ⟨rfl, .refl⟩

theorem receiveReply_leads (stage : Stage) (notify : SelectionNotify)
    (started : stage.duty.start = false) :
    Leads stage (receiveReply notify : Action δ Unit) fun _ last => last.duty = stage.duty := by
  have finished {origin last : Stage} (path : Path origin last) (hduty : last.duty = stage.duty)
      (data : Option Bytes) :
      (finishFetch data : Action δ Unit).Ensures
        (origin.Reaches fun _ last => last.duty = stage.duty) origin.Faults last.relay
        last.history := by
    rw [← hduty]
    exact (finishFetch_leads last data (hduty ▸ started)).after path
  unfold Leads receiveReply
  simp only [Action.ensures_bind, ensures_current]
  split
  case h_1 unasked => exact ⟨stage.duty, .single (.plain stage (.noted .notifyUnasked) rfl), rfl⟩
  case h_2 fetch rest front =>
    rw [Action.ensures_bind]
    refine (checkReply_ensures stage fetch notify).mono ?_ fun _ _ h => h
    rintro fits _ history ⟨rfl, path⟩
    split
    case isFalse => exact finished path rfl none
    case isTrue =>
      rw [Action.ensures_bind]
      refine (readReply_leads ⟨stage.relay, stage.duty, history⟩ fetch notify).andThen path ?_
      intro reply last steps hduty
      cases reply with
      | pending => exact ⟨last.duty, steps, hduty⟩
      | data bytes => exact finished steps hduty (some bytes)
      | failed => exact finished steps hduty none

theorem handleConversion_leads (stage : Stage) (notify : SelectionNotify)
    (started : stage.duty.start = false) :
    Leads stage (handleConversion notify : Action δ Unit) fun _ last =>
      last.duty = stage.duty := by
  unfold Leads handleConversion
  simp only [Action.ensures_bind, ensures_current]
  split
  case h_1 awaited => exact receiveReply_leads stage notify started
  case h_2 fetch found =>
    have forgot : Path stage _ := .single (.forget stage notify)
    simp only [Action.ensures_bind, ensures_update]
    split
    case isTrue again =>
      have received := (receiveReply_leads (δ := δ) _ notify (by exact started)).after forgot
      exact received
    case isFalse other =>
      have late := forgot.tail (.plain _ (.noted (.about fetch.selection .lateReply)) rfl)
      rw [Action.ensures_bind, ensures_remark]
      split
      · refine ⟨fun _ => ?_, fun fault => Stage.faults_call late _ fault⟩
        exact ⟨stage.duty, late.tail (.plain _
          (.called (.deleteProperty notify.requestor notify.property) ()) rfl), rfl⟩
      · exact ⟨stage.duty, late, rfl⟩

theorem readChunk_leads (stage : Stage) (fetch : Fetch) (property : Atom)
    (started : stage.duty.start = false) :
    Leads stage (readChunk fetch property : Action δ Unit) fun _ last =>
      last.duty = stage.duty := by
  have finished {relay : Relay} {history : History}
      (path : Path stage ⟨relay, stage.duty, history⟩) (data : Option Bytes) :=
    (finishFetch_leads (δ := δ) ⟨relay, stage.duty, history⟩ data started).after path
  unfold Leads readChunk
  rw [Action.ensures_bind, ensures_current]
  refine ensures_call_bind (fun found => ?_) fun fault => Stage.faults_call .refl _ fault
  have read : Path stage _ := .single (.plain stage
    (.called (.getProperty stage.relay.window property true) found) rfl)
  split
  case h_1 missing =>
    exact finished (read.tail (.plain _
      (.noted (.about fetch.selection .chunkWithoutProperty)) rfl)) none
  case h_2 chunk =>
    rw [Action.ensures_bind]
    refine (checkProperty_ensures read fetch.selection fetch.target chunk).mono ?_ fun _ _ h => h
    rintro fits _ history ⟨rfl, path⟩
    split
    case isFalse unfit => exact finished path none
    case isTrue fit =>
      split
      case isTrue done =>
        have ended := path.tail (.read _ stage.relay.reader.finish.2)
        simp only [Action.ensures_bind, ensures_current, ensures_update]
        split
        case isTrue empty =>
          exact finished (ended.tail (.plain _
            (.noted (.about fetch.selection .noData)) rfl)) none
        case isFalse something =>
          exact finished (ended.tail (.plain _
            (.noted (.about fetch.selection (.readingDone _))) rfl)) (some _)
      case isFalse more =>
        simp only [Action.ensures_bind, ensures_current, ensures_update, ensures_remark]
        exact ⟨stage.duty, (path.tail (.read _ (stage.relay.reader.push
          Incremental.doubling chunk.value))).tail (.plain _
            (.noted (.about fetch.selection (.chunkRead chunk.value.length _))) rfl), rfl⟩

theorem handleStored_leads (stage : Stage) (window : Window) (property : Atom)
    (started : stage.duty.start = false) :
    Leads stage (handleStored window property : Action δ Unit) fun _ last =>
      last.duty = stage.duty := by
  unfold Leads handleStored
  simp only [Action.ensures_bind, ensures_current]
  split
  case isFalse idle => exact ⟨stage.duty, .refl, rfl⟩
  case isTrue reading =>
    split
    case h_1 empty => exact ⟨stage.duty, .refl, rfl⟩
    case h_2 fetch rest front =>
      split
      · exact readChunk_leads stage fetch property started
      · exact ⟨stage.duty, .refl, rfl⟩

end ClipboardRelay.Relay
