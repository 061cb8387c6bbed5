import ClipboardRelay.Proofs.Exhausting
import ClipboardRelay.Proofs.Fitting
import ClipboardRelay.Proofs.Operating
/-!
The size of the screen that the agent knows. It is reported at the start, when the root window has
a new size and when the relay itself resizes the screen. Main statement: the last report names the
size that the relay keeps, whatever calls fail, and what the display reports back of a switch is not
reported once more.
-/

namespace ClipboardRelay

namespace Wire.Message

def reporting (size : ScreenSize) : Message :=
  .resolution size.width.toUInt32 size.height.toUInt32

def isReport : Message → Bool
  | resolution .. => true
  | grab .. | ask .. | data .. | release _ => false

end Wire.Message

open Wire (Message)

def Deed.report? : Deed → Option Message
  | sent message => (some message).filter (·.isReport)
  | _ => none

namespace History

def reports (history : History) : List Message :=
  history.filterMap fun moment => moment.deed.report?

@[simp] theorem reports_append (first second : History) :
    (first ++ second).reports = first.reports ++ second.reports :=
  List.filterMap_append

/-- The screen sizes that the display was switched to, by their positions in its list. -/
def switches (history : History) : List Nat :=
  history.filterMap fun moment =>
    match moment.deed with
    | .called (.setScreenSize index) _ => some index
    | _ => none

@[simp] theorem switches_append (first second : History) :
    (first ++ second).switches = first.switches ++ second.switches :=
  List.filterMap_append

theorem switches_eq_nil {history : History} (h : ∀ asked ∈ history.calls, asked.brings = false) :
    history.switches = [] := by
  refine List.filterMap_eq_nil_iff.mpr fun moment hmoment => ?_
  split
  case h_1 index answer hdeed =>
    have hcall : .setScreenSize index ∈ history.calls :=
      List.mem_filterMap.mpr ⟨moment, hmoment, by rw [hdeed]⟩
    cases h _ hcall
  case h_2 => rfl

theorem reports_eq (history : History) :
    history.reports = history.messages.filter (·.isReport) := by
  rw [messages, List.filter_filterMap]
  apply List.filterMap_congr
  rintro ⟨relay, deed⟩ -
  cases deed <;> rfl

end History

theorem Deed.report?_of_plain {relay : Relay} {deed : Deed}
    (h : (Moment.mk relay deed).isPlain = true) : deed.report? = none := by
  cases deed with
  | sent => cases h
  | _ => rfl

theorem Relay.isReport_answer (relay : Relay) (fetch : Fetch) (data : Option Bytes) :
    (relay.answer fetch data).isReport = false := by
  unfold answer
  split
  · split <;> rfl
  · rfl

theorem Stage.reports_quiet {stage next : Stage} {relay : Relay} {deeds : List Deed}
    (hnext : next.history = stage.history ++ deeds.map (Moment.mk relay))
    (quiet : ∀ deed ∈ deeds, deed.report? = none) :
    next.history.reports = stage.history.reports := by
  have hnone : History.reports (deeds.map (Moment.mk relay)) = [] := by
    rw [History.reports, List.filterMap_map]
    exact List.filterMap_eq_nil_iff.mpr quiet
  rw [hnext, History.reports_append, hnone, List.append_nil]

theorem Step.report_cases {stage next : Stage} (step : Step stage next) :
    next.relay.size = stage.relay.size ∧ next.history.reports = stage.history.reports ∨
      next.history.reports = stage.history.reports ++ [.reporting next.relay.size] := by
  cases step with
  | report size => exact .inr (History.reports_append _ _)
  | plain deed plain =>
    exact .inl ⟨rfl, Stage.reports_quiet rfl (by simpa using Deed.report?_of_plain plain)⟩
  | rest | skipStart | forget | read | countOff | install => exact .inl ⟨rfl, rfl⟩
  | dropRequests | dropFetches =>
    dsimp only
    split <;> exact .inl ⟨rfl, Stage.reports_quiet rfl
      (by simp [Deed.report?, Message.isReport, Message.noData])⟩
  | finishFetch data fetch =>
    refine .inl ⟨rfl, Stage.reports_quiet rfl ?_⟩
    split <;> simp [Deed.report?, Relay.isReport_answer]
  | _ =>
    exact .inl ⟨rfl, Stage.reports_quiet rfl
      (by simp [Deed.report?, Message.isReport, Message.noData, or_imp, forall_and])⟩

theorem Break.report_cases {stage next : Stage} (broke : Break stage next) :
    next.relay.size = stage.relay.size ∧ next.history.reports = stage.history.reports := by
  cases broke <;> exact ⟨rfl, Stage.reports_quiet rfl (by simp [Deed.report?, or_imp, forall_and])⟩

def Stage.InStep (stage : Stage) : Prop :=
  ∀ last ∈ stage.history.reports.getLast?, last = .reporting stage.relay.size

theorem Step.inStep {stage next : Stage} (step : Step stage next) (h : stage.InStep) :
    next.InStep := by
  intro last hlast
  rcases step.report_cases with ⟨hsize, hreports⟩ | hreports
  · rw [hreports] at hlast
    rw [hsize]
    exact h last hlast
  · rw [hreports, List.getLast?_concat] at hlast
    exact (Option.some_inj.mp hlast).symm

theorem Break.inStep {stage next : Stage} (broke : Break stage next) (h : stage.InStep) :
    next.InStep := by
  intro last hlast
  obtain ⟨hsize, hreports⟩ := broke.report_cases
  rw [hreports] at hlast
  rw [hsize]
  exact h last hlast

namespace Course

variable {δ : Type} [Display δ] {display : δ} {course : Course δ}

theorem reports_ne_nil (hstart : start display = some course) (moves : List (Move δ)) :
    (course.after moves).history.reports ≠ [] := by
  obtain ⟨relay, after, -, -, -, hhistory⟩ := exists_of_start hstart
  obtain ⟨added, hadded⟩ := course.history_prefix_after moves
  rw [← hadded, hhistory, Relay.begin, Action.history_bind]
  exact List.cons_ne_nil _ _

/-- The last report names the size that the relay keeps, whatever calls failed. -/
theorem getLast?_reports (hstart : start display = some course) (moves : List (Move δ)) :
    (course.after moves).history.reports.getLast? =
      some (.reporting (course.after moves).relay.size) := by
  have hinStep : Stage.InStep ⟨(course.after moves).relay, {}, (course.after moves).history⟩ :=
    holds_after Stage.InStep (fun _ => nofun) (fun _ _ step => step.inStep)
      (fun _ _ broke => broke.inStep) hstart moves
  have hlast := List.getLast?_eq_some_getLast (reports_ne_nil hstart moves)
  rw [hlast, hinStep _ hlast]

end Course

namespace Session

variable {δ : Type} [Display δ] {session : Session δ}

theorem run_rootResized (session : Session δ) (size : ScreenSize) :
    (Relay.handle (.rootResized size)).run session = (.ok (), { session with
      relay := session.relay.withSize size
      outbox := session.outbox ++
        if size = session.relay.size then [] else [.reporting size] }) := by
  rw [Relay.handle, Relay.handleResize, Relay.run_current_bind]
  split
  case isTrue hsame =>
    rw [hsame, List.append_nil]
    rfl
  case isFalse hnew => rfl

/-- Whether a monitor layout makes the relay switch to another screen size: sizes can be chosen, one
of those that are offered is the best fit for the first monitor, and no call fails. -/
def Switches (session : Session δ) (layout : MonitorLayout) (index : Nat) (size : ScreenSize)
    (resized : δ) : Prop :=
  Display.hasRandr session.display = true ∧ ∃ monitor ∈ layout.monitors.head?, ∃ sizes listed,
    Display.perform .screenSizes session.display = (.ok sizes, listed) ∧
    ScreenSize.bestFit sizes monitor.width monitor.height = some index ∧
    sizes[index]? = some size ∧ Display.perform (.setScreenSize index) listed = (.ok (), resized)

/-- Whether the size and all else that the relay keeps, and what waits for the agent, are as before,
no screen size was switched to and no event was handled. -/
structure Untouched (session after : Session δ) (history : History) : Prop where
  relay : after.relay = session.relay
  outbox : after.outbox = session.outbox
  switches : history.switches = []
  events : history.events = []

theorem fitScreen_of_fit (session : Session δ) {monitor : Monitor} {sizes : List ScreenSize}
    {index : Nat} {size : ScreenSize} {listed resized : δ}
    (hlist : Display.perform .screenSizes session.display = (.ok sizes, listed))
    (hfit : ScreenSize.bestFit sizes monitor.width monitor.height = some index)
    (hsize : sizes[index]? = some size)
    (hset : Display.perform (.setScreenSize index) listed = (.ok (), resized)) :
    let begun := { session with
      display := resized
      relay := session.relay.withSize size
      outbox := session.outbox ++ [.reporting size] }
    (Relay.fitScreen monitor).run session = Relay.dispatch.run begun ∧
      (Relay.fitScreen monitor).history session =
        [⟨session.relay, .called .screenSizes sizes⟩,
          ⟨session.relay, .called (.setScreenSize index) ()⟩,
          ⟨session.relay.withSize size, .sent (.reporting size)⟩] ++
          Relay.dispatch.history begun := by
  have hoffered : ¬ sizes.isEmpty = true := by
    rintro hnone
    rw [List.isEmpty_iff.mp hnone] at hsize
    cases hsize
  have hchosen : sizes.getD index session.relay.size = size := by
    rw [List.getD_eq_getElem?_getD, hsize, Option.getD_some]
  rw [Relay.fitScreen, Relay.run_call_bind hlist, Relay.history_call_bind hlist, if_neg hoffered,
    hfit]
  dsimp only
  rw [Relay.run_call_bind hset, Relay.history_call_bind hset]
  subst hchosen
  exact ⟨rfl, rfl⟩

theorem fitScreen_untouched (session : Session δ) (monitor : Monitor)
    (h : ∀ index size resized sizes listed,
      Display.perform .screenSizes session.display = (.ok sizes, listed) →
      ScreenSize.bestFit sizes monitor.width monitor.height = some index →
      sizes[index]? = some size →
      Display.perform (.setScreenSize index) listed ≠ (.ok (), resized)) :
    session.Untouched ((Relay.fitScreen monitor).run session).2
      ((Relay.fitScreen monitor).history session) := by
  rcases hlist : Display.perform .screenSizes session.display with ⟨fault | sizes, listed⟩
  · rw [Relay.fitScreen, Relay.run_call_bind_of_fault hlist,
      Relay.history_call_bind_of_fault hlist]
    exact ⟨rfl, rfl, rfl, rfl⟩
  rw [Relay.fitScreen, Relay.run_call_bind hlist, Relay.history_call_bind hlist]
  split
  · exact ⟨rfl, rfl, rfl, rfl⟩
  split
  case h_1 misfit => exact ⟨rfl, rfl, rfl, rfl⟩
  case h_2 index hfit =>
    obtain ⟨size, hsize, -⟩ := ScreenSize.exists_of_bestFit hfit
    rcases hset : Display.perform (.setScreenSize index) listed with ⟨fault | _, resized⟩
    · rw [Relay.run_call_bind_of_fault hset, Relay.history_call_bind_of_fault hset]
      exact ⟨rfl, rfl, rfl, rfl⟩
    · exact absurd hset (h index size resized sizes listed hlist hfit hsize)

theorem applyMonitors_first {layout : MonitorLayout} {monitor : Monitor} {others : List Monitor}
    (randr : Display.hasRandr session.display = true)
    (first : layout.monitors = monitor :: others) :
    ∃ added : List Notice,
      let noted := { session with notices := session.notices ++ added }
      (Relay.applyMonitors layout).run session = (Relay.fitScreen monitor).run noted ∧
        (Relay.applyMonitors layout).history session =
          (added.map fun notice => ⟨session.relay, .noted notice⟩) ++
            (Relay.fitScreen monitor).history noted := by
  rw [Relay.applyMonitors, Relay.run_display_bind, Relay.history_display_bind, if_pos randr, first]
  dsimp only
  split
  · exact ⟨[.extraMonitors], rfl, rfl⟩
  · exact ⟨[], by rw [List.append_nil], by rw [List.append_nil]; rfl⟩

theorem applyMonitors_of_switches {layout : MonitorLayout} {index : Nat} {size : ScreenSize}
    {resized : δ} (h : session.Switches layout index size resized) :
    ∃ (begun : Session δ) (opening : History),
      begun.display = resized ∧ begun.relay = session.relay.withSize size ∧
      begun.outbox = session.outbox ++ [.reporting size] ∧
      (Relay.applyMonitors layout).run session = Relay.dispatch.run begun ∧
      (Relay.applyMonitors layout).history session = opening ++ Relay.dispatch.history begun ∧
      opening.messages = [.reporting size] ∧ opening.calls = [.screenSizes, .setScreenSize index] ∧
      History.switches ((Relay.applyMonitors layout).history session) = [index] := by
  obtain ⟨randr, monitor, hfirst, sizes, listed, hlist, hfit, hsize, hset⟩ := h
  obtain ⟨others, first⟩ : ∃ others, layout.monitors = monitor :: others :=
    List.head?_eq_some_iff.mp hfirst
  obtain ⟨added, hrun, hhistory⟩ := applyMonitors_first randr first
  obtain ⟨hfitted, hdone⟩ := fitScreen_of_fit
    { session with notices := session.notices ++ added } hlist hfit hsize hset
  rw [hdone, ← List.append_assoc] at hhistory
  refine ⟨_, _, rfl, rfl, rfl, hrun.trans hfitted, hhistory, ?_, ?_, ?_⟩
  · simp [History.messages, List.filterMap_map]
  · simp [History.calls, List.filterMap_map]
  · rw [hhistory, History.switches_append,
      History.switches_eq_nil fun _ hasked => Relay.calls_dispatch hasked]
    simp [History.switches, List.filterMap_map]

theorem applyMonitors_untouched {layout : MonitorLayout}
    (h : ∀ index size resized, ¬ session.Switches layout index size resized) :
    session.Untouched ((Relay.applyMonitors layout).run session).2
      ((Relay.applyMonitors layout).history session) := by
  by_cases randr : Display.hasRandr session.display = true
  case neg =>
    rw [Relay.applyMonitors, Relay.run_display_bind, Relay.history_display_bind, if_neg randr]
    exact ⟨rfl, rfl, rfl, rfl⟩
  rcases first : layout.monitors with _ | ⟨monitor, others⟩
  · rw [Relay.applyMonitors, Relay.run_display_bind, Relay.history_display_bind, if_pos randr,
      first]
    exact ⟨rfl, rfl, rfl, rfl⟩
  obtain ⟨added, hrun, hhistory⟩ := applyMonitors_first randr first
  have huntouched := fitScreen_untouched
    { session with notices := session.notices ++ added } monitor
    fun index size resized sizes listed hlist hfit hsize hset =>
      h index size resized ⟨randr, monitor, by rw [first]; rfl, sizes, listed, hlist, hfit, hsize,
        hset⟩
  rw [hrun, hhistory]
  refine ⟨huntouched.relay, huntouched.outbox, ?_, ?_⟩
  · rw [History.switches_append, huntouched.switches]
    simp [History.switches, List.filterMap_map]
  · rw [History.events_append, huntouched.events]
    simp [History.events, Moment.event?, List.filterMap_map]

end Session

namespace Course

variable {δ : Type} [Display δ] {display : δ} {course : Course δ}

/-- Whatever happens and whatever calls fail, the last report that the agent took or can take names
the size that the relay keeps. A new size of the root window is reported once, and the one that is
kept is not reported again. For a monitor layout the relay switches to one screen size, the best fit
for the first monitor, and reports it once before it handles any event. Where it does not switch, it
leaves its size and what waits for the agent as they are. -/
theorem resolution_in_step (hstart : start display = some course) (moves : List (Move δ)) :
    (((course.after moves).collected ++ (course.after moves).session.outbox).filter
        (·.isReport)).getLast? = some (.reporting (course.after moves).relay.size) ∧
      (∀ (session : Session δ) (size : ScreenSize),
        (Relay.handle (.rootResized size)).run session = (.ok (), { session with
          relay := session.relay.withSize size
          outbox := session.outbox ++
            if size = session.relay.size then [] else [.reporting size] })) ∧
      ∀ (session : Session δ) (layout : MonitorLayout),
        (∀ index size resized, session.Switches layout index size resized →
          ∃ (begun : Session δ) (opening : History),
            begun.display = resized ∧ begun.relay = session.relay.withSize size ∧
            begun.outbox = session.outbox ++ [.reporting size] ∧
            (Relay.applyMonitors layout).run session = Relay.dispatch.run begun ∧
            (Relay.applyMonitors layout).history session =
              opening ++ Relay.dispatch.history begun ∧
            opening.messages = [.reporting size] ∧
            opening.calls = [.screenSizes, .setScreenSize index] ∧
            History.switches ((Relay.applyMonitors layout).history session) = [index]) ∧
        ((∀ index size resized, ¬ session.Switches layout index size resized) →
          session.Untouched ((Relay.applyMonitors layout).run session).2
            ((Relay.applyMonitors layout).history session)) := by
  refine ⟨?_, Session.run_rootResized, fun session layout =>
    ⟨fun _ _ _ => Session.applyMonitors_of_switches, Session.applyMonitors_untouched⟩⟩
  rw [← messages_after hstart moves, ← History.reports_eq]
  exact getLast?_reports hstart moves

def adjustable : Memory.Display :=
  { sizes := some [⟨1024, 768⟩, ⟨800, 600⟩] }

/-- The root window is resized, the agent takes its messages and asks for a layout, whose size the
display reports back, and then for another one that the display fails to switch to. -/
def refitting : List (Move Memory.Display) :=
  [.elapse { adjustable with events := [.rootResized ⟨640, 480⟩] }, .operate .dispatch, .collect,
    .operate (.applyMonitors ⟨0, [⟨700, 900, 24, 0, 0⟩]⟩),
    .elapse { adjustable with rules := [{ kind := .setScreenSize, failure := .connection }] },
    .operate (.fulfil (.monitors ⟨0, [⟨1080, 1920, 24, 0, 0⟩]⟩))]

theorem resolution_in_step_refitting : ∃ course, start adjustable = some course ∧
    (course.after refitting).history.faultless = false ∧
    (course.after refitting).history.switches = [1] ∧
    (course.after refitting).collected = [.reporting ⟨1024, 768⟩, .reporting ⟨640, 480⟩] ∧
    (course.after refitting).session.outbox = [.reporting ⟨800, 600⟩] ∧
    (((course.after refitting).collected ++ (course.after refitting).session.outbox).filter
      (·.isReport)).getLast? = some (.reporting (course.after refitting).relay.size) := by
  have hstart : start adjustable = some ((start adjustable).get (by decide +kernel)) :=
    (Option.some_get _).symm
  exact ⟨_, hstart, by decide +kernel, by decide +kernel, by decide +kernel, by decide +kernel,
    (resolution_in_step hstart refitting).1⟩

end Course

end ClipboardRelay
