import ClipboardRelay.Proofs.Upholding
/-!
Going on from an event in the middle of a run. The history up to the event is a fixed base: before
it is reached nothing has to hold, and one that goes another way never comes to it. Main statement:
what handling the event brings about, and every part of the operations keeps, holds at the end of
the run, of the history since the event alone.
-/

namespace ClipboardRelay

namespace History

/-- Whether a history is on the way to a base and has not reached it. -/
def Before (base history : History) : Prop :=
  ∃ rest, rest ≠ [] ∧ base = history ++ rest

def Astray (base history : History) : Prop :=
  ¬ history <+: base ∧ ¬ base <+: history

def Since (base : History) (holds : History → Prop) (history : History) : Prop :=
  ∃ since, history = base ++ since ∧ holds since

variable {base before history added : History} {moment : Moment}

theorem Astray.append (h : Astray base history) (added : History) :
    Astray base (history ++ added) := by
  refine ⟨fun hprefix => h.1 ((List.prefix_append history added).trans hprefix), fun hprefix => ?_⟩
  exact (List.prefix_or_prefix_of_prefix (List.prefix_append history added) hprefix).elim h.1 h.2

theorem Since.eq {holds : History → Prop} {since : History} (h : Since base holds (base ++ since)) :
    holds since := by
  obtain ⟨other, hother, hholds⟩ := h
  rwa [List.append_cancel_left hother]

theorem Before.not_since {holds : History → Prop} (h : Before base history) :
    ¬ Since base holds history := by
  rintro ⟨since, rfl, -⟩
  obtain ⟨rest, hrest, hbase⟩ := h
  rw [List.append_assoc, List.self_eq_append_right] at hbase
  exact hrest (List.append_eq_nil_iff.mp hbase).2

theorem Before.append_singleton (h : Before base history) (other : Moment) :
    (Astray base (history ++ [other]) ∨ Before base (history ++ [other])) ∨
      base = history ++ [other] := by
  obtain ⟨rest, hrest, rfl⟩ := h
  obtain ⟨head, tail, rfl⟩ := List.exists_cons_of_ne_nil hrest
  by_cases hhead : head = other
  · subst hhead
    rcases List.eq_nil_or_concat tail with rfl | ⟨_, _, hlast⟩
    · exact .inr rfl
    · exact .inl (.inr ⟨tail, by simp [hlast], by rw [List.append_assoc, List.singleton_append]⟩)
  · refine .inl (.inl ⟨fun honward => ?_, fun hback => ?_⟩)
    · rw [List.prefix_append_right_inj, List.cons_prefix_cons] at honward
      exact hhead honward.1.symm
    · rw [List.prefix_append_right_inj, List.cons_prefix_cons] at hback
      exact hhead hback.1

theorem Before.append_other {other : Moment} (h : Before (before ++ [moment]) history)
    (hother : other ≠ moment) :
    Astray (before ++ [moment]) (history ++ [other]) ∨
      Before (before ++ [moment]) (history ++ [other]) :=
  (h.append_singleton other).resolve_right fun hbase =>
    hother (List.append_singleton_inj.mp hbase).2.symm

theorem Before.append_others (h : Before (before ++ [moment]) history)
    (hothers : ∀ other ∈ added, other ≠ moment) :
    Astray (before ++ [moment]) (history ++ added) ∨
      Before (before ++ [moment]) (history ++ added) := by
  induction added generalizing history with
  | nil => exact .inr (by rwa [List.append_nil])
  | cons other others ih =>
    rw [List.forall_mem_cons] at hothers
    rw [List.append_cons history other others]
    rcases h.append_other hothers.1 with hastray | hbefore
    · exact .inl (hastray.append others)
    · exact ih hbefore hothers.2

/-- Something holds of what came since a base, if a history has reached it or comes to it. -/
def Reaching (base : History) (holds : History → Prop) (history : History) : Prop :=
  Astray base history ∨ Before base history ∨ Since base holds history

variable {holds weaker : History → Prop}

theorem Reaching.mono (h : Reaching base holds history)
    (hweaker : ∀ {since}, holds since → weaker since) : Reaching base weaker history :=
  h.imp_right (Or.imp_right fun ⟨since, hsince, hholds⟩ => ⟨since, hsince, hweaker hholds⟩)

theorem Reaching.extend (h : Reaching (before ++ [moment]) holds history)
    (hothers : ∀ other ∈ added, other ≠ moment)
    (hweaker : ∀ {since}, holds since → weaker (since ++ added)) :
    Reaching (before ++ [moment]) weaker (history ++ added) := by
  rcases h with hastray | hbefore | ⟨since, rfl, hholds⟩
  · exact .inl (hastray.append added)
  · exact (hbefore.append_others hothers).imp_right .inl
  · exact .inr (.inr ⟨since ++ added, List.append_assoc .., hweaker hholds⟩)

theorem ne_of_quiet {moment : Moment} (hpoll : moment.deed.isPoll = true)
    (hquiet : ∀ other ∈ added, other.deed.isPoll = false) : ∀ other ∈ added, other ≠ moment := by
  rintro other hadded rfl
  rw [hquiet other hadded] at hpoll
  cases hpoll

end History

open History (Astray Before Since Reaching)
open Relay

namespace Action

variable {δ α : Type}

theorem Yields.since {post : α → Relay → History → Prop} {action : Action δ α} {relay : Relay}
    {since : History} (h : action.Yields post relay since) (base : History) :
    action.Yields (fun value after => Since base (post value after)) relay (base ++ since) := by
  induction action generalizing relay since with
  | done value => exact ⟨since, rfl, h⟩
  | step effect next ih =>
    cases effect with
    | current => exact ih _ h
    | display => exact fun display => ih _ (h display)
    | update change => exact ih _ h
    | call asked =>
      refine ⟨fun answer => ?_, fun _ => trivial⟩
      have hnext := ih answer (h.1 answer)
      rwa [← List.append_assoc] at hnext
    | send messages =>
      have hnext := ih _ h
      rwa [← List.append_assoc] at hnext
    | note notices =>
      have hnext := ih _ h
      rwa [← List.append_assoc] at hnext

theorem Spares.yields_quiet {action : Action δ α} (h : action.Spares setting Deed.isHandling)
    {relay : Relay} {history : History} :
    action.Yields (fun _ _ later => ∃ added, later = history ++ added ∧
      ∀ moment ∈ added, moment.deed.isPoll = false) relay history :=
  h.yields fun _ _ added _ hadded =>
    ⟨added, rfl, fun moment hmoment => Deed.not_poll_of_handling (hadded moment hmoment)⟩

end Action

theorem Moment.poll_of_event? {moment : Moment} {event : Event} (h : moment.event? = some event) :
    moment.deed.isPoll = true := by
  rw [Moment.eq_polled h]
  rfl

namespace Kept

variable {δ : Type} {free : Selection → History → Prop} {excused : History → Prop}
  {holds : Relay → History → Prop} {base since before history : History} {moment : Moment}
  {relay : Relay}

def Excuse (base : History) (excused : History → Prop) (history : History) : Prop :=
  Astray base history ∨ Since base excused history

def Freedom (base : History) (free : Selection → History → Prop) (selection : Selection)
    (history : History) : Prop :=
  Before base history ∨ Since base (free selection) history

abbrev Onward (base : History) (holds : Relay → History → Prop) (relay : Relay) :
    History → Prop :=
  Reaching base (holds relay)

theorem Excuse.append (h : Excuse base excused history)
    (lasting : ∀ {history} added, excused history → excused (history ++ added))
    (added : History) : Excuse base excused (history ++ added) := by
  rcases h with hastray | ⟨since, rfl, hexcused⟩
  · exact .inl (hastray.append added)
  · exact .inr ⟨since ++ added, List.append_assoc .., lasting added hexcused⟩

theorem excused_or_free {selection : Selection}
    (h : Reaching base (fun since => excused since ∨ free selection since) history) :
    Excuse base excused history ∨ Freedom base free selection history := by
  rcases h with hastray | hbefore | ⟨since, hsince, hexcused | hfree⟩
  · exact .inl (.inl hastray)
  · exact .inr (.inl hbefore)
  · exact .inl (.inr ⟨since, hsince, hexcused⟩)
  · exact .inr (.inr ⟨since, hsince, hfree⟩)

theorem free_of_reached {selection : Selection}
    (h : Freedom base free selection (base ++ since)) : free selection since := by
  have hreached : Since base (fun _ => True) (base ++ since) := ⟨since, rfl, trivial⟩
  exact (h.resolve_left fun hbefore => hbefore.not_since hreached).eq

theorem upholds_unreached {action : Action δ Unit} (hpoll : moment.deed.isPoll = true)
    (hquiet : action.Spares setting Deed.isHandling)
    (h : Reaching (before ++ [moment]) (fun _ => False) history) :
    action.Upholds (Excuse (before ++ [moment]) excused) (Onward (before ++ [moment]) holds)
      relay history := by
  refine hquiet.yields_quiet.mono ?_
  rintro - after _ ⟨added, rfl, hadded⟩
  exact .inr (h.extend (History.ne_of_quiet hpoll hadded) False.elim)

theorem upholds_since {action : Action δ Unit} (h : action.Upholds excused holds relay since) :
    action.Upholds (Excuse base excused) (Onward base holds) relay (base ++ since) := by
  refine (h.since base).mono ?_
  rintro - after later ⟨since, rfl, hexcused | hholds⟩
  · exact .inl (.inr ⟨since, rfl, hexcused⟩)
  · exact .inr (.inr (.inr ⟨since, rfl, hholds⟩))

/-- What an action that polls nothing keeps of what came since an event, it keeps of every history
that the event may be reached by. -/
theorem upholds_onward {action : Action δ Unit} (hpoll : moment.deed.isPoll = true)
    (hquiet : action.Spares setting Deed.isHandling)
    (h : Onward (before ++ [moment]) holds relay history)
    (hothers : ∀ other ∈ added, other ≠ moment)
    (hpart : ∀ {since}, history = before ++ [moment] ++ since → holds relay since →
      action.Upholds excused holds relay (since ++ added)) :
    action.Upholds (Excuse (before ++ [moment]) excused) (Onward (before ++ [moment]) holds)
      relay (history ++ added) := by
  rcases h with hastray | hbefore | ⟨since, rfl, hholds⟩
  · exact upholds_unreached hpoll hquiet (.inl (hastray.append added))
  · exact upholds_unreached hpoll hquiet ((hbefore.append_others hothers).imp_right .inl)
  · rw [List.append_assoc]
    exact upholds_since (hpart rfl hholds)

/-- What is kept from the beginning on is kept from an event on that brings it about. -/
theorem from_event [Display δ] (h : Kept δ free excused holds)
    (howned : ∀ {relay since selection}, holds relay since →
      relay.slots.owner selection = .agent → excused since ∨ free selection since)
    {event : Event} (hpoll : moment.event? = some event) (hevent : event.isIdle = false)
    (hstart : (handle event : Action δ Unit).Upholds excused holds moment.relay []) :
    Kept δ (Freedom (before ++ [moment]) free) (Excuse (before ++ [moment]) excused)
      (Onward (before ++ [moment]) holds) := by
  have hpolled := Moment.poll_of_event? hpoll
  have hbegan (relay : Relay) (operation : Operation) :
      ∀ other ∈ [Moment.mk relay (.began operation)], other ≠ moment :=
    History.ne_of_quiet hpolled (List.forall_mem_singleton.mpr rfl)
  constructor
  case lasting => exact fun added hexcused => hexcused.append h.lasting added
  case waits =>
    intro selection history added hquiet hfree
    have hreaching : Reaching (before ++ [moment]) (free selection) history := .inr hfree
    exact excused_or_free (hreaching.extend (History.ne_of_quiet hpolled hquiet) (h.waits hquiet))
  case resumes =>
    intro relay selection history added _ hholds hown
    exact excused_or_free (hholds.mono fun hholds => howned hholds hown)
  case seizes =>
    intro relay history operation selection hchanges hholds
    exact excused_or_free (hholds.extend (hbegan relay operation) (h.seizes hchanges))
  case still =>
    intro relay history deed hstill hholds
    refine hholds.extend (List.forall_mem_singleton.mpr fun hsame => ?_) (h.still hstill)
    have hidle := Moment.idle_of_polled (Moment.idle_of_still (hsame ▸ hstill)) hpoll
    rw [hevent] at hidle
    cases hidle
  case resized => exact fun size hholds => hholds.mono (h.resized size)
  case declines =>
    intro relay history operation selection type what asks hnone hstill hholds
    exact hholds.extend (History.ne_of_quiet hpolled (by simp [Deed.isPoll]))
      (h.declines asks hnone hstill)
  case queues =>
    intro relay history operation fetch haccepted hholds
    exact upholds_onward hpolled (spares_setting (spares_awaits_of_fetching
      (spares_of_advancing (queueFetch_spares fetch)))) hholds (hbegan relay operation)
      fun _ => h.queues haccepted
  case changes =>
    intro relay history selection holder hfree hholds
    rw [← List.append_nil history]
    refine upholds_onward hpolled (spares_setting (changeHolder_spares _ _)) hholds (by simp) ?_
    rintro since rfl hholds
    rw [List.append_nil]
    exact h.changes holder (free_of_reached hfree) hholds
  case supplies =>
    intro relay history operation selection type data hsupplies hholds
    exact upholds_onward hpolled (spares_setting (spares_awaits_of_serving (deliver_spares _ _ _)))
      hholds (hbegan relay operation) fun _ => h.supplies hsupplies
  case handles =>
    rintro relay history other hother (hastray | hbefore | ⟨since, rfl, hholds⟩)
    · exact upholds_unreached hpolled (handle_spares other) (.inl (hastray.append _))
    · rcases hbefore.append_singleton ⟨relay, .called .pollEvent (some other)⟩ with
        hunreached | hbase
      · exact upholds_unreached hpolled (handle_spares other) (hunreached.imp_right .inl)
      · obtain ⟨rfl, rfl⟩ := List.append_singleton_inj.mp hbase
        obtain rfl := Option.some.inj hpoll
        simpa only [List.append_nil] using upholds_since hstart
    · rw [List.append_assoc]
      exact upholds_since (h.handles hother hholds)

/-- What handling an event brings about and every part keeps holds at the end of a run in which no
call failed, of the history since the event. -/
theorem after_event [Display δ] (h : Kept δ free excused holds)
    (howned : ∀ {relay since selection}, holds relay since →
      relay.slots.owner selection = .agent → excused since ∨ free selection since)
    {event : Event} (hpoll : moment.event? = some event) (hevent : event.isIdle = false)
    (hhandled : (handle event : Action δ Unit).Upholds excused holds moment.relay [])
    {display : δ} {course : Course δ} (hstart : Course.start display = some course)
    {moves : List (Move δ)} (hfaultless : (course.after moves).history.faultless = true)
    (hsplit : (course.after moves).history = before ++ moment :: since) :
    excused since ∨ holds (course.after moves).relay since := by
  have hfresh : Before (before ++ [moment]) [] := ⟨_, by simp, rfl⟩
  have hafter := (h.from_event howned hpoll hevent hhandled).after
    (fun _ => .inr (.inl hfresh)) hstart hfaultless
  rw [hsplit, List.append_cons before moment since] at hafter
  have hreached {holds : History → Prop} (hholds : Astray (before ++ [moment])
      (before ++ [moment] ++ since) ∨ Since (before ++ [moment]) holds
      (before ++ [moment] ++ since)) : holds since :=
    (hholds.resolve_left fun hastray => hastray.2 (List.prefix_append _ since)).eq
  rcases hafter with hexcused | hastray | hbefore | hholds
  · exact .inl (hreached hexcused)
  · exact absurd (List.prefix_append _ since) hastray.2
  · have hback : Since (before ++ [moment]) (fun _ => True) (before ++ [moment] ++ since) :=
      ⟨since, rfl, trivial⟩
    exact absurd hback hbefore.not_since
  · exact .inr hholds.eq

/-- What an action brings about and every part keeps still holds when the events that were received
have been handled, of the history since the same point. -/
theorem dispatch_since [Display δ] (h : Kept δ free excused holds) {action : Action δ Unit}
    (haction : action.Yields (fun _ after => Since base fun since =>
      excused since ∨ holds after since) relay history) :
    (do action; Relay.dispatch : Action δ Unit).Yields (fun _ after => Since base fun since =>
      excused since ∨ holds after since) relay history := by
  refine .bind haction ?_
  rintro - after _ ⟨since, rfl, hrest⟩
  exact (h.dispatch hrest).since base

/-- What an operation brings about and every part keeps holds however the run goes on, if no call
fails. -/
theorem after_operation [Display δ] (h : Kept δ free excused holds) {course : Course δ}
    {operation : Operation}
    (hoperation : (operation.action : Action δ Unit).Yields (fun _ after => Since base fun since =>
      excused since ∨ holds after since) course.relay
      (course.history ++ [⟨course.relay, .began operation⟩])) {moves : List (Move δ)}
    (hfaultless : ((course.move (.operate operation)).after moves).history.faultless = true) :
    Since base (fun since => excused since ∨
      holds ((course.move (.operate operation)).after moves).relay since)
      ((course.move (.operate operation)).after moves).history := by
  have hmove : (course.move (.operate operation)).history =
      course.history ++ [⟨course.relay, .began operation⟩] ++
        operation.action.history course.session :=
    List.append_cons ..
  have hran := Course.faultless_of_after hfaultless
  rw [hmove, History.faultless_append, Bool.and_eq_true] at hran
  obtain ⟨value, hvalue⟩ := (operation.action.faultless_history course.session).mp hran.2
  have ended := hoperation.run course.session
  rcases hrun : operation.action.run course.session with ⟨fault | _, after⟩
  · rw [hrun] at hvalue
    cases hvalue
  rw [hrun] at ended
  obtain ⟨first, hfirst, hrest⟩ := ended
  have hrelay : (course.move (.operate operation)).relay = after.relay :=
    congrArg (·.2.relay) hrun
  rw [← hrelay] at hrest
  obtain ⟨rest, hlater, hholds⟩ := h.continued hrest hfaultless
  exact ⟨first ++ rest, by rw [hlater, hmove, hfirst, List.append_assoc], hholds⟩

end Kept

end ClipboardRelay
