import ClipboardRelay.Memory.Display
import ClipboardRelay.Proofs.History
/-!
What becomes of the properties of a window while nobody but the relay uses them. Main statement:
what a property is after an action, and what each read of it found, can be told from the history
alone.
-/

namespace ClipboardRelay

def Deed.property (window : Window) (name : Atom) (old : Option Property) : Deed → Option Property
  | called (.getProperty place key true) _ | called (.deleteProperty place key) _ =>
    if window = place ∧ name = key then none else old
  | called (.changeProperty place key type content) _ =>
    if window = place ∧ name = key then some (content.toProperty type) else old
  | _ => old

namespace History

variable (window : Window) (name : Atom) (old : Option Property)

def property (history : History) : Option Property :=
  history.foldl (fun old moment => moment.deed.property window name old) old

@[simp] theorem property_append (first second : History) :
    (first ++ second).property window name old =
      second.property window name (first.property window name old) :=
  List.foldl_append

def ReadsTrue (history : History) : Prop :=
  history.Always fun before moment => ∀ delete found,
    moment.deed = .called (.getProperty window name delete) found →
      found = before.property window name old

variable {window name old}

theorem property_of_kept {history : History}
    (h : ∀ moment ∈ history, ∀ old, moment.deed.property window name old = old) :
    history.property window name old = old := by
  induction history with
  | nil => rfl
  | cons moment history ih =>
    rw [property, List.foldl_cons, h moment List.mem_cons_self]
    exact ih fun other hother => h other (List.mem_cons_of_mem _ hother)

theorem readsTrue_append {first second : History} :
    (first ++ second).ReadsTrue window name old ↔ first.ReadsTrue window name old ∧
      second.ReadsTrue window name (first.property window name old) := by
  constructor
  · refine fun h => ⟨fun before moment rest hsplit => ?_, fun before moment rest hsplit => ?_⟩
    · exact h before moment (rest ++ second) (by rw [hsplit, List.append_assoc, List.cons_append])
    · intro delete found hread
      rw [← property_append]
      exact h (first ++ before) moment rest (by rw [hsplit, List.append_assoc]) delete found hread
  · rintro ⟨hfirst, hsecond⟩ before moment rest hsplit delete found hread
    rcases split_append hsplit with ⟨middle, hmoment, -⟩ | ⟨middle, rfl, hmoment⟩
    · exact hfirst before moment middle hmoment delete found hread
    · rw [property_append]
      exact hsecond middle moment rest hmoment delete found hread

end History

/-- The properties of a display, as far as the relay's own calls change them. -/
structure PropertyView (δ : Type) [Display δ] where
  property? : δ → Window → Atom → Option Property
  found {window : Window} {name : Atom} {delete : Bool} {property : Option Property}
    {display after : δ} :
    Display.perform (.getProperty window name delete) display = (.ok property, after) →
      property = property? display window name
  left {asked : Call} {answer : asked.Answer} {display after : δ} :
    Display.perform asked display = (.ok answer, after) → ∀ window name,
      property? after window name =
        (Deed.called asked answer).property window name (property? display window name)

namespace PropertyView

variable {δ : Type} [Display δ] {α : Type} (view : PropertyView δ) (window : Window) (name : Atom)

theorem left_perform {effect : Effect δ} {session after : Session δ} {answer : effect.Answer}
    (h : effect.perform session = (.ok answer, after)) :
    view.property? after.display window name = History.property window name
      (view.property? session.display window name) (effect.moments session) := by
  cases effect with
  | current | display | update =>
    cases h
    rfl
  | send messages | note notices =>
    cases h
    exact (History.property_of_kept (List.forall_mem_map.mpr fun _ _ _ => rfl)).symm
  | call asked =>
    obtain ⟨display, hcall, rfl⟩ := Effect.exists_of_perform_call h
    rw [Effect.moments_call hcall]
    exact view.left hcall window name

theorem readsTrue_moments (effect : Effect δ) (session : Session δ) :
    History.ReadsTrue window name (view.property? session.display window name)
      (effect.moments session) := by
  cases effect with
  | current | display | update => exact .nil
  | send messages | note notices =>
    refine .of_forall fun moment hmoment before delete found hread => ?_
    obtain ⟨_, -, rfl⟩ := List.mem_map.mp hmoment
    cases hread
  | call asked =>
    simp only [Effect.moments]
    rcases hcall : Display.perform asked session.display with ⟨fault | given, display⟩
    · refine .singleton fun delete found hread => ?_
      cases hread
    · refine .singleton fun delete found hread => ?_
      cases hread
      exact view.found hcall

theorem left_run {action : Action δ α} {session after : Session δ} {value : α}
    (h : action.run session = (.ok value, after)) :
    view.property? after.display window name = History.property window name
      (view.property? session.display window name) (action.history session) := by
  refine Action.run_induction (fun session history after =>
    view.property? after.display window name =
      history.property window name (view.property? session.display window name))
    (fun _ => rfl) ?_ h
  intro effect session between after answer added hperform hrest
  rw [History.property_append, ← view.left_perform window name hperform]
  exact hrest

/-- Every read of a property finds what was left of it. -/
theorem readsTrue_history (action : Action δ α) (session : Session δ) :
    History.ReadsTrue window name (view.property? session.display window name)
      (action.history session) := by
  induction action generalizing session with
  | done result => exact .nil
  | step effect next ih =>
    simp only [Action.history]
    refine History.readsTrue_append.mpr ⟨view.readsTrue_moments window name effect session, ?_⟩
    rcases hperform : effect.perform session with ⟨fault | answer, between⟩
    · exact .nil
    · rw [← view.left_perform window name hperform]
      exact ih answer between

end PropertyView

namespace Memory.Display

theorem property_answer (asked : Call) (display : Display) (window : Window) (name : Atom) :
    (answer asked display).2.properties.get? window name =
      (Deed.called asked (answer asked display).1).property window name
        (display.properties.get? window name) := by
  cases asked with
  | setSelectionOwner selection owner =>
    simp only [answer, Deed.property]
    split <;> rfl
  | getProperty place key delete =>
    cases delete with
    | true => exact PropertyStore.get?_erase_eq_ite _ _ _ _ _
    | false => rfl
  | deleteProperty place key => exact PropertyStore.get?_erase_eq_ite _ _ _ _ _
  | changeProperty place key type content => exact PropertyStore.get?_insert_eq_ite _ _ _ _ _ _
  | setScreenSize index =>
    simp only [answer, Deed.property]
    split
    · rfl
    · split <;> rfl
  | pollEvent =>
    simp only [answer, Deed.property]
    split <;> rfl
  | _ => rfl

def propertyView : PropertyView Display where
  property? display := display.properties.get?
  found h := by
    obtain ⟨rules, hanswer⟩ := exists_of_perform h
    exact (congrArg Prod.fst hanswer).symm
  left {asked given display after} h window name := by
    obtain ⟨rules, hanswer⟩ := exists_of_perform h
    have hproperty :=
      property_answer asked ({ display with rules }.record (.made asked)) window name
    rwa [hanswer] at hproperty

end Memory.Display

end ClipboardRelay
