import ClipboardRelay.Proofs.Accounting
/-!
A docket of the fetches, kept from the history of a relay. Two fetches can look the same, so each
gets an errand with a number of its own when the agent's question is accepted, and every call that
asks an owner for data is entered on the errand that is at the head of the queue then. Main
statement: each way in which an errand moves through the docket keeps it sound.
-/

namespace ClipboardRelay

/-- The call that asks the owner for a fetch. The data comes in the property of the selection. -/
def Vocabulary.conversion? (vocabulary : Vocabulary) (fetch : Fetch) : Option Call :=
  (vocabulary.atom? fetch.selection).map fun atom => .convertSelection atom fetch.target atom

structure Errand where
  number : Nat
  fetch : Fetch
  calls : List Call := []

namespace Errand

def ask (call : Call) (errand : Errand) : Errand :=
  { errand with calls := errand.calls ++ [call] }

def entry (errand : Errand) : Fetch × Nat :=
  (errand.fetch, errand.number)

def AskedOnce (vocabulary : Vocabulary) (errand : Errand) : Prop :=
  ∃ call, vocabulary.conversion? errand.fetch = some call ∧ errand.calls = [call]

end Errand

structure Docket where
  arrived : Nat := 0
  waiting : List Errand := []
  ended : List Errand := []
  /-- Errands that were dropped from behind the head. -/
  dropped : List Errand := []
  /-- How many answers are yet to come for questions that wait no longer. -/
  due : Nat := 0
  strays : Nat := 0

namespace Docket

def errands (docket : Docket) : List Errand :=
  docket.dropped ++ docket.ended ++ docket.waiting

def accept (fetch : Fetch) (docket : Docket) : Docket :=
  { docket with
    arrived := docket.arrived + 1
    waiting := docket.waiting ++ [{ number := docket.arrived, fetch }] }

def ask (call : Call) (docket : Docket) : Docket :=
  match docket.waiting with
  | [] => { docket with strays := docket.strays + 1 }
  | errand :: rest => { docket with waiting := errand.ask call :: rest }

/-- Enters an answer to the agent. It ends the errand at the head of the queue, if no other answer
is due. -/
def answer (docket : Docket) : Docket :=
  match docket.due, docket.waiting with
  | due + 1, _ => { docket with due }
  | 0, [] => { docket with strays := docket.strays + 1 }
  | 0, errand :: rest => { docket with waiting := rest, ended := docket.ended ++ [errand] }

def drop (selection : Selection) (docket : Docket) : Docket :=
  { docket with
    waiting := docket.waiting.filter (·.fetch.selection ≠ selection)
    ended := docket.ended ++ (docket.waiting.take 1).filter (·.fetch.selection = selection)
    dropped := docket.dropped ++ docket.waiting.tail.filter (·.fetch.selection = selection)
    due := docket.due + docket.waiting.countP (·.fetch.selection = selection) }

def enter (docket : Docket) (moment : Moment) : Docket :=
  match moment.deed with
  | .began operation =>
    match moment.accepted? with
    | some fetch => docket.accept fetch
    | none => if operation.question?.isSome then { docket with due := docket.due + 1 } else docket
  | .called (.convertSelection atom target property) _ =>
    if target = moment.relay.vocabulary.targets then docket
    else docket.ask (.convertSelection atom target property)
  | .sent (.data ..) => docket.answer
  | .noted (.about selection (.fetchesDropped _)) => docket.drop selection
  | _ => docket

end Docket

def Moment.petition? (moment : Moment) : Option Call :=
  match moment.deed with
  | .called (.convertSelection atom target property) _ =>
    if target = moment.relay.vocabulary.targets then none
    else some (.convertSelection atom target property)
  | _ => none

namespace History

def docket (history : History) : Docket :=
  history.foldl Docket.enter {}

def petitions (history : History) : List Call :=
  history.filterMap Moment.petition?

variable (first second : History)

theorem docket_append : (first ++ second).docket = second.foldl Docket.enter first.docket :=
  List.foldl_append

@[simp] theorem petitions_append :
    (first ++ second).petitions = first.petitions ++ second.petitions :=
  List.filterMap_append

end History

namespace Docket

variable {docket : Docket} {vocabulary : Vocabulary}

theorem ask_cons {call : Call} {errand : Errand} {rest : List Errand}
    (h : docket.waiting = errand :: rest) :
    docket.ask call = { docket with waiting := errand.ask call :: rest } := by
  rw [ask, h]

theorem answer_cons {errand : Errand} {rest : List Errand} (hdue : docket.due = 0)
    (h : docket.waiting = errand :: rest) :
    docket.answer = { docket with waiting := rest, ended := docket.ended ++ [errand] } := by
  simp only [answer, hdue, h]

theorem answer_due {due : Nat} (hdue : docket.due = due + 1) :
    docket.answer = { docket with due } := by
  simp only [answer, hdue]

theorem foldl_enter_due (relay : Relay) (fetches : List Fetch)
    (hdue : docket.due = fetches.length) :
    (fetches.map fun fetch => Moment.mk relay (.sent (.noData fetch.selection))).foldl enter
      docket = { docket with due := 0 } := by
  induction fetches generalizing docket with
  | nil =>
    rw [List.map_nil, List.foldl_nil]
    exact congrArg (fun due => { docket with due }) hdue
  | cons fetch fetches ih =>
    have hanswer : docket.enter ⟨relay, .sent (.noData fetch.selection)⟩ =
        { docket with due := fetches.length } := answer_due hdue
    rw [List.map_cons, List.foldl_cons, hanswer]
    exact ih rfl

/-- A docket in which every fetch has one errand, and the calls that were made are those of the
errands that have been at the head of the queue, one for each that has left it. -/
structure Sound (docket : Docket) (vocabulary : Vocabulary) (accepted : List Fetch)
    (calls : List Call) : Prop where
  complete : (docket.errands.map Errand.entry).Perm accepted.zipIdx
  arrived : docket.arrived = accepted.length
  attributed : docket.strays = 0
  inOrder : ((docket.ended ++ docket.waiting).map (·.number)).Pairwise (· < ·)
  made : (docket.ended ++ docket.waiting).flatMap (·.calls) = calls
  ended : ∀ errand ∈ docket.ended, errand.AskedOnce vocabulary
  dropped : ∀ errand ∈ docket.dropped, errand.calls = []

namespace Sound

variable {accepted : List Fetch} {calls : List Call}

theorem empty : Docket.Sound {} vocabulary [] [] :=
  ⟨.refl _, rfl, rfl, .nil, rfl, by simp, by simp⟩

theorem number_lt (h : docket.Sound vocabulary accepted calls) {errand : Errand}
    (herrand : errand ∈ docket.errands) : errand.number < docket.arrived := by
  have hentry := h.complete.mem_iff.mp (List.mem_map_of_mem herrand)
  rw [h.arrived]
  exact List.snd_lt_of_mem_zipIdx hentry

theorem accept (h : docket.Sound vocabulary accepted calls) (fetch : Fetch) :
    (docket.accept fetch).Sound vocabulary (accepted ++ [fetch]) calls where
  complete := by
    rw [List.zipIdx_append, List.zipIdx_singleton, Nat.zero_add, ← h.arrived]
    have hentries : ((docket.accept fetch).errands).map Errand.entry =
        docket.errands.map Errand.entry ++ [(fetch, docket.arrived)] := by
      simp [errands, Docket.accept, Errand.entry]
    rw [hentries]
    exact h.complete.append_right _
  arrived := by simp [Docket.accept, h.arrived]
  attributed := h.attributed
  inOrder := by
    simp only [Docket.accept]
    rw [← List.append_assoc, List.map_append, List.pairwise_append]
    refine ⟨h.inOrder, List.pairwise_singleton _ _, fun earlier hearlier later hlater => ?_⟩
    obtain rfl := List.mem_singleton.mp hlater
    obtain ⟨errand, herrand, rfl⟩ := List.mem_map.mp hearlier
    apply h.number_lt
    rw [errands, List.append_assoc]
    exact List.mem_append_right _ herrand
  made := by
    simp only [Docket.accept]
    rw [← List.append_assoc, List.flatMap_append, h.made]
    exact List.append_nil _
  ended := h.ended
  dropped := h.dropped

theorem ask (h : docket.Sound vocabulary accepted calls) (call : Call) {errand : Errand}
    {rest : List Errand} (hwaiting : docket.waiting = errand :: rest)
    (blank : ∀ other ∈ rest, other.calls = []) :
    (docket.ask call).Sound vocabulary accepted (calls ++ [call]) := by
  have hrest : rest.flatMap (·.calls) = [] := List.flatMap_eq_nil_iff.mpr blank
  have hmade := h.made
  have hinOrder := h.inOrder
  have hcomplete := h.complete
  rw [ask_cons hwaiting]
  rw [hwaiting] at hmade hinOrder
  refine ⟨?_, h.arrived, h.attributed, ?_, ?_, h.ended, h.dropped⟩
  · simpa [errands, hwaiting, Errand.ask, Errand.entry] using hcomplete
  · simpa [Errand.ask] using hinOrder
  · simpa [Errand.ask, hrest, ← List.append_assoc] using hmade

theorem finish (h : docket.Sound vocabulary accepted calls) {errand : Errand} {rest : List Errand}
    (hwaiting : docket.waiting = errand :: rest) (asked : errand.AskedOnce vocabulary) :
    Sound { docket with waiting := rest, ended := docket.ended ++ [errand] } vocabulary accepted
      calls := by
  have hmoved : docket.ended ++ [errand] ++ rest = docket.ended ++ docket.waiting := by
    rw [hwaiting, List.append_assoc, List.singleton_append]
  refine ⟨?_, h.arrived, h.attributed, ?_, ?_, ?_, h.dropped⟩
  · have herrands : docket.dropped ++ (docket.ended ++ [errand]) ++ rest = docket.errands := by
      rw [List.append_assoc, hmoved, errands, List.append_assoc]
    rw [errands, herrands]
    exact h.complete
  · rw [hmoved]
    exact h.inOrder
  · rw [hmoved]
    exact h.made
  · exact List.forall_mem_append.mpr ⟨h.ended, List.forall_mem_singleton.mpr asked⟩

theorem settle (h : docket.Sound vocabulary accepted calls) (due : Nat) :
    Sound { docket with due } vocabulary accepted calls :=
  ⟨h.complete, h.arrived, h.attributed, h.inOrder, h.made, h.ended, h.dropped⟩

theorem shed (h : docket.Sound vocabulary accepted calls) (selection : Selection)
    (front : List Errand) {rest : List Errand} (hwaiting : docket.waiting = front ++ rest)
    (blank : ∀ errand ∈ rest, errand.calls = []) :
    Sound { docket with
      waiting := front ++ rest.filter (·.fetch.selection ≠ selection)
      dropped := docket.dropped ++ rest.filter (·.fetch.selection = selection) }
      vocabulary accepted calls := by
  have hother : (fun errand : Errand => decide (errand.fetch.selection ≠ selection)) =
      fun errand => !decide (errand.fetch.selection = selection) := by
    funext errand
    exact decide_not
  have hcomplete := h.complete
  have hinOrder := h.inOrder
  have hmade := h.made
  rw [errands, hwaiting] at hcomplete
  rw [hwaiting] at hinOrder hmade
  refine ⟨?_, h.arrived, h.attributed, ?_, ?_, h.ended, ?_⟩
  · apply List.Perm.trans _ hcomplete
    apply List.Perm.map
    simp only [errands, List.append_assoc, hother]
    apply List.Perm.append_left
    have hsplit := List.filter_append_perm (fun errand : Errand =>
      decide (errand.fetch.selection = selection)) rest
    rw [← List.append_assoc docket.ended, ← List.append_assoc docket.ended]
    exact (List.perm_append_comm_assoc _ _ _).trans (hsplit.append_left _)
  · apply List.Pairwise.sublist _ hinOrder
    apply List.Sublist.map
    rw [← List.append_assoc, ← List.append_assoc]
    exact List.filter_sublist.append_left _
  · have hkept : (rest.filter (·.fetch.selection ≠ selection)).flatMap (·.calls) = [] :=
      List.flatMap_eq_nil_iff.mpr fun errand herrand =>
        blank errand (List.mem_of_mem_filter herrand)
    have hrest : rest.flatMap (·.calls) = [] := List.flatMap_eq_nil_iff.mpr blank
    rw [← List.append_assoc, List.flatMap_append, hrest] at hmade
    rw [← List.append_assoc, List.flatMap_append, hkept, hmade]
  · apply List.forall_mem_append.mpr ⟨h.dropped, fun errand herrand => ?_⟩
    exact blank errand (List.mem_of_mem_filter herrand)

theorem drop (h : docket.Sound vocabulary accepted calls) (selection : Selection) {front : Errand}
    {rest : List Errand} (hwaiting : docket.waiting = front :: rest)
    (asked : front.AskedOnce vocabulary) (blank : ∀ errand ∈ rest, errand.calls = []) :
    (docket.drop selection).Sound vocabulary accepted calls := by
  by_cases hfront : front.fetch.selection = selection
  · have hended := ((h.finish hwaiting asked).shed selection [] rfl blank).settle
      (docket.due + docket.waiting.countP (·.fetch.selection = selection))
    simpa [Docket.drop, hwaiting, hfront] using hended
  · have hbehind := (h.shed selection [front] hwaiting blank).settle
      (docket.due + docket.waiting.countP (·.fetch.selection = selection))
    simpa [Docket.drop, hwaiting, hfront] using hbehind

end Sound

end Docket

end ClipboardRelay
