/-!
Failures that a display or a server is told to have. A rule lets so many calls of its kind pass and
makes the next one fail.
-/

namespace ClipboardRelay.Memory

structure FailureRule (κ : Type) (φ : Type) where
  kind : κ
  after : Nat := 0
  failure : φ

namespace FailureRule

variable {κ : Type} {φ : Type} [DecidableEq κ]

/-- Whether a call of this kind fails, and the rules from then on. Only the first rule for the kind
is looked at, and it is gone once it made a call fail. -/
def consult (kind : κ) : List (FailureRule κ φ) → Option φ × List (FailureRule κ φ)
  | [] => (none, [])
  | rule :: rules =>
    if rule.kind = kind then
      match rule.after with
      | 0 => (some rule.failure, rules)
      | after + 1 => (none, { rule with after } :: rules)
    else
      let (failure, rest) := consult kind rules
      (failure, rule :: rest)

theorem exists_of_consult {kind : κ} {rules rest : List (FailureRule κ φ)} {failure : φ}
    (h : consult kind rules = (some failure, rest)) :
    ∃ rule ∈ rules, rule.kind = kind ∧ rule.after = 0 ∧ rule.failure = failure := by
  induction rules generalizing rest with
  | nil => simp [consult] at h
  | cons rule rules ih =>
    unfold consult at h
    split at h
    · rename_i hkind
      split at h
      · rename_i hafter
        simp only [Prod.mk.injEq, Option.some.injEq] at h
        exact ⟨rule, List.mem_cons_self, hkind, hafter, h.1⟩
      · simp at h
    · simp only [Prod.mk.injEq] at h
      obtain ⟨found, hmem, hrest⟩ := ih (Prod.ext h.1 rfl)
      exact ⟨found, List.mem_cons_of_mem _ hmem, hrest⟩

end FailureRule

end ClipboardRelay.Memory
