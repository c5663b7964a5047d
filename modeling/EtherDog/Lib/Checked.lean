import Mathlib

/-!
# Checked computations

A computation in `Except` stops at its first error.  `require` is a check,
`prefixUntil` a loop over a list that keeps what it had before the error, and
`each` the same loop where only its success matters.  Every element is handed
its index.

`Outcome` is a triple: a good result, or a failure for a reason.
-/

set_option autoImplicit false

namespace Checked

variable {ε α β : Type}

theorem bind_eq_ok {action : Except ε α} {next : α → Except ε β} {result : β} :
    action >>= next = .ok result ↔ ∃ value, action = .ok value ∧ next value = .ok result := by
  cases action with
  | error e => simp [Bind.bind, Except.bind]
  | ok value => simp [Bind.bind, Except.bind]

def require (holds : Bool) (failure : ε) : Except ε Unit :=
  if holds then .ok () else .error failure

theorem require_eq_ok {holds : Bool} {failure : ε} {result : Unit} :
    require holds failure = .ok result ↔ holds = true := by
  cases holds with
  | false => simp [require]
  | true => simp [require]

/-- The results before the first error, and that error. -/
def prefixUntil (f : Nat → α → Except ε β) : Nat → List α → List β × Option ε
  | _, [] => ([], none)
  | i, x :: rest =>
      match f i x with
      | .error failure => ([], some failure)
      | .ok y => (y :: (prefixUntil f (i + 1) rest).1, (prefixUntil f (i + 1) rest).2)

def each (f : Nat → α → Except ε β) (items : List α) : Except ε (List β) :=
  match prefixUntil f 0 items with
  | (results, none) => .ok results
  | (_, some failure) => .error failure

theorem prefixUntil_complete {f : Nat → α → Except ε β} {i : Nat} {items : List α}
    {results : List β} (complete : prefixUntil f i items = (results, none)) :
    List.Forall₂ (fun x y => ∃ k, f k x = .ok y) items results := by
  induction items generalizing i results with
  | nil =>
      cases complete
      exact .nil
  | cons x rest ih =>
      cases parsed : f i x with
      | error failure => simp [prefixUntil, parsed] at complete
      | ok y =>
          rw [prefixUntil, parsed, Prod.mk.injEq] at complete
          obtain ⟨rfl, finished⟩ := complete
          exact .cons ⟨i, parsed⟩ (ih (Prod.ext rfl finished))

theorem each_ok {f : Nat → α → Except ε β} {items : List α} {results : List β}
    (success : each f items = .ok results) :
    List.Forall₂ (fun x y => ∃ k, f k x = .ok y) items results := by
  unfold each at success
  split at success
  · rename_i found complete
    cases success
    exact prefixUntil_complete complete
  · simp at success

/-- What holds of a result however it was computed. -/
theorem forall₂_of_exists {γ : Type} {P : γ → α → β → Prop} {R : α → β → Prop} {items : List α}
    {results : List β} (found : List.Forall₂ (fun x y => ∃ c, P c x y) items results)
    (each : ∀ c x y, P c x y → R x y) : List.Forall₂ R items results := by
  apply found.imp
  intro x y holds
  obtain ⟨c, holds⟩ := holds
  exact each c x y holds

/-! ## Outcomes -/

section Outcome
variable {reason reason' : ε → Prop} {Good : α → Prop} {Good' : β → Prop}

def Outcome (reason : ε → Prop) (Good : α → Prop) (result : Except ε α) : Prop :=
  (∃ value, result = .ok value ∧ Good value) ∨ ∃ failure, result = .error failure ∧ reason failure

theorem Outcome.good {value : α} (good : Good value) : Outcome reason Good (.ok value) :=
  Or.inl ⟨value, rfl, good⟩

theorem Outcome.failed {failure : ε} (why : reason failure) :
    Outcome reason Good (.error failure) :=
  Or.inr ⟨failure, rfl, why⟩

theorem Outcome.bind {action : Except ε α} {next : α → Except ε β}
    (first : Outcome reason Good action) (weaker : ∀ failure, reason failure → reason' failure)
    (behind : ∀ value, Good value → Outcome reason' Good' (next value)) :
    Outcome reason' Good' (action >>= next) := by
  rcases first with ⟨value, rfl, good⟩ | ⟨failure, rfl, why⟩
  · exact behind value good
  · exact .failed (weaker failure why)

theorem Outcome.imp {action : Except ε α} (outcome : Outcome reason Good action)
    (weaker : ∀ failure, reason failure → reason' failure) : Outcome reason' Good action :=
  outcome.imp_right fun ⟨failure, failed, why⟩ => ⟨failure, failed, weaker failure why⟩

end Outcome

end Checked
