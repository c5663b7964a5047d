import Mathlib

/-!
# Guarded runs of a labelled transition function

A machine is a partial step function: an action either is not enabled or gives
the next state together with the events it logs, newest first.  `Reaches` is
the least set of state/history pairs closed under enabled steps that meet a
guard; the guard sees the state and the history before the step.  `execute`
runs a concrete list of actions, and `exists_of_execute` turns such a run
into membership.
-/

set_option autoImplicit false

namespace Transition

variable {State Action Event : Type}

/-- The next state and the logged events, or `none` where the action is not enabled. -/
abbrev Step (State Action Event : Type) : Type :=
  State → Action → Option (State × List Event)

/-- A condition on a step: the state and history it starts from and its action. -/
abbrev Guard (State Action Event : Type) : Type :=
  State → List Event → Action → Prop

/-- The guard every step meets. -/
def anyStep : Guard State Action Event := fun _ _ _ => True

instance (state : State) (history : List Event) (action : Action) :
    Decidable (anyStep state history action) :=
  isTrue trivial

inductive Reaches (step : Step State Action Event) (guard : Guard State Action Event)
    (initial : State) : State → List Event → Prop where
  | start : Reaches step guard initial initial []
  | next {state next : State} {history events : List Event} (action : Action)
      (before : Reaches step guard initial state history)
      (allowed : guard state history action)
      (move : step state action = some (next, events)) :
      Reaches step guard initial next (events ++ history)

section Execute
variable (step : Step State Action Event) (guard : Guard State Action Event)
  [∀ state history action, Decidable (guard state history action)]

def execute : State → List Event → List Action → Option (State × List Event)
  | state, history, [] => some (state, history)
  | state, history, action :: rest =>
      if guard state history action then
        match step state action with
        | none => none
        | some (next, events) => execute next (events ++ history) rest
      else none

theorem reaches_of_execute_from (initial : State) (actions : List Action)
    (state final : State) (history log : List Event)
    (before : Reaches step guard initial state history)
    (run : execute step guard state history actions = some (final, log)) :
    Reaches step guard initial final log := by
  induction actions generalizing state history with
  | nil =>
      cases Option.some.inj run
      exact before
  | cons action rest ih =>
      rw [execute] at run
      split at run
      · rename_i allowed
        cases move : step state action with
        | none => simp [move] at run
        | some pair =>
            obtain ⟨next, events⟩ := pair
            rw [move] at run
            exact ih next (events ++ history) (.next action before allowed move) run
      · simp at run

/-- A concrete run that ends inside `Holds`. -/
theorem exists_of_execute (initial : State) (actions : List Action)
    (Holds : State → List Event → Prop) [∀ state history, Decidable (Holds state history)]
    (found : (execute step guard initial [] actions).any
      (fun result => decide (Holds result.1 result.2)) = true) :
    ∃ state history, Reaches step guard initial state history ∧ Holds state history := by
  cases run : execute step guard initial [] actions with
  | none => simp [run] at found
  | some result =>
      obtain ⟨final, log⟩ := result
      refine ⟨final, log, ?_, by simpa [run] using found⟩
      exact reaches_of_execute_from step guard initial actions initial final [] log .start run

end Execute

/-- The invariant rule: what holds at the start and is kept by every guarded
step holds of everything reached. -/
theorem Reaches.invariant {step : Step State Action Event} {guard : Guard State Action Event}
    {initial state : State} {history : List Event}
    (reached : Reaches step guard initial state history)
    (Inv : State → List Event → Prop) (base : Inv initial [])
    (keep : ∀ state history action next events, Inv state history →
      guard state history action → step state action = some (next, events) →
      Inv next (events ++ history)) : Inv state history := by
  induction reached with
  | start => exact base
  | next action _ allowed move ih => exact keep _ _ action _ _ ih allowed move

/-- The simulation rule: where each step of one machine is a step of another on
what is kept of it, each run of the one is a run of the other. -/
theorem Reaches.project {State' Action' Event' : Type} {step : Step State Action Event}
    {guard : Guard State Action Event} {step' : Step State' Action' Event'} {initial state : State}
    {history : List Event} (reached : Reaches step guard initial state history)
    (keep : State → State') (lower : Action → Action') (kept : Event → Option Event')
    (simulates : ∀ state action next events, step state action = some (next, events) →
      step' (keep state) (lower action) = some (keep next, events.filterMap kept)) :
    Reaches step' anyStep (keep initial) (keep state) (history.filterMap kept) := by
  induction reached with
  | start => exact .start
  | next action _ _ move ih =>
      rw [List.filterMap_append]
      exact .next (lower action) ih trivial (simulates _ action _ _ move)

end Transition
