import EtherDog.Lib.Transition

/-!
# Calls that a crash can cut short

A process makes one call after another.  A call is a list of operations; each
changes the cells and may put further operations in front of the rest.  A crash
falls between any two of them, ends the call and leaves of the cells what `lose`
says; the process is then started again.

`Completes` follows a call: at every point a crash is recoverable or the point is
exposed, and the end meets a postcondition.  `returned_post` is the rule for
whole runs in which no crash falls on an exposed point and each call is made
where it is admitted.
-/

set_option autoImplicit false

namespace CrashRuns

open Transition

variable {Cells Op Call : Type}

structure Process (Cells Op Call : Type) where
  /-- what a call does at once and the operations it has before it -/
  start : Call → Cells → Cells × List Op
  /-- what an operation does and the operations it adds -/
  perform : Op → Cells → Cells × List Op
  lose : Cells → Cells

structure Run (Cells Op Call : Type) where
  cells : Cells
  pending : Option (Call × List Op)
  deriving DecidableEq, Repr

inductive Action (Call : Type) where
  | call (call : Call)
  | perform
  | crash
  deriving DecidableEq, Repr

inductive Event (Call : Type) where
  | called (call : Call)
  | returned (call : Call)
  | crashed
  deriving DecidableEq, Repr

/-- A call without operations before it returns. -/
def settle (call : Call) (cells : Cells) (ops : List Op) : Run Cells Op Call × List (Event Call) :=
  match ops with
  | [] => (⟨cells, none⟩, [.returned call])
  | _ :: _ => (⟨cells, some (call, ops)⟩, [])

def step (p : Process Cells Op Call) : Step (Run Cells Op Call) (Action Call) (Event Call) :=
  fun run action =>
    match action, run.pending with
    | .call call, none =>
        let (cells, ops) := p.start call run.cells
        let (next, events) := settle call cells ops
        some (next, events ++ [.called call])
    | .perform, some (call, op :: rest) =>
        let (cells, more) := p.perform op run.cells
        some (settle call cells (more ++ rest))
    | .crash, _ => some (⟨p.lose run.cells, none⟩, [.crashed])
    | _, _ => none

/-- No crash falls on an exposed point, and calls are made where they are admitted. -/
def guarded (exposed : Call → List Op → Prop) (admitted : Call → Cells → Prop) :
    Guard (Run Cells Op Call) (Action Call) (Event Call) :=
  fun run _ action =>
    match action, run.pending with
    | .call call, none => admitted call run.cells
    | .crash, some (call, ops) => ¬ exposed call ops
    | _, _ => True

instance (exposed : Call → List Op → Prop) (admitted : Call → Cells → Prop)
    [∀ call ops, Decidable (exposed call ops)] [∀ call cells, Decidable (admitted call cells)]
    (run : Run Cells Op Call) (history : List (Event Call)) (action : Action Call) :
    Decidable (guarded exposed admitted run history action) :=
  match run, action with
  | ⟨cells, none⟩, .call call => inferInstanceAs (Decidable (admitted call cells))
  | ⟨_, some (call, ops)⟩, .crash => inferInstanceAs (Decidable (¬ exposed call ops))
  | ⟨_, some _⟩, .call _ => isTrue trivial
  | ⟨_, none⟩, .crash => isTrue trivial
  | ⟨_, none⟩, .perform => isTrue trivial
  | ⟨_, some _⟩, .perform => isTrue trivial

inductive Completes (p : Process Cells Op Call) (exposed : List Op → Prop)
    (recoverable post : Cells → Prop) : Cells → List Op → Prop where
  | done {cells : Cells} (meets : post cells) : Completes p exposed recoverable post cells []
  | perform {cells : Cells} {op : Op} {rest : List Op}
      (safe : exposed (op :: rest) ∨ recoverable cells)
      (later : Completes p exposed recoverable post (p.perform op cells).1
        ((p.perform op cells).2 ++ rest)) :
      Completes p exposed recoverable post cells (op :: rest)

section Rule

variable (p : Process Cells Op Call) (exposed : Call → List Op → Prop)
  (admitted : Call → Cells → Prop) (idle : Cells → Prop) (post : Call → Cells → Prop)

/-- Between calls the process is idle, within one the rest completes. -/
def Sound (run : Run Cells Op Call) (history : List (Event Call)) : Prop :=
  match run.pending with
  | none => idle run.cells ∧ ∀ call, history.head? = some (.returned call) → post call run.cells
  | some (call, ops) =>
      Completes p (exposed call) (fun cells => idle (p.lose cells)) (post call) run.cells ops ∧
        ∀ other, history.head? ≠ some (.returned other)

variable {p exposed admitted idle post}

theorem Completes.settle {call : Call} {cells : Cells} {ops : List Op}
    (completes : Completes p (exposed call) (fun cells => idle (p.lose cells)) (post call)
      cells ops)
    (after : ∀ cells, post call cells → idle cells) {history : List (Event Call)}
    (running : ∀ other, history.head? ≠ some (.returned other)) :
    Sound p exposed idle post (CrashRuns.settle call cells ops).1
      ((CrashRuns.settle call cells ops).2 ++ history) := by
  cases completes with
  | done meets =>
      refine ⟨after cells meets, ?_⟩
      intro other returned
      cases returned
      exact meets
  | perform safe later => exact ⟨.perform safe later, running⟩

theorem step_sound
    (calls : ∀ call cells, idle cells → admitted call cells →
      Completes p (exposed call) (fun cells => idle (p.lose cells)) (post call)
        (p.start call cells).1 (p.start call cells).2)
    (after : ∀ call cells, post call cells → idle cells)
    (lost : ∀ cells, idle cells → idle (p.lose cells))
    {run next : Run Cells Op Call} {history events : List (Event Call)} {action : Action Call}
    (sound : Sound p exposed idle post run history)
    (allowed : guarded exposed admitted run history action)
    (move : step p run action = some (next, events)) :
    Sound p exposed idle post next (events ++ history) := by
  obtain ⟨cells, pending⟩ := run
  cases action with
  | call call =>
      cases pending with
      | some pair => cases move
      | none =>
          cases move
          rw [List.append_assoc]
          exact (calls call cells sound.1 allowed).settle (after call) (by simp)
  | perform =>
      cases pending with
      | none => cases move
      | some pair =>
          obtain ⟨call, ops⟩ := pair
          obtain ⟨completes, running⟩ := sound
          cases completes with
          | done => cases move
          | @perform _ op rest safe later =>
              have moved : CrashRuns.settle call (p.perform op cells).1
                  ((p.perform op cells).2 ++ rest) = (next, events) := Option.some.inj move
              have settled := later.settle (after call) running
              rw [moved] at settled
              exact settled
  | crash =>
      have idleAfter : idle (p.lose cells) := by
        cases pending with
        | none => exact lost cells sound.1
        | some pair =>
            obtain ⟨call, ops⟩ := pair
            cases sound.1 with
            | done meets => exact lost cells (after call cells meets)
            | perform safe later => exact safe.resolve_left allowed
      cases pending with
      | none | some =>
          cases move
          refine ⟨idleAfter, ?_⟩
          intro other returned
          cases returned

/-- In every guarded run a call that has returned has met its postcondition. -/
theorem returned_post
    (calls : ∀ call cells, idle cells → admitted call cells →
      Completes p (exposed call) (fun cells => idle (p.lose cells)) (post call)
        (p.start call cells).1 (p.start call cells).2)
    (after : ∀ call cells, post call cells → idle cells)
    (lost : ∀ cells, idle cells → idle (p.lose cells))
    {initial : Cells} (fresh : idle initial) {run : Run Cells Op Call}
    {history : List (Event Call)}
    (reached : Reaches (step p) (guarded exposed admitted) ⟨initial, none⟩ run history)
    {call : Call} (returned : history.head? = some (.returned call)) : post call run.cells := by
  have sound : Sound p exposed idle post run history := by
    refine reached.invariant (Sound p exposed idle post) ⟨fresh, by simp⟩ ?_
    intro state history action next events before allowed move
    exact step_sound calls after lost before allowed move
  obtain ⟨cells, pending⟩ := run
  cases pending with
  | none => exact sound.2 call returned
  | some pair => exact absurd returned (sound.2 call)

end Rule

end CrashRuns
