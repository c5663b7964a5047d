import Mathlib

/-!
# A loop that is released at fixed deadlines

Turn `k` of the loop is due at `origin + k * interval`, whatever the turns before
took.  `Keeps` says that a loop waits for its deadlines: unless the wait before it
was interrupted, a turn does not start before its own deadline.  `Prompt` says
that no wait is interrupted and that a turn starts soon after the later of its
deadline and the end of the turn before it.

Turns are listed in their order.
-/

set_option autoImplicit false

namespace Periodic

structure Turn where
  start : Int
  finish : Int
  /-- the wait after the turn ended early -/
  interrupted : Bool
  deriving DecidableEq, Repr

variable (interval : Int)

/-- The loop waits for its deadlines; `waited` is whether it did for the first turn. -/
inductive Keeps : Int → Bool → List Turn → Prop where
  | done (due : Int) (waited : Bool) : Keeps due waited []
  | turn {due : Int} {waited : Bool} (t : Turn) (rest : List Turn)
      (notEarly : waited = true → due ≤ t.start) (forward : t.start ≤ t.finish)
      (later : Keeps (due + interval) (!t.interrupted) rest) : Keeps due waited (t :: rest)

variable {interval} {due : Int} {waited : Bool} {turns : List Turn}

/-- How many deadlines from `due` on have passed at `time`. -/
def passed (interval due time : Int) : Nat := ((time - due) / interval + 1).toNat

theorem passed_next (positive : 0 < interval) {time : Int} (reached : due ≤ time) :
    passed interval due time = passed interval (due + interval) time + 1 := by
  have shifted : time - due = time - (due + interval) + interval * 1 := by ring
  have low : 0 ≤ (time - due) / interval := Int.ediv_nonneg (by omega) positive.le
  have quotient : (time - due) / interval = (time - (due + interval)) / interval + 1 := by
    rw [shifted, Int.add_mul_ediv_left _ _ (ne_of_gt positive)]
  unfold passed
  omega

theorem passed_mono (positive : 0 < interval) (due time : Int) :
    passed interval (due + interval) time ≤ passed interval due time := by
  have ordered : (time - (due + interval)) / interval ≤ (time - due) / interval :=
    Int.ediv_le_ediv positive (by omega)
  unfold passed
  omega

/-- By any time a loop has started no more turns than deadlines have passed, and
one for each interrupted wait. -/
theorem Keeps.started_le (positive : 0 < interval) (keeps : Keeps interval due waited turns)
    (time : Int) :
    turns.countP (fun t => decide (t.start ≤ time)) ≤
      passed interval due time + turns.countP Turn.interrupted + (if waited then 0 else 1) := by
  induction keeps with
  | done due waited => simp
  | @turn due waited t rest notEarly forward later ih =>
      rw [List.countP_cons, List.countP_cons]
      by_cases started : t.start ≤ time
      · simp only [started, decide_true, if_true]
        by_cases reached : due ≤ time
        · have next := passed_next positive reached
          cases flag : t.interrupted with
          | true =>
              simp only [flag, Bool.not_true, if_true, Bool.false_eq_true, if_false] at ih ⊢
              split <;> omega
          | false =>
              simp only [flag, Bool.not_false, if_true, Bool.false_eq_true, if_false] at ih ⊢
              split <;> omega
        · have early : waited = false := by
            by_contra held
            exact reached ((notEarly (by simpa using held)).trans started)
          have fewer := passed_mono positive due time
          subst early
          cases flag : t.interrupted with
          | true =>
              simp only [flag, Bool.not_true, if_true, Bool.false_eq_true, if_false] at ih ⊢
              omega
          | false =>
              simp only [flag, Bool.not_false, if_true, Bool.false_eq_true, if_false] at ih ⊢
              omega
      · have fewer := passed_mono positive due time
        simp only [started, decide_false, Bool.false_eq_true, if_false]
        cases flag : t.interrupted with
        | true =>
            simp only [flag, Bool.not_true, if_true, Bool.false_eq_true, if_false] at ih ⊢
            omega
        | false =>
            simp only [flag, Bool.not_false, if_true, Bool.false_eq_true, if_false] at ih ⊢
            omega

/-! ## Nothing holds the loop up for long -/

variable (interval) (latency : Int) in
/-- A turn starts within `latency` of its deadline, or of `free` when the loop is late. -/
inductive Prompt : Int → Int → List Turn → Prop where
  | done (due free : Int) : Prompt due free []
  | turn {due free : Int} (t : Turn) (rest : List Turn) (notEarly : max due free ≤ t.start)
      (soon : t.start ≤ max due free + latency) (forward : t.start ≤ t.finish)
      (later : Prompt (due + interval) t.finish rest) : Prompt due free (t :: rest)

variable (interval) in
/-- The turns that end past the next deadline. -/
def overruns (due : Int) : List Turn → Nat
  | [] => 0
  | t :: rest => (if due + interval < t.finish then 1 else 0) + overruns (due + interval) rest

variable {latency free : Int}

theorem Prompt.not_early (prompt : Prompt interval latency due free turns) (k : Nat)
    (t : Turn) (atTurn : turns[k]? = some t) : due + k * interval ≤ t.start := by
  induction prompt generalizing k with
  | done due free => simp at atTurn
  | @turn due free first rest notEarly soon forward later ih =>
      cases k with
      | zero =>
          cases Option.some.inj atTurn
          push_cast
          omega
      | succ k =>
          have next := ih k atTurn
          push_cast
          linarith

section Late
variable {busy : Int} (prompt : Prompt interval latency due free turns)
  (brief : ∀ t ∈ turns, t.finish - t.start ≤ busy)
include prompt brief

/-- Turns that leave `interval - (busy + latency)` to spare make up for a late start by
that much each. -/
theorem Prompt.lateness_le (fits : busy + latency ≤ interval) (k : Nat) (t : Turn)
    (atTurn : turns[k]? = some t) :
    t.start - (due + k * interval) ≤
      latency + max 0 (free - due - k * (interval - (busy + latency))) := by
  induction prompt generalizing k with
  | done due free => simp at atTurn
  | @turn due free first rest notEarly soon forward later ih =>
      have short := brief first List.mem_cons_self
      have shortLater : ∀ t ∈ rest, t.finish - t.start ≤ busy := fun t member =>
        brief t (List.mem_cons_of_mem first member)
      cases k with
      | zero =>
          cases Option.some.inj atTurn
          push_cast
          omega
      | succ k =>
          have next := ih shortLater k atTurn
          have spare : 0 ≤ (k : Int) * (interval - (busy + latency)) :=
            mul_nonneg (Int.natCast_nonneg k) (by omega)
          have step : ((k + 1 : Nat) : Int) * (interval - (busy + latency)) =
              (k : Int) * (interval - (busy + latency)) + (interval - (busy + latency)) := by
            push_cast
            ring
          have place : due + ((k + 1 : Nat) : Int) * interval =
              due + interval + (k : Int) * interval := by
            push_cast
            ring
          rw [place, step]
          omega

/-- A late start costs no more overruns than it takes to make up for it. -/
theorem Prompt.overruns_mul_le (fits : busy + latency ≤ interval) :
    (overruns interval due turns : Int) * (interval - (busy + latency)) ≤
      max 0 (free - due) := by
  induction prompt with
  | done due free => simp [overruns]
  | @turn due free first rest notEarly soon forward later ih =>
      have short := brief first List.mem_cons_self
      have next := ih fun t member => brief t (List.mem_cons_of_mem first member)
      rw [overruns]
      push_cast
      split
      · rename_i late
        have split : (1 + (overruns interval (due + interval) rest : Int)) *
              (interval - (busy + latency)) =
            (interval - (busy + latency)) + (overruns interval (due + interval) rest : Int) *
              (interval - (busy + latency)) := by ring
        rw [split]
        omega
      · rename_i inTime
        rw [zero_add]
        omega

end Late

end Periodic
