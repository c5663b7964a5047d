import EtherDog.Lib.MachineInt

/-!
# Moving averages kept as sums

`sum += x - sum / window` with the division of C, which rounds toward zero.  The
average is `sum / window`.  On samples of bounded size the sum stays bounded,
and on a constant sample it moves toward `window * x` and never past it, so that
the average arrives at the sample and stays there.
-/

set_option autoImplicit false

namespace Smoothing

open MachineInt

def update (window sum x : Int) : Int := sum + (x - sum.tdiv window)

/-- The sum after `samples`, from 0. -/
def sumOf (window : Int) (samples : List Int) : Int := samples.foldl (update window) 0

def average (window sum : Int) : Int := sum.tdiv window

@[simp] theorem sumOf_nil (window : Int) : sumOf window [] = 0 := rfl

theorem sumOf_concat (window : Int) (samples : List Int) (x : Int) :
    sumOf window (samples ++ [x]) = update window (sumOf window samples) x := by
  simp [sumOf]

/-! ## The average -/

section Window
variable {window : Int} (positive : 0 < window)
include positive

/-- Rounding is toward zero on both sides. -/
theorem average_cases (sum : Int) :
    (0 ≤ sum ∧ 0 ≤ average window sum ∧ window * average window sum ≤ sum ∧
        sum < window * average window sum + window) ∨
      (sum < 0 ∧ average window sum ≤ 0 ∧ sum ≤ window * average window sum ∧
        window * average window sum - window < sum) := by
  have split := Int.mul_tdiv_add_tmod sum window
  have below := Int.tmod_lt_of_pos sum positive
  have above := Int.lt_tmod_of_pos sum positive
  unfold average
  rcases Int.lt_or_le sum 0 with negative | nonnegative
  · have quotient : 0 ≤ (-sum).tdiv window := Int.tdiv_nonneg (by omega) positive.le
    rw [Int.neg_tdiv] at quotient
    have rest : 0 ≤ (-sum).tmod window := Int.tmod_nonneg window (by omega)
    rw [Int.neg_tmod] at rest
    exact Or.inr ⟨negative, by omega, by omega, by omega⟩
  · have quotient : 0 ≤ sum.tdiv window := Int.tdiv_nonneg nonnegative positive.le
    have rest := Int.tmod_nonneg window nonnegative
    exact Or.inl ⟨nonnegative, quotient, by omega, by omega⟩

theorem average_mul (x : Int) : average window (window * x) = x :=
  Int.mul_tdiv_cancel_left x positive.ne'

theorem average_mono {low high : Int} (ordered : low ≤ high) :
    average window low ≤ average window high :=
  Int.tdiv_le_tdiv positive ordered

/-! ## Bounded samples -/

/-- The size of the sums over samples of size `bound`. -/
def sumBound (window bound : Int) : Int := window * bound + window - 1

theorem average_abs_le {bound sum : Int} (within : |sum| ≤ sumBound window bound) :
    |average window sum| ≤ bound := by
  obtain ⟨low, high⟩ := abs_le.mp within
  unfold sumBound at low high
  have scaled : window * (bound + 1) = window * bound + window := by ring
  rw [abs_le]
  rcases average_cases positive sum with ⟨_, nonnegative, below, _⟩ | ⟨_, nonpositive, above, _⟩
  · have small : average window sum < bound + 1 :=
      lt_of_mul_lt_mul_left (by omega) positive.le
    constructor
    · omega
    · omega
  · have scaledNeg : window * (-(bound + 1)) = -(window * bound + window) := by ring
    have large : -(bound + 1) < average window sum :=
      lt_of_mul_lt_mul_left (by omega) positive.le
    constructor
    · omega
    · omega

/-- One update keeps the bound: what is taken off makes room for a sample. -/
theorem update_abs_le {bound sum x : Int} (within : |sum| ≤ sumBound window bound)
    (sample : |x| ≤ bound) : |update window sum x| ≤ sumBound window bound := by
  have quotient := abs_le.mp (average_abs_le positive within)
  have samples := abs_le.mp sample
  have sums := abs_le.mp within
  unfold sumBound at sums ⊢
  rw [abs_le]
  change -(window * bound + window - 1) ≤ sum + (x - average window sum) ∧
    sum + (x - average window sum) ≤ window * bound + window - 1
  have room : 0 ≤ (window - 1) * (bound - average window sum) :=
    mul_nonneg (by omega) (by omega)
  have roomBelow : 0 ≤ (window - 1) * (bound + average window sum) :=
    mul_nonneg (by omega) (by omega)
  have expanded : (window - 1) * (bound - average window sum) =
      window * bound - window * average window sum - bound + average window sum := by ring
  have expandedBelow : (window - 1) * (bound + average window sum) =
      window * bound + window * average window sum - bound - average window sum := by ring
  rcases average_cases positive sum with ⟨_, _, _, _⟩ | ⟨_, _, _, _⟩
  · constructor
    · omega
    · omega
  · constructor
    · omega
    · omega

theorem sumOf_abs_le {bound : Int} (nonnegative : 0 ≤ bound) (samples : List Int)
    (small : ∀ x ∈ samples, |x| ≤ bound) : |sumOf window samples| ≤ sumBound window bound := by
  induction samples using List.reverseRecOn with
  | nil =>
      have product := mul_nonneg positive.le nonnegative
      simp only [sumOf_nil, abs_zero, sumBound]
      omega
  | append_singleton earlier x ih =>
      rw [sumOf_concat]
      have before := ih fun y member => small y (List.mem_append_left [x] member)
      exact update_abs_le positive before (small x (by simp))

/-! ## A constant sample -/

/-- Below the sample the sum rises, but not past `window * x`. -/
theorem update_rises {sum x : Int} (below : average window sum < x) :
    sum < update window sum x ∧ update window sum x ≤ window * x := by
  change sum < sum + (x - average window sum) ∧ sum + (x - average window sum) ≤ window * x
  refine ⟨by omega, ?_⟩
  have steps : 0 ≤ (window - 1) * (x - average window sum - 1) :=
    mul_nonneg (by omega) (by omega)
  have expanded : (window - 1) * (x - average window sum - 1) =
      window * x - window * average window sum - window - x + average window sum + 1 := by ring
  rcases average_cases positive sum with ⟨_, _, _, _⟩ | ⟨_, _, _, _⟩
  · omega
  · omega

theorem update_falls {sum x : Int} (above : x < average window sum) :
    update window sum x < sum ∧ window * x ≤ update window sum x := by
  change sum + (x - average window sum) < sum ∧ window * x ≤ sum + (x - average window sum)
  refine ⟨by omega, ?_⟩
  have steps : 0 ≤ (window - 1) * (average window sum - x - 1) :=
    mul_nonneg (by omega) (by omega)
  have expanded : (window - 1) * (average window sum - x - 1) =
      window * average window sum - window * x - window - average window sum + x + 1 := by ring
  rcases average_cases positive sum with ⟨_, _, _, _⟩ | ⟨_, _, _, _⟩
  · omega
  · omega

omit positive in
theorem update_stays {sum x : Int} (there : average window sum = x) :
    update window sum x = sum := by
  change sum + (x - average window sum) = sum
  omega

/-- How far the average is from the sample. -/
def gap (window sum x : Int) : Int := |average window sum - x|

theorem gap_update_le (sum x : Int) : gap window (update window sum x) x ≤ gap window sum x := by
  unfold gap
  rcases lt_trichotomy (average window sum) x with below | there | above
  · obtain ⟨rises, capped⟩ := update_rises positive below
    have low := average_mono positive rises.le
    have high := average_mono positive capped
    rw [average_mul positive] at high
    rw [abs_of_nonpos (by omega), abs_of_nonpos (by omega)]
    omega
  · rw [update_stays there]
  · obtain ⟨falls, capped⟩ := update_falls positive above
    have high := average_mono positive falls.le
    have low := average_mono positive capped
    rw [average_mul positive] at low
    rw [abs_of_nonneg (by omega), abs_of_nonneg (by omega)]
    omega

/-- Until it arrives, the sum comes closer to `window * x` with every update. -/
theorem distance_update_lt {sum x : Int} (apart : average window sum ≠ x) :
    (window * x - update window sum x).natAbs < (window * x - sum).natAbs := by
  rcases lt_or_gt_of_ne apart with below | above
  · obtain ⟨rises, capped⟩ := update_rises positive below
    omega
  · obtain ⟨falls, capped⟩ := update_falls positive above
    omega

theorem sumOf_constant_le (samples : List Int) (x : Int) (k : Nat) :
    gap window (sumOf window (samples ++ List.replicate (k + 1) x)) x ≤
      gap window (sumOf window (samples ++ List.replicate k x)) x := by
  rw [List.replicate_succ', ← List.append_assoc, sumOf_concat]
  exact gap_update_le positive _ x

/-- After as many samples as the sum is away, the average is the sample. -/
theorem sumOf_constant_arrives (samples : List Int) (x : Int) (k : Nat) :
    average window (sumOf window (samples ++ List.replicate k x)) = x ∨
      (window * x - sumOf window (samples ++ List.replicate k x)).natAbs + k ≤
        (window * x - sumOf window samples).natAbs := by
  induction k with
  | zero => exact Or.inr (by simp)
  | succ k ih =>
      rw [List.replicate_succ', ← List.append_assoc, sumOf_concat]
      by_cases there : average window (sumOf window (samples ++ List.replicate k x)) = x
      · rw [update_stays there]
        exact Or.inl there
      · have closer := distance_update_lt positive there
        have before := ih.resolve_left there
        exact Or.inr (by omega)

/-- A constant sample is reached after finitely many updates and kept. -/
theorem sumOf_constant_reaches (samples : List Int) (x : Int) :
    ∃ steps : Nat, ∀ k, steps ≤ k →
      gap window (sumOf window (samples ++ List.replicate k x)) x = 0 := by
  refine ⟨(window * x - sumOf window samples).natAbs + 1, ?_⟩
  intro k late
  have there := (sumOf_constant_arrives positive samples x k).resolve_right (by omega)
  rw [gap, there]
  simp

end Window

/-! ## In machine integers -/

/-- The update as C evaluates it: quotient, difference and sum each have to fit. -/
def checkedUpdate (bits : Nat) (window sum x : Int) : Option Int := do
  let quotient ← checked bits (sum.tdiv window)
  let difference ← checked bits (x - quotient)
  checked bits (sum + difference)

def checkedSum (bits : Nat) (window : Int) (samples : List Int) : Option Int :=
  samples.foldlM (checkedUpdate bits window) 0

/-- What two's complement leaves of the update. -/
def wrappedUpdate (bits : Nat) (window sum x : Int) : Int := wrapped bits (update window sum x)

def wrappedSum (bits : Nat) (window : Int) (samples : List Int) : Int :=
  samples.foldl (wrappedUpdate bits window) 0

theorem checkedUpdate_some {bits : Nat} {window sum x next : Int}
    (done : checkedUpdate bits window sum x = some next) :
    Fits bits next ∧ next = update window sum x := by
  unfold checkedUpdate at done
  obtain ⟨quotient, first, done⟩ := Option.bind_eq_some_iff.mp done
  obtain ⟨difference, second, done⟩ := Option.bind_eq_some_iff.mp done
  obtain ⟨_, rfl⟩ := checked_eq_some_iff.mp first
  obtain ⟨_, rfl⟩ := checked_eq_some_iff.mp second
  obtain ⟨fits, rfl⟩ := checked_eq_some_iff.mp done
  exact ⟨fits, rfl⟩

theorem wrappedSum_of_checked {bits : Nat} {window total : Int} (positive : 0 < bits)
    (samples : List Int) (done : checkedSum bits window samples = some total) :
    wrappedSum bits window samples = total := by
  induction samples using List.reverseRecOn generalizing total with
  | nil => exact Option.some.inj done
  | append_singleton earlier x ih =>
      unfold checkedSum at ih done
      rw [List.foldlM_append] at done
      obtain ⟨before, reached, done⟩ := Option.bind_eq_some_iff.mp done
      obtain ⟨updated, stepped, done⟩ := Option.bind_eq_some_iff.mp done
      cases Option.some.inj done
      obtain ⟨fits, rfl⟩ := checkedUpdate_some stepped
      rw [wrappedSum, List.foldl_append]
      change wrappedUpdate bits window (wrappedSum bits window earlier) x = _
      rw [ih reached]
      exact wrapped_fits positive fits

theorem checkedUpdate_eq {bits : Nat} {window bound sum x : Int} (positive : 0 < window)
    (small : window * bound + window + bound < 2 ^ (bits - 1))
    (within : |sum| ≤ sumBound window bound) (sample : |x| ≤ bound) :
    checkedUpdate bits window sum x = some (update window sum x) := by
  have nonnegative : 0 ≤ bound := (abs_nonneg x).trans sample
  have least : bound ≤ window * bound := le_mul_of_one_le_left nonnegative positive
  have quotient := average_abs_le positive within
  have updated := update_abs_le positive within sample
  have difference : |x - average window sum| ≤ bound + bound :=
    (abs_sub _ _).trans (add_le_add sample quotient)
  have quotientFits : checked bits (sum.tdiv window) = some (sum.tdiv window) :=
    checked_fits (fits_of_abs_lt quotient (by omega))
  have differenceFits : checked bits (x - sum.tdiv window) = some (x - sum.tdiv window) :=
    checked_fits (fits_of_abs_lt difference (by omega))
  rw [checkedUpdate, quotientFits, Option.bind_eq_bind, Option.bind_some, differenceFits,
    Option.bind_some]
  exact checked_fits (fits_of_abs_lt updated (by unfold sumBound; omega))

/-- Samples of bounded size never leave the range of the integers. -/
theorem checkedSum_eq {bits : Nat} {window bound : Int} (positive : 0 < window)
    (nonnegative : 0 ≤ bound) (small : window * bound + window + bound < 2 ^ (bits - 1))
    (samples : List Int) (bounded : ∀ x ∈ samples, |x| ≤ bound) :
    checkedSum bits window samples = some (sumOf window samples) := by
  induction samples using List.reverseRecOn with
  | nil => rfl
  | append_singleton earlier x ih =>
      have before : ∀ y ∈ earlier, |y| ≤ bound := fun y member =>
        bounded y (List.mem_append_left [x] member)
      have reached := ih before
      unfold checkedSum at reached ⊢
      rw [List.foldlM_append, reached, sumOf_concat]
      simpa using checkedUpdate_eq positive small
        (sumOf_abs_le positive nonnegative earlier before) (bounded x (by simp))

end Smoothing
