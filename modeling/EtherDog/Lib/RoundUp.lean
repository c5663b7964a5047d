import Mathlib

/-!
# Sizes in whole units

A size takes as many units as `⌈/⌉` says.  Where sizes are rounded up one by one,
their units exceed those of the sum by less than one for each of them; where they
are rounded once, slack has to make up for it.
-/

set_option autoImplicit false

namespace RoundUp

variable (unit : Nat)

def unitsOf (sizes : List Nat) : Nat := (sizes.map (· ⌈/⌉ unit)).sum

@[simp] theorem unitsOf_nil : unitsOf unit [] = 0 := rfl

@[simp] theorem unitsOf_cons (size : Nat) (rest : List Nat) :
    unitsOf unit (size :: rest) = size ⌈/⌉ unit + unitsOf unit rest := by
  simp [unitsOf]

theorem mul_ceilDiv_le (size : Nat) : unit * (size ⌈/⌉ unit) ≤ size + (unit - 1) := by
  have floor := Nat.mul_div_le (size + unit - 1) unit
  rw [Nat.ceilDiv_eq_add_pred_div]
  omega

theorem mul_unitsOf_le (sizes : List Nat) :
    unit * unitsOf unit sizes ≤ sizes.sum + sizes.length * (unit - 1) := by
  induction sizes with
  | nil => simp
  | cons size rest ih =>
      have first := mul_ceilDiv_le unit size
      rw [unitsOf_cons, Nat.mul_add, List.sum_cons, List.length_cons, Nat.succ_mul]
      omega

/-- One unit of slack for each size covers the rounding. -/
theorem unitsOf_le {unit : Nat} (positive : 0 < unit) (sizes : List Nat) :
    unitsOf unit sizes ≤ sizes.sum ⌈/⌉ unit + sizes.length := by
  have whole : sizes.sum ≤ unit * (sizes.sum ⌈/⌉ unit) := le_smul_ceilDiv positive
  have parts := mul_unitsOf_le unit sizes
  have slack : sizes.length * (unit - 1) ≤ sizes.length * unit :=
    Nat.mul_le_mul_left _ (Nat.sub_le _ _)
  apply Nat.le_of_mul_le_mul_left _ positive
  calc unit * unitsOf unit sizes
      ≤ sizes.sum + sizes.length * (unit - 1) := parts
    _ ≤ unit * (sizes.sum ⌈/⌉ unit) + sizes.length * unit := Nat.add_le_add whole slack
    _ = unit * (sizes.sum ⌈/⌉ unit + sizes.length) := by
      rw [Nat.mul_add, Nat.mul_comm unit sizes.length]

end RoundUp
