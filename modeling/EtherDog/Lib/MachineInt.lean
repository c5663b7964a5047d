import Mathlib

/-!
# Signed machine integers

The values of a signed integer of `bits` bits, and arithmetic on them: a result
that does not fit is `none`, as it has no defined value in C.  `wrapped` is what
two's complement leaves instead.
-/

set_option autoImplicit false

namespace MachineInt

/-- The value is one of a signed integer of `bits` bits. -/
def Fits (bits : Nat) (v : Int) : Prop := -2 ^ (bits - 1) ≤ v ∧ v < 2 ^ (bits - 1)

instance (bits : Nat) (v : Int) : Decidable (Fits bits v) := inferInstanceAs (Decidable (_ ∧ _))

def checked (bits : Nat) (v : Int) : Option Int := if Fits bits v then some v else none

def wrapped (bits : Nat) (v : Int) : Int := v.bmod (2 ^ bits)

theorem checked_eq_some_iff {bits : Nat} {v w : Int} :
    checked bits v = some w ↔ Fits bits v ∧ v = w := by
  unfold checked
  split
  · rename_i fits
    simp [fits]
  · rename_i outside
    simp [outside]

theorem checked_fits {bits : Nat} {v : Int} (fits : Fits bits v) : checked bits v = some v :=
  if_pos fits

theorem wrapped_fits {bits : Nat} {v : Int} (positive : 0 < bits) (fits : Fits bits v) :
    wrapped bits v = v := by
  obtain ⟨low, high⟩ := fits
  have halves : (2 : Int) ^ bits = 2 * 2 ^ (bits - 1) := by
    rw [← pow_succ', Nat.sub_add_cancel positive]
  unfold wrapped
  apply Int.bmod_eq_of_le
  · push_cast
    omega
  · push_cast
    omega

theorem fits_of_abs_lt {bits : Nat} {v bound : Int} (within : |v| ≤ bound)
    (small : bound < 2 ^ (bits - 1)) : Fits bits v := by
  obtain ⟨low, high⟩ := abs_le.mp within
  exact ⟨by omega, by omega⟩

end MachineInt
