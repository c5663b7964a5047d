import Mathlib

/-!
# Rounding to binary64

`round` is the nearest number with 53 significant bits and no place below
2^-1074, and at a tie the one whose last bit is even.  Its exponent has no upper
bound: a result from 2^1024 on is one that overflows.
-/

set_option autoImplicit false

namespace Binary64

/-- The nearest whole number, at a tie the even one. -/
def roundEven (x : Rat) : Int :=
  if x - ⌊x⌋ < 1 / 2 then ⌊x⌋
  else if 1 / 2 < x - ⌊x⌋ then ⌊x⌋ + 1
  else ⌊x⌋ + ⌊x⌋ % 2

/-- The exponent of the last place. -/
def place (x : Rat) : Int := max (Int.log 2 |x|) (-1022) - 52

def round (x : Rat) : Rat := roundEven (x / 2 ^ place x) * 2 ^ place x

def overflows (x : Rat) : Bool := 2 ^ 1024 ≤ |round x|

/-! ## Whole numbers -/

theorem le_roundEven {x : Rat} {k : Int} (below : k ≤ x) : k ≤ roundEven x := by
  have floor : k ≤ ⌊x⌋ := Int.le_floor.mpr below
  have parity := Int.emod_nonneg ⌊x⌋ (by norm_num : (2 : Int) ≠ 0)
  unfold roundEven
  split_ifs <;> omega

/-- An even number is the result as far as half a unit away. -/
theorem roundEven_eq_iff_of_even {x : Rat} {k : Int} (even : k % 2 = 0) :
    roundEven x = k ↔ k - 1 / 2 ≤ x ∧ x ≤ k + 1 / 2 := by
  have low := Int.floor_le x
  have high := Int.lt_floor_add_one x
  unfold roundEven
  generalize ⌊x⌋ = n at low high ⊢
  constructor
  · intro same
    split_ifs at same with near far
    · subst same
      constructor <;> linarith
    · subst same
      push_cast
      constructor <;> linarith
    · have tie : x = n + 1 / 2 := by linarith
      rcases Int.emod_two_eq_zero_or_one n with parity | parity
      · rw [parity, add_zero] at same
        subst same
        constructor <;> linarith
      · rw [parity] at same
        subst same
        push_cast
        constructor <;> linarith
  · rintro ⟨above, below⟩
    have floorLow : k - 1 < n + 1 := by
      have bound : (k : Rat) - 1 < n + 1 := by linarith
      exact_mod_cast bound
    have floorHigh : n < k + 1 := by
      have bound : (n : Rat) < k + 1 := by linarith
      exact_mod_cast bound
    obtain rfl | rfl : n = k ∨ n = k - 1 := by omega
    · rw [even, add_zero]
      split_ifs with near far
      · rfl
      · linarith
      · rfl
    · push_cast at low high ⊢
      rw [if_neg (by linarith)]
      split_ifs <;> omega

theorem abs_roundEven_sub_le (x : Rat) : |(roundEven x : Rat) - x| ≤ 1 / 2 := by
  have low := Int.floor_le x
  have high := Int.lt_floor_add_one x
  unfold roundEven
  rw [abs_le]
  split_ifs with near far
  · constructor <;> linarith
  · push_cast
    constructor <;> linarith
  · have tie : x = ⌊x⌋ + 1 / 2 := by linarith
    rcases Int.emod_two_eq_zero_or_one ⌊x⌋ with parity | parity
    · rw [parity, add_zero]
      constructor <;> linarith
    · rw [parity]
      push_cast
      constructor <;> linarith

theorem roundEven_le {x : Rat} {k : Int} (above : x ≤ k) : roundEven x ≤ k := by
  have near := (abs_le.mp (abs_roundEven_sub_le x)).2
  have close : (roundEven x : Rat) < k + 1 := by linarith
  have bound : roundEven x < k + 1 := by exact_mod_cast close
  omega

theorem log_eq {x : Rat} {e : Int} (low : 2 ^ e ≤ x) (high : x < 2 ^ (e + 1)) :
    Int.log 2 x = e := by
  have positive : 0 < x := lt_of_lt_of_le (zpow_pos (by norm_num) e) low
  have lower := (Int.zpow_le_iff_le_log (b := 2) (by norm_num) positive).mp (by exact_mod_cast low)
  have upper := (Int.lt_zpow_iff_log_lt (b := 2) (by norm_num) positive).mp (by exact_mod_cast high)
  omega

theorem place_normal {x : Rat} {e : Int} (normal : -1022 ≤ e) (low : 2 ^ e ≤ x) :
    place x = Int.log 2 x - 52 ∧ e ≤ Int.log 2 x := by
  have positive : 0 < x := lt_of_lt_of_le (zpow_pos (by norm_num) e) low
  have lower := (Int.zpow_le_iff_le_log (b := 2) (by norm_num) positive).mp (by exact_mod_cast low)
  exact ⟨by rw [place, abs_of_pos positive, max_eq_left (by omega)], lower⟩

theorem place_eq {x : Rat} {e : Int} (normal : -1022 ≤ e) (low : 2 ^ e ≤ x)
    (high : x < 2 ^ (e + 1)) : place x = e - 52 := by
  rw [(place_normal normal low).1, log_eq low high]

theorem pow_units (e : Int) :
    (2 : Rat) ^ e = 2 ^ 52 * 2 ^ (e - 52) ∧ (2 : Rat) ^ (e + 1) = 2 ^ 53 * 2 ^ (e - 52) ∧
      (2 : Rat) ^ (e - 53) = 1 / 2 * 2 ^ (e - 52) := by
  have unit (n : Int) : (2 : Rat) ^ (e - 52 + n) = 2 ^ n * 2 ^ (e - 52) := by
    rw [zpow_add₀ (by norm_num), mul_comm]
  have at52 := unit 52
  have at53 := unit 53
  have below := unit (-1)
  rw [show e - 52 + 52 = e by ring] at at52
  rw [show e - 52 + 53 = e + 1 by ring] at at53
  rw [show e - 52 + -1 = e - 53 by ring] at below
  norm_num at at52 at53 below ⊢
  exact ⟨at52, at53, below⟩

/-- A number from a power of two on is not rounded below it. -/
theorem pow_le_round {x : Rat} {e : Int} (normal : -1022 ≤ e) (low : 2 ^ e ≤ x) :
    2 ^ e ≤ round x := by
  have positive : 0 < x := lt_of_lt_of_le (zpow_pos (by norm_num) e) low
  obtain ⟨known, above⟩ := place_normal normal low
  generalize logged : Int.log 2 x = f at known above
  have lower : (2 : Rat) ^ f ≤ x := by
    rw [← logged]
    exact_mod_cast Int.zpow_log_le_self (b := 2) (by norm_num) positive
  have unit : (0 : Rat) < 2 ^ (f - 52) := zpow_pos (by norm_num) _
  have whole : ((2 ^ 52 : Int) : Rat) = 2 ^ 52 := Int.cast_pow 2 52
  have scaled : ((2 ^ 52 : Int) : Rat) ≤ x / 2 ^ (f - 52) := by
    rw [whole, le_div_iff₀ unit, ← (pow_units f).1]
    exact lower
  have digits : (2 : Rat) ^ 52 ≤ roundEven (x / 2 ^ (f - 52)) := by
    rw [← whole]
    exact Int.cast_le.mpr (le_roundEven scaled)
  calc (2 : Rat) ^ e ≤ 2 ^ f := zpow_le_zpow_right₀ (by norm_num) above
    _ = 2 ^ 52 * 2 ^ (f - 52) := (pow_units f).1
    _ ≤ roundEven (x / 2 ^ (f - 52)) * 2 ^ (f - 52) :=
        mul_le_mul_of_nonneg_right digits unit.le
    _ = round x := by rw [round, known]

/-- A power of two takes in what is at most half a place above it, -/
theorem round_eq_pow_iff {x : Rat} {e : Int} (normal : -1022 ≤ e) (low : 2 ^ e ≤ x) :
    round x = 2 ^ e ↔ x ≤ 2 ^ e + 2 ^ (e - 53) := by
  obtain ⟨at52, at53, half⟩ := pow_units e
  have unit : (0 : Rat) < 2 ^ (e - 52) := zpow_pos (by norm_num) _
  by_cases high : x < 2 ^ (e + 1)
  · have digits := roundEven_eq_iff_of_even (x := x / 2 ^ (e - 52)) (k := 2 ^ 52) (by decide)
    have whole : ((2 ^ 52 : Int) : Rat) = 2 ^ 52 := Int.cast_pow 2 52
    rw [← @Int.cast_inj Rat, whole, le_div_iff₀ unit, div_le_iff₀ unit] at digits
    rw [at52] at low
    rw [round, place_eq normal (by rw [at52]; exact low) high, at52, mul_left_inj' unit.ne', half,
      digits]
    constructor
    · rintro ⟨_, below⟩
      linarith
    · intro below
      constructor <;> linarith
  · have beyond := pow_le_round (e := e + 1) (by omega) (not_lt.mp high)
    constructor
    · intro same
      linarith
    · intro below
      linarith

/-- and what is at most half a place, there half as wide, below it. -/
theorem round_eq_pow_of_below {x : Rat} {e : Int} (normal : -1022 ≤ e)
    (near : 2 ^ (e + 1) - 2 ^ (e - 53) ≤ x) (high : x < 2 ^ (e + 1)) : round x = 2 ^ (e + 1) := by
  obtain ⟨at52, at53, half⟩ := pow_units e
  have unit : (0 : Rat) < 2 ^ (e - 52) := zpow_pos (by norm_num) _
  have digits := roundEven_eq_iff_of_even (x := x / 2 ^ (e - 52)) (k := 2 ^ 53) (by decide)
  push_cast at digits
  rw [le_div_iff₀ unit, div_le_iff₀ unit] at digits
  have rounded := digits.mpr (by constructor <;> linarith)
  rw [round, place_eq normal (by linarith) high, rounded, at53]
  push_cast
  rfl

/-! ## Numbers that are not rounded -/

end Binary64
