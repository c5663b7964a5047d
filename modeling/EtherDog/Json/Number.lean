import EtherDog.Lib.JsonNumber
import EtherDog.Config.Exact
import EtherDog.Config.SdoValue

/-!
# The numbers of a JSON tree (src/cjson/cJSON.c)

`print_number` writes an int as it is, another number to 15 significant digits
where `compare_double` takes these for it, and to 17 otherwise.  Whole numbers of
at most 2^52 are read back as they are; other numbers may differ in their last
bit, and 17 digits denote every double.
-/

set_option autoImplicit false

namespace EtherDog

open CString JsonText

/-- The values of `double`: at most 53 bits, and below 2^1024. -/
def Double.Valid : Double → Prop
  | .finite q => Binary64.round q = q ∧ |q| < 2 ^ 1024
  | _ => True

/-- The second number is finite. -/
def compareDouble (a : Double) (b : Rat) : Bool :=
  match a with
  | .finite a =>
      decide (|Binary64.round (a - b)| ≤ Binary64.round (max |a| |b| * 2 ^ (-52 : Int)))
  -- infinity is no more than infinity
  | .infinite _ => true
  | .nan => false

def printNumber (valueint : Int) (valuedouble : Double) : Text :=
  match valuedouble with
  | .finite d =>
      if d = valueint then decimal valueint
      else if compareDouble (strtod (formatG 15 d)).1 d then formatG 15 d
      else formatG 17 d
  | _ => text "null"

theorem printNumber_form (valueint : Int) (d : Rat) :
    NumberForm (printNumber valueint (.finite d)) := by
  unfold printNumber
  dsimp only
  split
  · exact numberForm_decimal valueint
  · split
    · exact numberForm_formatG (by decide) d
    · exact numberForm_formatG (by decide) d

theorem Double.Valid.bounds {d : Rat} (valid : (Double.finite d).Valid) (nonzero : d ≠ 0) :
    (2 : Rat) ^ (-1074 : Int) ≤ |d| ∧ |d| < 2 ^ 1024 := by
  obtain ⟨double, below⟩ := valid
  refine ⟨?_, below⟩
  have unit : (0 : Rat) < 2 ^ Binary64.place d := zpow_pos (by norm_num) _
  have low : (-1074 : Int) ≤ Binary64.place d := by
    unfold Binary64.place
    omega
  rw [Binary64.round] at double
  generalize Binary64.roundEven (d / 2 ^ Binary64.place d) = m at double
  have some : m ≠ 0 := by
    rintro rfl
    rw [Int.cast_zero, zero_mul] at double
    exact nonzero double.symm
  have one : (1 : Rat) ≤ |(m : Rat)| := by exact_mod_cast Int.one_le_abs some
  calc (2 : Rat) ^ (-1074 : Int) ≤ 2 ^ Binary64.place d := zpow_le_zpow_right₀ (by norm_num) low
    _ ≤ |(m : Rat)| * 2 ^ Binary64.place d := le_mul_of_one_le_left unit.le one
    _ = |d| := by rw [← double, abs_mul, abs_of_pos unit, double]

theorem two_pow_le {k : Nat} (small : k ≤ 3 * 998) : (2 : Rat) ^ k ≤ 10 ^ 998 :=
  calc (2 : Rat) ^ k ≤ 2 ^ (3 * 998) := pow_le_pow_right₀ (by norm_num) small
    _ = (2 ^ 3) ^ 998 := pow_mul 2 3 998
    _ ≤ 10 ^ 998 := pow_le_pow_left₀ (by norm_num) (by norm_num) 998

theorem ten_zpow_le {k : Nat} (small : k ≤ 3 * 998) :
    (10 : Rat) ^ (-998 : Int) ≤ 2 ^ (-k : Int) := by
  rw [zpow_neg, zpow_neg, zpow_natCast]
  exact inv_anti₀ (pow_pos two_pos k) (two_pow_le small)

theorem length_formatG_valid {p : Nat} (some : 0 < p) {d : Rat}
    (valid : (Double.finite d).Valid) : (formatG p d).length ≤ p + 7 := by
  refine length_formatG some fun nonzero => ?_
  obtain ⟨low, high⟩ := valid.bounds nonzero
  exact ⟨le_trans (ten_zpow_le (k := 1074) (by omega)) low,
    lt_of_lt_of_le high (two_pow_le (by omega : 1024 ≤ 3 * 998))⟩

theorem length_printNumber {valueint : Int} {valuedouble : Double} (valid : valuedouble.Valid)
    (fits : MachineInt.Fits 32 valueint) : (printNumber valueint valuedouble).length ≤ 25 := by
  cases valuedouble with
  | finite d =>
      have short := length_formatG_valid (by decide : 0 < 15) valid
      have long := length_formatG_valid (by decide : 0 < 17) valid
      have int := @length_decimal_le valueint (by have := fits.1; omega) (by have := fits.2; omega)
      unfold printNumber
      dsimp only
      split
      · omega
      · split
        · omega
        · omega
  | infinite negative => exact (by decide : 4 ≤ 25)
  | nan => exact (by decide : 4 ≤ 25)

/-! ## What is read back -/

/-- The double next to 1/3 takes 17 digits. -/
def third : Rat := 6004799503160661 / 2 ^ 54

end EtherDog
