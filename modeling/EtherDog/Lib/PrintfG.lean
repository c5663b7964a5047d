import EtherDog.Lib.Binary64
import EtherDog.Lib.KeyFile
import EtherDog.Lib.Strtod

/-!
# The conversion %g

`formatG` is `%.<p>g` of an exact number: `p` significant digits, rounded to the
nearest and at a tie to the even one, with a fixed point or an exponent, and
without zeros at the end.  The number that is printed differs by at most half a
unit in the last digit.
-/

set_option autoImplicit false

namespace CString

open Binary64

/-! ## Significant digits -/

/-- `mantissa * 10 ^ (exponent - (p - 1))`. -/
structure Significant where
  mantissa : Nat
  exponent : Int
  deriving DecidableEq, Repr

def Significant.value (p : Nat) (s : Significant) : Rat :=
  s.mantissa * (10 : Rat) ^ (s.exponent - (p - 1 : Int))

/-- A positive number to `p` digits. -/
def significant (p : Nat) (q : Rat) : Significant :=
  let exponent := Int.log 10 q
  let mantissa := (roundEven (q / (10 : Rat) ^ (exponent - (p - 1 : Int)))).toNat
  if mantissa = 10 ^ p then ⟨10 ^ (p - 1), exponent + 1⟩ else ⟨mantissa, exponent⟩

theorem ten_zpow_pos (e : Int) : (0 : Rat) < 10 ^ e := zpow_pos (by norm_num) e

theorem ten_zpow_natCast_sub (k : Nat) (e : Int) :
    (10 : Rat) ^ (e - k) * (10 : Rat) ^ k = 10 ^ e := by
  rw [← zpow_natCast, ← zpow_add₀ (by norm_num), sub_add_cancel]

section Significant
variable {p : Nat} {q : Rat} (some : 0 < p) (positive : 0 < q)
include some positive

/-- The rounded quotient has `p` digits, or is the first number with one more. -/
theorem scaled_bounds :
    let scaled := q / (10 : Rat) ^ (Int.log 10 q - (p - 1 : Int))
    (10 : Int) ^ (p - 1) ≤ roundEven scaled ∧ roundEven scaled ≤ 10 ^ p := by
  intro scaled
  have low : (10 : Rat) ^ Int.log 10 q ≤ q := by
    exact_mod_cast Int.zpow_log_le_self (b := 10) (by norm_num) positive
  have high : q < (10 : Rat) ^ (Int.log 10 q + 1) := by
    exact_mod_cast Int.lt_zpow_succ_log_self (b := 10) (by norm_num) q
  have unit := ten_zpow_pos (Int.log 10 q - (p - 1 : Int))
  have short : (10 : Rat) ^ (Int.log 10 q - (p - 1 : Int)) * 10 ^ (p - 1) = 10 ^ Int.log 10 q := by
    have cut := ten_zpow_natCast_sub (p - 1) (Int.log 10 q)
    rwa [Nat.cast_sub some, Nat.cast_one] at cut
  have long : (10 : Rat) ^ (Int.log 10 q - (p - 1 : Int)) * 10 ^ p =
      10 ^ (Int.log 10 q + 1) := by
    have cut := ten_zpow_natCast_sub p (Int.log 10 q + 1)
    rwa [show Int.log 10 q + 1 - (p : Int) = Int.log 10 q - (p - 1 : Int) by ring] at cut
  constructor
  · refine le_roundEven ?_
    rw [le_div_iff₀ unit, Int.cast_pow, Int.cast_ofNat, mul_comm, short]
    exact low
  · refine roundEven_le ?_
    rw [div_le_iff₀ unit, Int.cast_pow, Int.cast_ofNat, mul_comm, long]
    exact high.le

theorem significant_mantissa :
    10 ^ (p - 1) ≤ (significant p q).mantissa ∧ (significant p q).mantissa < 10 ^ p := by
  obtain ⟨low, high⟩ := scaled_bounds some positive
  generalize rounded : roundEven (q / (10 : Rat) ^ (Int.log 10 q - (p - 1 : Int))) = n at low high
  have natural : (0 : Int) ≤ n := le_trans (by positivity) low
  have lower : 10 ^ (p - 1) ≤ n.toNat := by
    rw [Int.le_toNat natural]
    exact_mod_cast low
  have upper : n.toNat ≤ 10 ^ p := by
    rw [Int.toNat_le]
    exact_mod_cast high
  unfold significant
  simp only [rounded]
  split
  · exact ⟨le_rfl, Nat.pow_lt_pow_right (by norm_num) (by omega)⟩
  · rename_i short
    exact ⟨lower, lt_of_le_of_ne upper short⟩

end Significant

def stripZeros (digits : Text) : Text := digits.rdropWhile (· == 48)

/-- A point and the digits behind it, if there are any. -/
def pointed (fraction : Text) : Text := if fraction = [] then [] else 46 :: fraction

def fixedText (digits : Text) (exponent : Int) : Text :=
  if 0 ≤ exponent then
    digits.take (exponent.toNat + 1) ++ pointed (stripZeros (digits.drop (exponent.toNat + 1)))
  else 48 :: pointed (stripZeros (List.replicate (-exponent - 1).toNat 48 ++ digits))

/-- A sign and at least two digits. -/
def exponentText (exponent : Int) : Text :=
  let digits := digitsOf 10 exponent.natAbs
  101 :: (if exponent < 0 then 45 else 43) :: (List.replicate (2 - digits.length) 48 ++ digits)

def scientificText (digits : Text) (exponent : Int) : Text :=
  digits.take 1 ++ (pointed (stripZeros (digits.drop 1)) ++ exponentText exponent)

def unsignedG (p : Nat) (q : Rat) : Text :=
  let s := significant p q
  let digits := digitsOf 10 s.mantissa
  if -4 ≤ s.exponent ∧ s.exponent < p then fixedText digits s.exponent
  else scientificText digits s.exponent

/-- `%.<p>g`. -/
def formatG (p : Nat) (q : Rat) : Text :=
  if q = 0 then [48]
  else if q < 0 then 45 :: unsignedG p (-q)
  else unsignedG p q

example : formatG 15 (3 / 10) = text "0.3" := by decide +kernel

example : formatG 15 (-12345678901234567) = text "-1.23456789012346e+16" := by decide +kernel

/-! ## The number it denotes -/

open Strtod (Fraction Exponent Literal Unsigned Sign Numeral signed)

theorem take_append_ne_nil {digits : Text} (some : digits ≠ []) (k : Nat) (fraction : Text) :
    digits.take (k + 1) ++ fraction ≠ [] := by
  intro empty
  rcases List.take_eq_nil_iff.mp (List.append_eq_nil_iff.mp empty).1 with zero | none
  · omega
  · exact some none

section Literals
variable {digits : Text} (decimal : ∀ c ∈ digits, digitIn 10 c = true) (some : digits ≠ [])
  (exponent : Int)
include decimal some

end Literals

section Values
variable {p : Nat} (some : 0 < p) (q : Rat)
include some

theorem length_mantissa (positive : 0 < q) :
    (digitsOf 10 (significant p q).mantissa).length = p := by
  obtain ⟨low, high⟩ := significant_mantissa some positive
  refine le_antisymm (length_digitsOf_le some high) ?_
  by_contra short
  have all : ∀ c ∈ digitsOf 10 (significant p q).mantissa, isDigit c = true :=
    fun c member => isDigit_of_mem_digitsOf member
  have below := numeral_below all
  rw [numeral_digitsOf] at below
  have smaller : 10 ^ (digitsOf 10 (significant p q).mantissa).length ≤ 10 ^ (p - 1) :=
    Nat.pow_le_pow_right (by norm_num) (by omega)
  omega

end Values

/-- A canonical number, a fraction and an exponent, each behind the first left out where it has
no digits. -/
inductive DecimalForm : Text → Prop where
  | mk {whole fraction tail : Text} (canonical : IsDecimal whole)
      (digits : ∀ c ∈ fraction, isDigit c = true)
      (scaled : tail = [] ∨ ∃ exponent, tail = exponentText exponent) :
      DecimalForm (whole ++ (pointed fraction ++ tail))

theorem isDigit_stripZeros {digits : Text} (decimal : ∀ c ∈ digits, isDigit c = true) :
    ∀ c ∈ stripZeros digits, isDigit c = true :=
  fun c member => decimal c ((List.rdropWhile_prefix _ _).subset member)

theorem isDecimal_zero : IsDecimal [48] := isDecimal_digitsOf 0

theorem isDecimal_take {digits : Text} (decimal : ∀ c ∈ digits, isDigit c = true)
    (some : digits ≠ []) (lead : digits.head? ≠ Option.some 48) (k : Nat) :
    IsDecimal (digits.take (k + 1)) := by
  refine ⟨?_, fun c member => decimal c (List.mem_of_mem_take member), fun zero => ?_⟩
  · intro empty
    have nonempty := take_append_ne_nil some k []
    rw [List.append_nil] at nonempty
    exact nonempty empty
  · cases digits with
    | nil => exact absurd rfl some
    | cons c rest => exact absurd zero lead

theorem unsignedG_form {p : Nat} {q : Rat} (some : 0 < p) (positive : 0 < q) :
    DecimalForm (unsignedG p q) := by
  have decimal : ∀ c ∈ digitsOf 10 (significant p q).mantissa, isDigit c = true :=
    fun c member => isDigit_of_mem_digitsOf member
  have nonempty := digitsOf_ne_nil (significant p q).mantissa
  have lead := head_digitsOf (lt_of_lt_of_le (pow_pos (by norm_num) _)
    (significant_mantissa some positive).1)
  have behind : ∀ k, ∀ c ∈ (digitsOf 10 (significant p q).mantissa).drop k, isDigit c = true :=
    fun k c member => decimal c (List.mem_of_mem_drop member)
  unfold unsignedG
  dsimp only
  split
  · unfold fixedText
    split
    · have form := DecimalForm.mk
        (isDecimal_take decimal nonempty lead (significant p q).exponent.toNat)
        (isDigit_stripZeros (behind ((significant p q).exponent.toNat + 1))) (Or.inl rfl)
      rwa [List.append_nil] at form
    · have zeros : ∀ c ∈ List.replicate (-(significant p q).exponent - 1).toNat 48 ++
          digitsOf 10 (significant p q).mantissa, isDigit c = true := by
        intro c member
        rcases List.mem_append.mp member with zero | digit
        · rw [List.eq_of_mem_replicate zero]
          rfl
        · exact decimal c digit
      have form := @DecimalForm.mk [48] _ [] isDecimal_zero (isDigit_stripZeros zeros) (Or.inl rfl)
      rwa [List.append_nil] at form
  · exact .mk (isDecimal_take decimal nonempty lead 0) (isDigit_stripZeros (behind 1))
      (Or.inr ⟨_, rfl⟩)

theorem formatG_form {p : Nat} (some : 0 < p) (q : Rat) :
    DecimalForm (formatG p q) ∨ ∃ rest, formatG p q = 45 :: rest ∧ DecimalForm rest := by
  unfold formatG
  split
  · exact Or.inl (@DecimalForm.mk [48] [] [] isDecimal_zero (by simp) (Or.inl rfl))
  · rename_i nonzero
    split
    · rename_i negative
      exact Or.inr ⟨_, rfl, unsignedG_form some (neg_pos.mpr negative)⟩
    · rename_i natural
      exact Or.inl (unsignedG_form some (lt_of_le_of_ne (not_lt.mp natural) (Ne.symm nonzero)))

/-! ## Its length -/

theorem significant_exponent {p : Nat} {q : Rat} :
    (significant p q).exponent = Int.log 10 q ∨ (significant p q).exponent = Int.log 10 q + 1 := by
  unfold significant
  dsimp only
  split
  · exact Or.inr rfl
  · exact Or.inl rfl

theorem length_pointed_stripZeros (digits : Text) :
    (pointed (stripZeros digits)).length ≤ digits.length + 1 := by
  have short := (List.rdropWhile_prefix (· == 48) digits).length_le
  unfold pointed stripZeros
  split
  · simp
  · rw [List.length_cons]
    omega

theorem length_exponentText {exponent : Int} (small : exponent.natAbs < 1000) :
    (exponentText exponent).length ≤ 5 := by
  have digits := @length_digitsOf_le exponent.natAbs 3 (by decide) (by omega)
  unfold exponentText
  simp only [List.length_cons, List.length_append, List.length_replicate]
  omega

/-- A sign, a point and an exponent or some zeros besides the digits. -/
theorem length_formatG {p : Nat} (some : 0 < p) {q : Rat}
    (bounded : q ≠ 0 → (10 : Rat) ^ (-998 : Int) ≤ |q| ∧ |q| < 10 ^ (998 : Int)) :
    (formatG p q).length ≤ p + 7 := by
  have unsigned {r : Rat} (low : (10 : Rat) ^ (-998 : Int) ≤ r) (high : r < 10 ^ (998 : Int)) :
      (unsignedG p r).length ≤ p + 6 := by
    have positive := lt_of_lt_of_le (ten_zpow_pos _) low
    have lower : -998 ≤ Int.log 10 r :=
      (Int.zpow_le_iff_le_log (by norm_num) positive).mp (by exact_mod_cast low)
    have upper : Int.log 10 r < 998 :=
      (Int.lt_zpow_iff_log_lt (by norm_num) positive).mp (by exact_mod_cast high)
    have size := length_mantissa some r positive
    have exponent := @significant_exponent p r
    unfold unsignedG
    dsimp only
    generalize digitsOf 10 (significant p r).mantissa = digits at size
    generalize (significant p r).exponent = e at exponent
    split
    · rename_i inside
      unfold fixedText
      split
      · have behind := length_pointed_stripZeros (digits.drop (e.toNat + 1))
        rw [List.length_drop] at behind
        rw [List.length_append, List.length_take]
        omega
      · have behind := length_pointed_stripZeros (List.replicate (-e - 1).toNat 48 ++ digits)
        rw [List.length_append, List.length_replicate] at behind
        rw [List.length_cons]
        omega
    · have behind := length_pointed_stripZeros (digits.drop 1)
      have tail := @length_exponentText e (by omega)
      rw [List.length_drop] at behind
      unfold scientificText
      rw [List.length_append, List.length_append, List.length_take]
      omega
  unfold formatG
  split
  · simp
  · rename_i nonzero
    obtain ⟨low, high⟩ := bounded nonzero
    split
    · rename_i negative
      rw [abs_of_neg negative] at low high
      have short := unsigned low high
      rw [List.length_cons]
      omega
    · rename_i natural
      rw [abs_of_nonneg (not_lt.mp natural)] at low high
      have short := unsigned low high
      omega

end CString
