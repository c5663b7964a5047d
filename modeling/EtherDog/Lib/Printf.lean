import EtherDog.Lib.CString

/-!
# Formatted numbers

The conversions of `printf` that print integers, and the cut `snprintf` makes
at the size of its buffer.
-/

set_option autoImplicit false

namespace CString

/-- What `snprintf` leaves in a buffer of `size` bytes. -/
def snprintf (size : Nat) (s : Text) : Text := s.take (size - 1)

def digitsOf (base n : Nat) : Text := (Nat.toDigits base n).map fun c => UInt8.ofNat c.toNat

/-- `%d` and its wider forms. -/
def decimal (v : Int) : Text :=
  if v < 0 then 45 :: digitsOf 10 v.natAbs else digitsOf 10 v.natAbs

def toUpper (c : UInt8) : UInt8 := if isLower c then c - 32 else c

/-- `%0<width>x`. -/
def lowerHex (width n : Nat) : Text :=
  List.replicate (width - (digitsOf 16 n).length) 48 ++ digitsOf 16 n

/-- `%0<width>X`. -/
def upperHex (width n : Nat) : Text := (lowerHex width n).map toUpper

/-- A field of digits that does not begin with a zero, unless it is one. -/
def IsDecimal (s : Text) : Prop :=
  s ≠ [] ∧ (∀ c ∈ s, isDigit c = true) ∧ (s.head? = some 48 → s.length = 1)

instance (s : Text) : Decidable (IsDecimal s) := inferInstanceAs (Decidable (_ ∧ _))

theorem isDigit_ofNat_toDigits {char : Char} {n : Nat} (listed : char ∈ Nat.toDigits 10 n) :
    isDigit (UInt8.ofNat char.toNat) = true ∧ (UInt8.ofNat char.toNat).toNat = char.toNat := by
  have digit := Nat.isDigit_of_mem_toDigits (by decide) (by decide) listed
  simp only [Char.isDigit, Bool.and_eq_true, decide_eq_true_eq] at digit
  obtain ⟨low, high⟩ := digit
  have lower : 48 ≤ char.toNat := UInt32.le_iff_toNat_le.mp low
  have upper : char.toNat ≤ 57 := UInt32.le_iff_toNat_le.mp high
  have small : (UInt8.ofNat char.toNat).toNat = char.toNat :=
    UInt8.toNat_ofNat_of_lt (by simp [UInt8.size]; omega)
  simp only [isDigit, Bool.and_eq_true, decide_eq_true_eq, UInt8.le_iff_toNat_le, small]
  exact ⟨⟨lower, upper⟩, trivial⟩

theorem isDigit_of_mem_digitsOf {c : UInt8} {n : Nat} (member : c ∈ digitsOf 10 n) :
    isDigit c = true := by
  obtain ⟨char, listed, rfl⟩ := List.mem_map.mp member
  exact (isDigit_ofNat_toDigits listed).1

theorem mem_decimal {c : UInt8} {v : Int} (member : c ∈ decimal v) :
    c = 45 ∨ isDigit c = true := by
  unfold decimal at member
  split at member
  · rcases List.mem_cons.mp member with sign | digit
    · exact Or.inl sign
    · exact Or.inr (isDigit_of_mem_digitsOf digit)
  · exact Or.inr (isDigit_of_mem_digitsOf member)

theorem numeral_digitsOf (n : Nat) : numeral 10 (digitsOf 10 n) = n := by
  have step : ∀ value : Nat, ∀ char ∈ Nat.toDigits 10 n,
      value * 10 + (digitValue (UInt8.ofNat char.toNat)).getD 0 =
        10 * value + (char.toNat - '0'.toNat) := by
    intro value char listed
    obtain ⟨digit, small⟩ := isDigit_ofNat_toDigits listed
    rw [digitValue, if_pos digit, Option.getD_some, small, Nat.mul_comm]
    rfl
  calc numeral 10 (digitsOf 10 n)
      = (Nat.toDigits 10 n).foldl
          (fun value char => value * 10 + (digitValue (UInt8.ofNat char.toNat)).getD 0) 0 := by
        rw [numeral, digitsOf, List.foldl_map]
    _ = Nat.ofDigitChars 10 (Nat.toDigits 10 n) 0 := by
        rw [Nat.ofDigitChars_eq_foldl]
        exact List.foldl_ext _ _ 0 step
    _ = n := Nat.ofDigitChars_ten_toDigits

theorem numeral_snoc (s : Text) (c : UInt8) :
    numeral 10 (s ++ [c]) = numeral 10 s * 10 + (digitValue c).getD 0 := by
  rw [numeral, List.foldl_append]
  rfl

theorem numeral_append (s t : Text) :
    numeral 10 (s ++ t) = numeral 10 s * 10 ^ t.length + numeral 10 t := by
  induction t using List.reverseRecOn with
  | nil => simp [numeral]
  | append_singleton front c ih =>
      rw [← List.append_assoc, numeral_snoc, numeral_snoc, ih, List.length_append,
        List.length_singleton, pow_succ]
      ring

theorem digitValue_digit {c : UInt8} (digit : isDigit c = true) :
    digitValue c = some (c.toNat - 48) ∧ 48 ≤ c.toNat ∧ c.toNat ≤ 57 := by
  refine ⟨if_pos digit, ?_⟩
  simpa [isDigit, UInt8.le_iff_toNat_le] using digit

theorem numeral_below {s : Text} (digits : ∀ c ∈ s, isDigit c = true) :
    numeral 10 s < 10 ^ s.length := by
  induction s using List.reverseRecOn with
  | nil => decide
  | append_singleton front c ih =>
      have digit := digitValue_digit (digits c (by simp))
      have before := ih fun d member => digits d (List.mem_append_left _ member)
      rw [numeral_snoc, digit.1, Option.getD_some, List.length_append, List.length_singleton,
        pow_succ]
      omega

theorem digitsOf_ne_nil (n : Nat) : digitsOf 10 n ≠ [] := by
  intro empty
  rw [digitsOf, List.map_eq_nil_iff] at empty
  exact Nat.toDigits_ne_nil empty

theorem length_digitsOf_le {n width : Nat} (positive : 0 < width) (small : n < 10 ^ width) :
    (digitsOf 10 n).length ≤ width := by
  rw [digitsOf, List.length_map]
  exact (Nat.length_toDigits_le_iff (by decide) positive).mpr small

theorem head_digitsOf {n : Nat} (some : 0 < n) : (digitsOf 10 n).head? ≠ Option.some 48 := by
  intro zero
  obtain ⟨rest, shape⟩ : ∃ rest, digitsOf 10 n = 48 :: rest := by
    cases digits : digitsOf 10 n with
    | nil => exact absurd digits (digitsOf_ne_nil n)
    | cons c rest =>
        rw [digits] at zero
        exact ⟨rest, by rw [Option.some.inj zero]⟩
  have all : ∀ c ∈ rest, isDigit c = true := fun c member =>
    @isDigit_of_mem_digitsOf _ n (by rw [shape]; exact List.mem_cons_of_mem _ member)
  have value := numeral_digitsOf n
  have lead : numeral 10 (48 :: rest) = numeral 10 rest := by
    rw [← List.singleton_append, numeral_append]
    simp [numeral, digitValue, isDigit]
  rw [shape, lead] at value
  have below := numeral_below all
  have nonempty : rest ≠ [] := by
    rintro rfl
    simp [numeral] at value
    omega
  have positive := List.length_pos_of_ne_nil nonempty
  have short := (length_digitsOf_le positive (value ▸ below))
  rw [shape, List.length_cons] at short
  omega

theorem isDecimal_digitsOf (n : Nat) : IsDecimal (digitsOf 10 n) := by
  refine ⟨digitsOf_ne_nil n, fun c member => isDigit_of_mem_digitsOf member, fun zero => ?_⟩
  rcases Nat.eq_zero_or_pos n with rfl | some
  · rfl
  · exact absurd zero (head_digitsOf some)

theorem length_decimal_le {v : Int} (low : -2 ^ 63 ≤ v) (high : v < 2 ^ 63) :
    (decimal v).length ≤ 20 := by
  have digits := @length_digitsOf_le v.natAbs 19 (by decide) (by omega)
  unfold decimal
  split
  · rw [List.length_cons]
    omega
  · omega

example : decimal (-305) = text "-305" := by decide +kernel

example : upperHex 8 0xA553052 = text "0A553052" := by decide +kernel

end CString
