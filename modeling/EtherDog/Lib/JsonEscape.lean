import EtherDog.Lib.JsonText

/-!
# Escaping for JSON strings

`escapeOf` is how a byte is written between the quotes of a JSON string: behind a
backslash, as `\u00xx`, or as itself.  `unescape` reads such a text back; it knows
the escapes of single bytes only.  Escaped text never leaves the string it stands
in, and it is never longer than six bytes for one.
-/

set_option autoImplicit false

namespace JsonText

open CString

def escapeOf (c : UInt8) : Text :=
  if c = 34 ∨ c = 92 then [92, c]
  else if c < 32 then 92 :: 117 :: lowerHex 4 c.toNat
  else [c]

def escape (s : Text) : Text := s.flatMap escapeOf

/-- `none` where an escape is cut or unknown. -/
def unescape : Text → Option Text
  | [] => some []
  | 92 :: 34 :: rest => (unescape rest).map (34 :: ·)
  | 92 :: 92 :: rest => (unescape rest).map (92 :: ·)
  | 92 :: 117 :: a :: b :: c :: d :: rest =>
      if [a, b, c, d].all isXDigit && decide (numeral 16 [a, b, c, d] < 128) then
        (unescape rest).map (UInt8.ofNat (numeral 16 [a, b, c, d]) :: ·)
      else none
  | 92 :: _ => none
  | c :: rest => (unescape rest).map (c :: ·)

/-! ## One byte -/

/-- A control byte takes four digits, which denote it. -/
theorem lowerHex_control {c : UInt8} (control : c < 32) :
    ∃ a b x y, lowerHex 4 c.toNat = [a, b, x, y] ∧ [a, b, x, y].all isXDigit = true ∧
      numeral 16 [a, b, x, y] = c.toNat := by
  have all : ∀ n < 32, (lowerHex 4 n).length = 4 ∧ (lowerHex 4 n).all isXDigit = true ∧
      numeral 16 (lowerHex 4 n) = n := by decide +kernel
  obtain ⟨length, digits, value⟩ := all c.toNat (UInt8.lt_iff_toNat_lt.mp control)
  obtain ⟨a, b, x, y, shape⟩ := List.length_eq_four.mp length
  rw [shape] at digits value
  exact ⟨a, b, x, y, shape, digits, value⟩

theorem unescape_escapeOf (c : UInt8) (rest : Text) :
    unescape (escapeOf c ++ rest) = (unescape rest).map (c :: ·) := by
  unfold escapeOf
  split
  · rename_i special
    rcases special with rfl | rfl
    · simp [unescape]
    · simp [unescape]
  · rename_i ordinary
    obtain ⟨notQuote, notBackslash⟩ := not_or.mp ordinary
    split
    · rename_i control
      obtain ⟨a, b, x, y, shape, digits, value⟩ := lowerHex_control control
      have small : c.toNat < 128 := by
        have below := UInt8.lt_iff_toNat_lt.mp control
        exact lt_trans below (by decide)
      rw [shape]
      simp only [List.cons_append, List.nil_append, unescape]
      rw [digits, value, decide_eq_true small, UInt8.ofNat_toNat]
      rfl
    · simp [unescape, notBackslash]

theorem unescape_escape (s : Text) : unescape (escape s) = some s := by
  induction s with
  | nil => rfl
  | cons c rest ih =>
      rw [escape, List.flatMap_cons, unescape_escapeOf]
      change (unescape (escape rest)).map (c :: ·) = _
      rw [ih]
      rfl

theorem length_escapeOf (c : UInt8) : 1 ≤ (escapeOf c).length ∧ (escapeOf c).length ≤ 6 := by
  unfold escapeOf
  split
  · simp
  · split
    · rename_i control
      obtain ⟨a, b, x, y, shape, _, _⟩ := lowerHex_control control
      simp [shape]
    · simp

theorem printable_of_isXDigit {d : UInt8} (digit : isXDigit d = true) : 32 ≤ d := by
  by_contra control
  have low : d.toNat < 32 := UInt8.lt_iff_toNat_lt.mp (UInt8.not_le.mp control)
  simp only [isXDigit, isDigit, toLower, isUpper, Bool.or_eq_true, Bool.and_eq_true,
    decide_eq_true_eq, UInt8.le_iff_toNat_le] at digit
  split at digit
  · simp at digit
    omega
  · simp at digit
    omega

/-- The bytes of an escape are printable. -/
theorem printable_escapeOf {c d : UInt8} (member : d ∈ escapeOf c) : 32 ≤ d := by
  unfold escapeOf at member
  split at member
  · rename_i special
    rcases List.mem_pair.mp member with rfl | rfl
    · decide
    · rcases special with rfl | rfl
      · decide
      · decide
  · split at member
    · rename_i control
      obtain ⟨a, b, x, y, shape, digits, _⟩ := lowerHex_control control
      rw [shape] at member
      rcases List.mem_cons.mp member with rfl | later
      · decide
      · rcases List.mem_cons.mp later with rfl | digit
        · decide
        · exact printable_of_isXDigit (List.all_eq_true.mp digits d digit)
    · rename_i printable
      rw [List.mem_singleton.mp member]
      exact UInt8.not_lt.mp printable

/-- Behind an escape the scanner is in the string it was in. -/
theorem run_escapeOf (c : UInt8) (isName : Bool) (stack : List Container) :
    run ⟨.string isName .plain, stack⟩ (escapeOf c) = some ⟨.string isName .plain, stack⟩ := by
  unfold escapeOf
  split
  · rename_i special
    rcases special with rfl | rfl
    · simp [run, step, stepInside, isEscaped, text]
    · simp [run, step, stepInside, isEscaped, text]
  · rename_i ordinary
    obtain ⟨notQuote, notBackslash⟩ := not_or.mp ordinary
    split
    · rename_i control
      obtain ⟨a, b, x, y, shape, digits, _⟩ := lowerHex_control control
      simp only [List.all_cons, List.all_nil, Bool.and_true, Bool.and_eq_true] at digits
      rw [shape]
      simp [run, step, stepInside, digits]
    · rename_i printable
      simp [run, step, stepInside, notQuote, notBackslash, printable]

theorem run_escape (s : Text) (isName : Bool) (stack : List Container) :
    run ⟨.string isName .plain, stack⟩ (escape s) = some ⟨.string isName .plain, stack⟩ := by
  induction s with
  | nil => rfl
  | cons c rest ih =>
      rw [escape, List.flatMap_cons, run_append, run_escapeOf, Option.bind_some]
      exact ih

theorem printable_escape {s : Text} {d : UInt8} (member : d ∈ escape s) : 32 ≤ d := by
  obtain ⟨c, _, among⟩ := List.mem_flatMap.mp member
  exact printable_escapeOf among

end JsonText
