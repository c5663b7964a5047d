import EtherDog.Lib.JsonText
import EtherDog.Lib.PrintfG

/-!
# Numbers in JSON texts

What `%d` and `%g` write of a number is one of the grammar of JSON, and consists
of the bytes such numbers are made of.
-/

set_option autoImplicit false

namespace JsonText

open CString

/-- A number, with or without a minus. -/
def NumberForm (s : Text) : Prop := DecimalForm s ∨ ∃ rest, s = 45 :: rest ∧ DecimalForm rest

theorem numberForm_formatG {p : Nat} (some : 0 < p) (q : Rat) : NumberForm (formatG p q) :=
  formatG_form some q

theorem decimalForm_digitsOf (n : Nat) : DecimalForm (digitsOf 10 n) := by
  have form := @DecimalForm.mk _ [] [] (isDecimal_digitsOf n) (by simp) (Or.inl rfl)
  simpa [pointed] using form

theorem numberForm_decimal (v : Int) : NumberForm (decimal v) := by
  unfold decimal
  split
  · exact Or.inr ⟨_, rfl, decimalForm_digitsOf _⟩
  · exact Or.inl (decimalForm_digitsOf _)

/-! ## Its bytes -/

def isNumberByte (c : UInt8) : Bool := isDigit c || c == 43 || c == 45 || c == 46 || c == 101

theorem isNumberByte_of_isDigit {c : UInt8} (digit : isDigit c = true) : isNumberByte c = true := by
  simp [isNumberByte, digit]

theorem numberByte_exponentText (exponent : Int) :
    ∀ c ∈ exponentText exponent, isNumberByte c = true := by
  intro c member
  unfold exponentText at member
  rcases List.mem_cons.mp member with rfl | later
  · rfl
  · rcases List.mem_cons.mp later with sign | digits
    · split at sign
      · rw [sign]
        rfl
      · rw [sign]
        rfl
    · rcases List.mem_append.mp digits with zero | digit
      · rw [List.eq_of_mem_replicate zero]
        rfl
      · exact isNumberByte_of_isDigit (isDigit_of_mem_digitsOf digit)

theorem numberByte_decimalForm {s : Text} (form : DecimalForm s) :
    ∀ c ∈ s, isNumberByte c = true := by
  cases form with
  | @mk whole fraction tail canonical digits scaled =>
      intro c member
      rcases List.mem_append.mp member with front | behind
      · exact isNumberByte_of_isDigit (canonical.2.1 c front)
      · rcases List.mem_append.mp behind with inside | last
        · unfold pointed at inside
          split at inside
          · contradiction
          · rcases List.mem_cons.mp inside with rfl | digit
            · rfl
            · exact isNumberByte_of_isDigit (digits c digit)
        · rcases scaled with rfl | ⟨exponent, rfl⟩
          · contradiction
          · exact numberByte_exponentText exponent c last

theorem numberByte_numberForm {s : Text} (form : NumberForm s) :
    ∀ c ∈ s, isNumberByte c = true := by
  rcases form with unsigned | ⟨rest, rfl, unsigned⟩
  · exact numberByte_decimalForm unsigned
  · intro c member
    rcases List.mem_cons.mp member with rfl | later
    · rfl
    · exact numberByte_decimalForm unsigned c later

/-- It begins with a digit or a minus. -/
theorem head_numberForm {s : Text} (form : NumberForm s) :
    ∃ c rest, s = c :: rest ∧ (isDigit c = true ∨ c = 45) := by
  rcases form with unsigned | ⟨rest, rfl, _⟩
  · cases unsigned with
    | @mk whole fraction tail canonical digits scaled =>
        obtain ⟨nonempty, all, _⟩ := canonical
        obtain ⟨c, others, rfl⟩ := List.exists_cons_of_ne_nil nonempty
        exact ⟨c, _, rfl, Or.inl (all c List.mem_cons_self)⟩
  · exact ⟨45, rest, rfl, Or.inr rfl⟩

/-! ## The scanner -/

/-- Where a number may end. -/
def endsNumber : Place → Bool
  | .zero | .digits | .fraction | .power => true
  | _ => false

section Scan
variable (stack : List Container)

theorem step_endsNumber {place : Place} (ends : endsNumber place = true) {c : UInt8}
    (apart : isNumberByte c = false ∧ c ≠ 69) : step ⟨place, stack⟩ c = stepAfter stack c := by
  obtain ⟨other, upper⟩ := apart
  simp only [isNumberByte, Bool.or_eq_false_iff, beq_eq_false_iff_ne, ne_eq] at other
  obtain ⟨⟨⟨⟨digit, _⟩, _⟩, point⟩, lower⟩ := other
  have power : isExponent c = false := by simp [isExponent, lower, upper]
  cases place with
  | zero | digits | fraction | power => simp [step, digit, point, power]
  | _ => contradiction

theorem run_digits {place : Place} (inside : place = .digits ∨ place = .fraction ∨ place = .power)
    {s : Text} (digits : ∀ c ∈ s, isDigit c = true) :
    run ⟨place, stack⟩ s = some ⟨place, stack⟩ := by
  induction s with
  | nil => rfl
  | cons c rest ih =>
      obtain ⟨first, others⟩ := List.forall_mem_cons.mp digits
      have stays : step ⟨place, stack⟩ c = some ⟨place, stack⟩ := by
        rcases inside with rfl | rfl | rfl
        · simp [step, first]
        · simp [step, first]
        · simp [step, first]
      rw [run, stays]
      exact ih others

theorem isDigit_cases {c : UInt8} (digit : isDigit c = true) :
    isBlank c = false ∧ c ≠ 123 ∧ c ≠ 91 ∧ c ≠ 34 ∧ c ≠ 45 ∧ c ≠ 46 ∧ isExponent c = false := by
  have all : ∀ c : UInt8, isDigit c = true →
      isBlank c = false ∧ c ≠ 123 ∧ c ≠ 91 ∧ c ≠ 34 ∧ c ≠ 45 ∧ c ≠ 46 ∧ isExponent c = false := by
    decide +kernel
  exact all c digit

theorem run_whole {start : Place} (begins : start = .value ∨ start = .minus) {whole : Text}
    (canonical : IsDecimal whole) :
    ∃ place, (place = .zero ∨ place = .digits) ∧
      run ⟨start, stack⟩ whole = some ⟨place, stack⟩ := by
  obtain ⟨nonempty, digits, lead⟩ := canonical
  obtain ⟨c, rest, rfl⟩ := List.exists_cons_of_ne_nil nonempty
  obtain ⟨first, others⟩ := List.forall_mem_cons.mp digits
  obtain ⟨blank, brace, bracket, quote, minus, _⟩ := isDigit_cases first
  by_cases zero : c = 48
  · subst zero
    have alone : rest = [] := List.eq_nil_of_length_eq_zero (Nat.succ.inj (lead rfl))
    subst alone
    refine ⟨.zero, Or.inl rfl, ?_⟩
    rcases begins with rfl | rfl
    · rfl
    · rfl
  · refine ⟨.digits, Or.inr rfl, ?_⟩
    have begun : step ⟨start, stack⟩ c = some ⟨.digits, stack⟩ := by
      rcases begins with rfl | rfl
      · simp [step, stepValue, blank, brace, bracket, quote, minus, zero, first]
      · simp [step, zero, first]
    rw [run, begun]
    exact run_digits stack (Or.inl rfl) others

theorem run_pointed {place : Place} (inside : place = .zero ∨ place = .digits) {fraction : Text}
    (digits : ∀ c ∈ fraction, isDigit c = true) :
    ∃ next, (next = .zero ∨ next = .digits ∨ next = .fraction) ∧
      run ⟨place, stack⟩ (pointed fraction) = some ⟨next, stack⟩ := by
  cases fraction with
  | nil => exact ⟨place, inside.imp_right Or.inl, rfl⟩
  | cons c rest =>
      obtain ⟨first, others⟩ := List.forall_mem_cons.mp digits
      refine ⟨.fraction, Or.inr (Or.inr rfl), ?_⟩
      have point : step ⟨place, stack⟩ 46 = some ⟨.point, stack⟩ := by
        rcases inside with rfl | rfl
        · rfl
        · rfl
      have begun : step ⟨.point, stack⟩ c = some ⟨.fraction, stack⟩ := by simp [step, first]
      change run ⟨place, stack⟩ (46 :: c :: rest) = _
      rw [run, point, Option.bind_some, run, begun]
      exact run_digits stack (Or.inr (Or.inl rfl)) others

theorem run_exponentText {place : Place}
    (inside : place = .zero ∨ place = .digits ∨ place = .fraction) (exponent : Int) :
    run ⟨place, stack⟩ (exponentText exponent) = some ⟨.power, stack⟩ := by
  have digits : ∀ c ∈ List.replicate (2 - (digitsOf 10 exponent.natAbs).length) 48 ++
      digitsOf 10 exponent.natAbs, isDigit c = true := by
    intro c member
    rcases List.mem_append.mp member with zero | digit
    · rw [List.eq_of_mem_replicate zero]
      rfl
    · exact isDigit_of_mem_digitsOf digit
  have nonempty : List.replicate (2 - (digitsOf 10 exponent.natAbs).length) 48 ++
      digitsOf 10 exponent.natAbs ≠ [] :=
    fun empty => digitsOf_ne_nil _ (List.append_eq_nil_iff.mp empty).2
  have mark : step ⟨place, stack⟩ 101 = some ⟨.exponent, stack⟩ := by
    rcases inside with rfl | rfl | rfl
    · rfl
    · rfl
    · rfl
  have sign : step ⟨.exponent, stack⟩ (if exponent < 0 then 45 else 43) =
      some ⟨.exponentSign, stack⟩ := by
    split
    · rfl
    · rfl
  unfold exponentText
  dsimp only
  generalize List.replicate (2 - (digitsOf 10 exponent.natAbs).length) 48 ++
    digitsOf 10 exponent.natAbs = power at digits nonempty
  obtain ⟨c, rest, rfl⟩ := List.exists_cons_of_ne_nil nonempty
  obtain ⟨first, others⟩ := List.forall_mem_cons.mp digits
  have begun : step ⟨.exponentSign, stack⟩ c = some ⟨.power, stack⟩ := by simp [step, first]
  rw [run, mark, Option.bind_some, run, sign, Option.bind_some, run, begun]
  exact run_digits stack (Or.inr (Or.inr rfl)) others

theorem run_decimalForm {start : Place} (begins : start = .value ∨ start = .minus) {s : Text}
    (form : DecimalForm s) :
    ∃ place, endsNumber place = true ∧ run ⟨start, stack⟩ s = some ⟨place, stack⟩ := by
  cases form with
  | @mk whole fraction tail canonical digits scaled =>
      obtain ⟨first, atFirst, one⟩ := run_whole stack begins canonical
      obtain ⟨second, atSecond, two⟩ := run_pointed stack atFirst digits
      rw [run_append, one, Option.bind_some, run_append, two, Option.bind_some]
      rcases scaled with rfl | ⟨exponent, rfl⟩
      · refine ⟨second, ?_, rfl⟩
        rcases atSecond with rfl | rfl | rfl
        · rfl
        · rfl
        · rfl
      · exact ⟨.power, rfl, run_exponentText stack atSecond exponent⟩

theorem run_numberForm {s : Text} (form : NumberForm s) :
    ∃ place, endsNumber place = true ∧ run ⟨.value, stack⟩ s = some ⟨place, stack⟩ := by
  rcases form with unsigned | ⟨rest, rfl, unsigned⟩
  · exact run_decimalForm stack (Or.inl rfl) unsigned
  · have minus : step ⟨.value, stack⟩ 45 = some ⟨.minus, stack⟩ := rfl
    rw [run, minus]
    exact run_decimalForm stack (Or.inr rfl) unsigned

end Scan

end JsonText
