import EtherDog.Lib.CString

/-!
# strtod

The number that `strtod` finds at the head of a text, exact, and the text behind
it.  `Numeral` is the grammar of such numbers: white space, a sign, and digits
with a point and an exponent, decimal or hexadecimal.  `read_numeral_iff` says
that the reader takes a text as a whole exactly where it is a numeral.
-/

set_option autoImplicit false

namespace Strtod

open CString

/-! ## The reader -/

/-- The digits of a kind of literal and what its exponent multiplies by. -/
structure LiteralKind where
  radix : Nat
  mark : UInt8 → Bool
  scale : Nat
  apart : ∀ c, mark c = true → digitIn radix c = false ∧ c ≠ 46

theorem decimal_apart (c : UInt8) (mark : (c == 101 || c == 69) = true) :
    digitIn 10 c = false ∧ c ≠ 46 := by
  have either : c = 101 ∨ c = 69 := by simpa using mark
  rcases either with rfl | rfl <;> decide

theorem hexadecimal_apart (c : UInt8) (mark : (c == 112 || c == 80) = true) :
    digitIn 16 c = false ∧ c ≠ 46 := by
  have either : c = 112 ∨ c = 80 := by simpa using mark
  rcases either with rfl | rfl <;> decide

def decimal : LiteralKind := ⟨10, fun c => c == 101 || c == 69, 10, decimal_apart⟩

def hexadecimal : LiteralKind := ⟨16, fun c => c == 112 || c == 80, 2, hexadecimal_apart⟩

def LiteralKind.value (n : LiteralKind) (digits fraction : Text) (exponent : Int) : Rat :=
  numeral n.radix (digits ++ fraction) / (n.radix : Rat) ^ fraction.length *
    (n.scale : Rat) ^ exponent

def signed {α : Type} [Neg α] (negative : Bool) (v : α) : α := if negative then -v else v

/-- The digits behind a point. -/
def readFraction (radix : Nat) (s : Text) : Text × Text :=
  match s with
  | 46 :: rest => (rest.takeWhile (digitIn radix), rest.dropWhile (digitIn radix))
  | _ => ([], s)

/-- Without a digit behind the mark there is no exponent. -/
def readExponent (mark : UInt8 → Bool) (s : Text) : Int × Text :=
  match s with
  | [] => (0, [])
  | c :: rest =>
      let (negative, digits) := sign rest
      if mark c ∧ digits.takeWhile isDigit ≠ [] then
        (signed negative (numeral 10 (digits.takeWhile isDigit) : Int), digits.dropWhile isDigit)
      else (0, s)

def readLiteral (n : LiteralKind) (s : Text) : Option (Rat × Text) :=
  let digits := s.takeWhile (digitIn n.radix)
  let (fraction, behind) := readFraction n.radix (s.dropWhile (digitIn n.radix))
  if digits ++ fraction = [] then none
  else
    let (exponent, rest) := readExponent n.mark behind
    some (n.value digits fraction exponent, rest)

def readUnsigned (body : Text) : Option (Rat × Text) :=
  match body with
  | 48 :: mark :: digits =>
      if isHexMark mark then
        (readLiteral hexadecimal digits).orElse fun _ => readLiteral decimal body
      else readLiteral decimal body
  | _ => readLiteral decimal body

inductive Number where
  | finite (q : Rat)
  | infinite (negative : Bool)
  | nan
  deriving DecidableEq, Repr

def startsWith (word : String) (body : Text) : Bool :=
  (body.take (text word).length).map toLower == text word

/-- The characters in the parentheses behind `nan`, with which they are dropped. -/
def dropPayload (s : Text) : Text :=
  match s with
  | 40 :: inside =>
      match inside.dropWhile fun c => isAlnum c || c == 95 with
      | 41 :: rest => rest
      | _ => s
  | _ => s

def readWord (negative : Bool) (body : Text) : Option (Number × Text) :=
  if startsWith "infinity" body then some (.infinite negative, body.drop 8)
  else if startsWith "inf" body then some (.infinite negative, body.drop 3)
  else if startsWith "nan" body then some (.nan, dropPayload (body.drop 3))
  else none

/-- `none` where no number is found. -/
def read (s : Text) : Option (Number × Text) :=
  let (negative, body) := sign (s.dropWhile isSpace)
  match readUnsigned body with
  | some (q, rest) => some (.finite (signed negative q), rest)
  | none => readWord negative body

/-! ## The grammar -/

inductive Sign : Text → Bool → Prop where
  | absent : Sign [] false
  | plus : Sign [43] false
  | minus : Sign [45] true

inductive Fraction (radix : Nat) : Text → Text → Prop where
  | absent : Fraction radix [] []
  | point {digits : Text} (inRadix : ∀ c ∈ digits, digitIn radix c = true) :
      Fraction radix (46 :: digits) digits

inductive Exponent (mark : UInt8 → Bool) : Text → Int → Prop where
  | absent : Exponent mark [] 0
  | given {c : UInt8} {signs digits : Text} {negative : Bool} (marked : mark c = true)
      (sign : Sign signs negative) (nonempty : digits ≠ [])
      (decimal : ∀ d ∈ digits, isDigit d = true) :
      Exponent mark (c :: (signs ++ digits)) (signed negative (numeral 10 digits : Int))

inductive Literal (n : LiteralKind) : Text → Rat → Prop where
  | mk {digits point fraction tail : Text} {exponent : Int}
      (inRadix : ∀ c ∈ digits, digitIn n.radix c = true)
      (fractional : Fraction n.radix point fraction)
      (nonempty : digits ++ fraction ≠ [])
      (scaled : Exponent n.mark tail exponent) :
      Literal n (digits ++ (point ++ tail)) (n.value digits fraction exponent)

inductive Unsigned : Text → Rat → Prop where
  | decimal {body : Text} {q : Rat} (literal : Literal decimal body q) : Unsigned body q
  | hexadecimal {mark : UInt8} {body : Text} {q : Rat} (marked : isHexMark mark = true)
      (literal : Literal hexadecimal body q) : Unsigned (48 :: mark :: body) q

/-- What the whole text denotes. -/
inductive Numeral : Text → Rat → Prop where
  | mk {blanks signs body : Text} {negative : Bool} {q : Rat}
      (blank : ∀ c ∈ blanks, isSpace c = true) (sign : Sign signs negative)
      (unsigned : Unsigned body q) : Numeral (blanks ++ (signs ++ body)) (signed negative q)

/-! ## What is read is of the grammar -/

theorem sign_sound (s : Text) : ∃ signs, s = signs ++ (sign s).2 ∧ Sign signs (sign s).1 := by
  unfold sign
  split
  · exact ⟨[45], rfl, .minus⟩
  · exact ⟨[43], rfl, .plus⟩
  · exact ⟨[], rfl, .absent⟩

theorem readFraction_sound (radix : Nat) (s : Text) :
    ∃ point, s = point ++ (readFraction radix s).2 ∧
      Fraction radix point (readFraction radix s).1 := by
  unfold readFraction
  split
  · rename_i rest
    exact ⟨46 :: rest.takeWhile (digitIn radix), by simp,
      .point fun c member => List.mem_takeWhile_imp member⟩
  · exact ⟨[], rfl, .absent⟩

theorem readExponent_sound (mark : UInt8 → Bool) (s : Text) :
    ∃ tail, s = tail ++ (readExponent mark s).2 ∧ Exponent mark tail (readExponent mark s).1 := by
  cases s with
  | nil => exact ⟨[], rfl, .absent⟩
  | cons c rest =>
      obtain ⟨signs, behind, signSound⟩ := sign_sound rest
      unfold readExponent
      dsimp only
      split
      · rename_i found
        refine ⟨c :: (signs ++ (sign rest).2.takeWhile isDigit), ?_,
          .given found.1 signSound found.2 fun d member => List.mem_takeWhile_imp member⟩
        rw [List.cons_append, List.append_assoc, List.takeWhile_append_dropWhile, ← behind]
      · exact ⟨[], rfl, .absent⟩

theorem readLiteral_sound {n : LiteralKind} {s rest : Text} {q : Rat}
    (found : readLiteral n s = some (q, rest)) : ∃ body, s = body ++ rest ∧ Literal n body q := by
  obtain ⟨point, fractionBehind, fractional⟩ :=
    readFraction_sound n.radix (s.dropWhile (digitIn n.radix))
  obtain ⟨tail, tailBehind, scaled⟩ :=
    readExponent_sound n.mark (readFraction n.radix (s.dropWhile (digitIn n.radix))).2
  unfold readLiteral at found
  dsimp only at found
  split at found
  · simp at found
  · rename_i nonempty
    simp only [Option.some.injEq, Prod.mk.injEq] at found
    obtain ⟨rfl, rfl⟩ := found
    refine ⟨s.takeWhile (digitIn n.radix) ++ (point ++ tail), ?_,
      .mk (fun c member => List.mem_takeWhile_imp member) fractional nonempty scaled⟩
    rw [List.append_assoc, List.append_assoc, ← tailBehind, ← fractionBehind,
      List.takeWhile_append_dropWhile]

theorem readUnsigned_sound {s rest : Text} {q : Rat}
    (found : readUnsigned s = some (q, rest)) : ∃ body, s = body ++ rest ∧ Unsigned body q := by
  have plain (read : readLiteral decimal s = some (q, rest)) :
      ∃ body, s = body ++ rest ∧ Unsigned body q := by
    obtain ⟨body, split, literal⟩ := readLiteral_sound read
    exact ⟨body, split, .decimal literal⟩
  unfold readUnsigned at found
  split at found
  · rename_i mark digits
    split at found
    · rename_i marked
      cases hex : readLiteral hexadecimal digits with
      | none =>
          rw [hex] at found
          exact plain found
      | some inside =>
          rw [hex] at found
          cases Option.some.inj found
          obtain ⟨body, split, literal⟩ := readLiteral_sound hex
          exact ⟨48 :: mark :: body, by rw [split]; rfl, .hexadecimal marked literal⟩
    · exact plain found
  · exact plain found

theorem read_sound {s rest : Text} {q : Rat} (found : read s = some (.finite q, rest)) :
    ∃ t, s = t ++ rest ∧ Numeral t q := by
  obtain ⟨signs, behind, signSound⟩ := sign_sound (s.dropWhile isSpace)
  unfold read at found
  dsimp only at found
  split at found
  · rename_i v later unsigned
    obtain ⟨body, split, unsignedSound⟩ := readUnsigned_sound unsigned
    simp only [Option.some.injEq, Prod.mk.injEq, Number.finite.injEq] at found
    obtain ⟨rfl, rfl⟩ := found
    refine ⟨s.takeWhile isSpace ++ (signs ++ body), ?_,
      .mk (fun c member => List.mem_takeWhile_imp member) signSound unsignedSound⟩
    rw [List.append_assoc, List.append_assoc, ← split, ← behind, List.takeWhile_append_dropWhile]
  · unfold readWord at found
    split_ifs at found <;> simp at found

/-! ## A text of the grammar is read as a whole -/

/-- What a run of digits, or of white space, stops at. -/
def StopsAt (p : UInt8 → Bool) (rest : Text) : Prop := ∀ c later, rest = c :: later → p c = false

theorem takeWhile_run {p : UInt8 → Bool} {run : Text} (all : ∀ c ∈ run, p c = true) (rest : Text)
    (stops : StopsAt p rest) :
    (run ++ rest).takeWhile p = run ∧ (run ++ rest).dropWhile p = rest := by
  rw [List.takeWhile_append_of_pos all, List.dropWhile_append_of_pos all]
  cases rest with
  | nil => simp
  | cons c later => simp [stops c later rfl]

theorem stopsAt_nil (p : UInt8 → Bool) : StopsAt p [] := by
  intro c later empty
  cases empty

theorem Sign.complete {signs : Text} {negative : Bool} (given : Sign signs negative) (rest : Text)
    (stops : StopsAt (fun c => c == 43 || c == 45) rest) :
    sign (signs ++ rest) = (negative, rest) := by
  cases given with
  | plus => rfl
  | minus => rfl
  | absent =>
      unfold sign
      split
      · rename_i behind same
        have stopped := stops 45 behind same
        simp at stopped
      · rename_i behind same
        have stopped := stops 43 behind same
        simp at stopped
      · rfl

theorem Exponent.stops {n : LiteralKind} {tail : Text} {e : Int} (given : Exponent n.mark tail e) :
    StopsAt (fun c => digitIn n.radix c || c == 46) tail := by
  intro c later same
  cases given with
  | absent => cases same
  | given marked sign nonempty decimal =>
      cases same
      have apart := n.apart c marked
      simp [apart.1, apart.2]

theorem Fraction.complete {radix : Nat} {point fraction tail : Text}
    (given : Fraction radix point fraction)
    (stops : StopsAt (fun c => digitIn radix c || c == 46) tail) :
    readFraction radix (point ++ tail) = (fraction, tail) := by
  cases given with
  | absent =>
      unfold readFraction
      split
      · rename_i behind same
        have stopped := stops 46 behind same
        simp at stopped
      · rfl
  | point inRadix =>
      have run := takeWhile_run inRadix tail fun c later same => by
        have stopped := stops c later same
        simp only [Bool.or_eq_false_iff] at stopped
        exact stopped.1
      rw [List.cons_append, readFraction, run.1, run.2]

theorem Exponent.complete {mark : UInt8 → Bool} {tail : Text} {e : Int}
    (given : Exponent mark tail e) : readExponent mark tail = (e, []) := by
  cases given with
  | absent => rfl
  | @given c signs digits negative marked sign nonempty decimal =>
      have signed := sign.complete digits fun d later same => by
        have digit := decimal d (by simp [same])
        by_contra either
        have signs : d = 43 ∨ d = 45 := by simpa [or_iff_not_imp_left] using either
        rcases signs with rfl | rfl <;> revert digit <;> decide
      have run := takeWhile_run decimal [] (stopsAt_nil isDigit)
      rw [List.append_nil] at run
      rw [readExponent, signed]
      dsimp only
      rw [if_pos ⟨marked, by rw [run.1]; exact nonempty⟩, run.1, run.2]

theorem Literal.complete {n : LiteralKind} {body : Text} {q : Rat} (given : Literal n body q) :
    readLiteral n body = some (q, []) := by
  cases given with
  | @mk digits point fraction tail exponent inRadix fractional nonempty scaled =>
      have stops := scaled.stops
      have behind : StopsAt (digitIn n.radix) (point ++ tail) := by
        intro c later same
        cases fractional with
        | absent =>
            have stopped := stops c later same
            simp only [Bool.or_eq_false_iff] at stopped
            exact stopped.1
        | point => cases same; rfl
      have run := takeWhile_run inRadix (point ++ tail) behind
      rw [readLiteral]
      dsimp only
      rw [run.1, run.2, fractional.complete stops]
      dsimp only
      rw [if_neg nonempty, scaled.complete]

/-- Of a hexadecimal text the decimal reader takes the leading zero alone. -/
theorem readLiteral_hexMark {mark : UInt8} (marked : isHexMark mark = true) (digits : Text) :
    readLiteral decimal (48 :: mark :: digits) =
      some (decimal.value [48] [] 0, mark :: digits) := by
  have either : mark = 120 ∨ mark = 88 := by simpa [isHexMark] using marked
  have alone : digitIn 10 mark = false ∧ mark ≠ 46 ∧ decimal.mark mark = false := by
    rcases either with rfl | rfl <;> exact ⟨rfl, by decide, rfl⟩
  have zero : ∀ c ∈ ([48] : Text), digitIn 10 c = true := by
    intro c member
    rw [List.mem_singleton.mp member]
    rfl
  have run := takeWhile_run zero (mark :: digits) fun c later same => by
    cases same
    exact alone.1
  have taken : (48 :: mark :: digits).takeWhile (digitIn decimal.radix) = [48] := run.1
  have dropped : (48 :: mark :: digits).dropWhile (digitIn decimal.radix) = mark :: digits := run.2
  have fraction : readFraction decimal.radix (mark :: digits) = ([], mark :: digits) := by
    unfold readFraction
    split
    · rename_i same
      cases same
      exact absurd rfl alone.2.1
    · rfl
  have exponent : readExponent decimal.mark (mark :: digits) = (0, mark :: digits) := by
    rw [readExponent]
    dsimp only
    rw [alone.2.2, if_neg (by simp)]
  rw [readLiteral]
  dsimp only
  rw [taken, dropped, fraction]
  dsimp only
  rw [exponent, if_neg (by simp)]

theorem Unsigned.complete {body : Text} {q : Rat} (given : Unsigned body q) :
    readUnsigned body = some (q, []) := by
  cases given with
  | decimal literal =>
      have whole := literal.complete
      unfold readUnsigned
      split
      · rename_i mark digits
        by_cases marked : isHexMark mark = true
        · rw [readLiteral_hexMark marked] at whole
          cases whole
        · rw [if_neg marked]
          exact whole
      · exact whole
  | hexadecimal marked literal =>
      rw [readUnsigned, if_pos marked, literal.complete]
      rfl

theorem isDigit_of_digitIn {c : UInt8} (digit : digitIn 10 c = true) : isDigit c = true := by
  unfold digitIn digitValue at digit
  split at digit
  · assumption
  · exfalso
    split at digit
    · rename_i lower
      simp only [isLower, Bool.and_eq_true, decide_eq_true_eq] at lower
      have above := UInt8.le_iff_toNat_le.mp lower.1
      simp at digit above
      omega
    · simp at digit

theorem isDigit_apart {c : UInt8} (digit : isDigit c = true) :
    (isSpace c || (c == 43 || c == 45)) = false := by
  simp only [isDigit, Bool.and_eq_true, decide_eq_true_eq, UInt8.le_iff_toNat_le] at digit
  simp only [isSpace, Bool.or_eq_false_iff, Bool.and_eq_false_iff, beq_eq_false_iff_ne,
    decide_eq_false_iff_not, UInt8.le_iff_toNat_le, ne_eq, ← UInt8.toNat_inj]
  simp at digit ⊢
  omega

/-- A numeral begins with a digit or a point. -/
theorem Unsigned.head {c : UInt8} {rest : Text} {q : Rat} (given : Unsigned (c :: rest) q) :
    isDigit c = true ∨ c = 46 := by
  generalize whole : c :: rest = body at given
  cases given with
  | hexadecimal =>
      cases whole
      exact Or.inl rfl
  | decimal literal =>
      cases literal with
      | @mk digits point fraction tail exponent inRadix fractional nonempty scaled =>
          cases digits with
          | cons d digits =>
              cases whole
              exact Or.inl (isDigit_of_digitIn (inRadix c (by simp)))
          | nil =>
              cases fractional with
              | absent => exact absurd rfl nonempty
              | point =>
                  cases whole
                  exact Or.inr rfl

theorem Numeral.complete {t : Text} {q : Rat} (given : Numeral t q) :
    read t = some (.finite q, []) := by
  cases given with
  | @mk blanks signs body negative v blank sign unsigned =>
      have head : StopsAt (fun c => isSpace c || (c == 43 || c == 45)) body := by
        rintro c later rfl
        rcases unsigned.head with digit | rfl
        · exact isDigit_apart digit
        · rfl
      have behind : StopsAt isSpace (signs ++ body) := by
        intro c later same
        cases sign with
        | absent => exact (Bool.or_eq_false_iff.mp (head c later same)).1
        | plus => cases same; rfl
        | minus => cases same; rfl
      have run := takeWhile_run blank (signs ++ body) behind
      have signed := sign.complete body fun c later same =>
        (Bool.or_eq_false_iff.mp (head c later same)).2
      rw [read, run.2, signed]
      dsimp only
      rw [unsigned.complete]

/-- The reader takes a text as a whole exactly where it is a numeral. -/
theorem read_numeral_iff {t : Text} {q : Rat} : read t = some (.finite q, []) ↔ Numeral t q := by
  constructor
  · intro found
    obtain ⟨body, split, numeral⟩ := read_sound found
    rw [split, List.append_nil]
    exact numeral
  · exact Numeral.complete

theorem Numeral.unique {t : Text} {q r : Rat} (first : Numeral t q) (second : Numeral t r) :
    q = r := by
  have same := first.complete
  rw [second.complete] at same
  cases same
  rfl

/-! ## No numeral holds a terminator -/

theorem digitIn_zero (radix : Nat) : digitIn radix 0 = false := rfl

theorem Literal.nonzero {n : LiteralKind} {body : Text} {q : Rat} (given : Literal n body q)
    (marks : n.mark 0 = false) : 0 ∉ body := by
  cases given with
  | @mk digits point fraction tail exponent inRadix fractional nonempty scaled =>
      have whole : 0 ∉ digits := fun member => by
        simpa [digitIn_zero] using inRadix 0 member
      have behind : 0 ∉ point := by
        cases fractional with
        | absent => simp
        | point inRadix =>
            intro member
            rcases List.mem_cons.mp member with same | later
            · cases same
            · simpa [digitIn_zero] using inRadix 0 later
      have last : 0 ∉ tail := by
        cases scaled with
        | absent => simp
        | given marked sign nonempty decimal =>
            intro member
            rcases List.mem_cons.mp member with same | later
            · rw [← same, marks] at marked
              cases marked
            · rcases List.mem_append.mp later with signs | exponentDigits
              · cases sign <;> simp at signs
              · have digit := decimal 0 exponentDigits
                cases digit
      simp [whole, behind, last]

theorem Numeral.nonzero {t : Text} {q : Rat} (given : Numeral t q) : 0 ∉ t := by
  cases given with
  | @mk blanks signs body negative v blank sign unsigned =>
      have led : 0 ∉ blanks := fun member => by
        have space := blank 0 member
        cases space
      have signed : 0 ∉ signs := by cases sign <;> simp
      have rest : 0 ∉ body := by
        cases unsigned with
        | decimal literal => exact literal.nonzero rfl
        | @hexadecimal mark body q marked literal =>
            have behind := literal.nonzero rfl
            have nonzero : 0 ≠ mark := by
              rintro rfl
              cases marked
            simp [behind, nonzero]
      simp [led, signed, rest]

end Strtod
