import EtherDog.Lib.Printf

/-!
# JSON texts

A scanner for the grammar of JSON, one byte at a time: `Place` is where in the
grammar it is, and the stack holds the containers that are open.  Bytes from
0x80 on are text, so that the encoding is not looked at.  `IsObject` is the
texts that are one object.
-/

set_option autoImplicit false

namespace JsonText

open CString

inductive Container where
  | object
  | array
  deriving DecidableEq, Repr

/-- Where the scanner is inside a string. -/
inductive Inside where
  | plain
  /-- behind a backslash -/
  | escape
  /-- inside `\u`, before one digit and so many others -/
  | hex (others : Nat)
  deriving DecidableEq, Repr

inductive Place where
  /-- a value is due -/
  | value
  | afterBracket
  | afterBrace
  /-- the name of a member is due -/
  | name
  | colon
  | string (isName : Bool) (inside : Inside)
  | minus
  | zero
  | digits
  | point
  | fraction
  | exponent
  | exponentSign
  | power
  /-- the rest of `true`, `false` or `null` -/
  | word (rest : Text)
  /-- a value has ended -/
  | after
  deriving DecidableEq, Repr

structure Scanner where
  place : Place
  stack : List Container
  deriving DecidableEq, Repr

def isBlank (c : UInt8) : Bool := c == 32 || c == 9 || c == 10 || c == 13

/-- The bytes that make an escape with the backslash before them; the `u` needs
four digits as well. -/
def isEscaped (c : UInt8) : Bool := (text "\"\\/bfnrt").contains c

def isExponent (c : UInt8) : Bool := c == 101 || c == 69

/-! ## One byte -/

def stepInside (inside : Inside) (c : UInt8) : Option Inside :=
  match inside with
  | .plain => if c = 92 then some .escape else if c = 34 ∨ c < 32 then none else some .plain
  | .escape => if c = 117 then some (.hex 3) else if isEscaped c then some .plain else none
  | .hex others =>
      if isXDigit c then some (if others = 0 then .plain else .hex (others - 1)) else none

def stepValue (stack : List Container) (c : UInt8) : Option Scanner :=
  if c = 123 then some ⟨.afterBrace, .object :: stack⟩
  else if c = 91 then some ⟨.afterBracket, .array :: stack⟩
  else if c = 34 then some ⟨.string false .plain, stack⟩
  else if c = 45 then some ⟨.minus, stack⟩
  else if c = 48 then some ⟨.zero, stack⟩
  else if isDigit c then some ⟨.digits, stack⟩
  else if c = 116 then some ⟨.word (text "rue"), stack⟩
  else if c = 102 then some ⟨.word (text "alse"), stack⟩
  else if c = 110 then some ⟨.word (text "ull"), stack⟩
  else none

def stepAfter (stack : List Container) (c : UInt8) : Option Scanner :=
  if isBlank c then some ⟨.after, stack⟩
  else
    match stack with
    | .object :: rest =>
        if c = 44 then some ⟨.name, stack⟩ else if c = 125 then some ⟨.after, rest⟩ else none
    | .array :: rest =>
        if c = 44 then some ⟨.value, stack⟩ else if c = 93 then some ⟨.after, rest⟩ else none
    | [] => none

def step (s : Scanner) (c : UInt8) : Option Scanner :=
  let goTo := fun place => some { s with place := place }
  match s.place with
  | .value => if isBlank c then some s else stepValue s.stack c
  | .afterBracket =>
      if isBlank c then some s
      else if c = 93 then some ⟨.after, s.stack.tail⟩
      else stepValue s.stack c
  | .afterBrace =>
      if isBlank c then some s
      else if c = 125 then some ⟨.after, s.stack.tail⟩
      else if c = 34 then goTo (.string true .plain)
      else none
  | .name => if isBlank c then some s else if c = 34 then goTo (.string true .plain) else none
  | .colon => if isBlank c then some s else if c = 58 then goTo .value else none
  | .string isName inside =>
      if inside = .plain ∧ c = 34 then goTo (if isName then .colon else .after)
      else (stepInside inside c).map fun inside => { s with place := .string isName inside }
  | .minus => if c = 48 then goTo .zero else if isDigit c then goTo .digits else none
  | .zero =>
      if c = 46 then goTo .point else if isExponent c then goTo .exponent else stepAfter s.stack c
  | .digits =>
      if isDigit c then some s else if c = 46 then goTo .point
      else if isExponent c then goTo .exponent else stepAfter s.stack c
  | .point => if isDigit c then goTo .fraction else none
  | .fraction =>
      if isDigit c then some s else if isExponent c then goTo .exponent else stepAfter s.stack c
  | .exponent =>
      if isDigit c then goTo .power else if c = 43 ∨ c = 45 then goTo .exponentSign else none
  | .exponentSign => if isDigit c then goTo .power else none
  | .power => if isDigit c then some s else stepAfter s.stack c
  | .word rest =>
      match rest with
      | [] => none
      | due :: others =>
          if c = due then goTo (if others = [] then .after else .word others) else none
  | .after => stepAfter s.stack c

/-! ## Texts -/

def run : Scanner → Text → Option Scanner
  | s, [] => some s
  | s, c :: rest => (step s c).bind fun next => run next rest

/-- One value that starts with a brace and ends with the text. -/
def IsObject (s : Text) : Prop :=
  s.head? = some 123 ∧ run ⟨.value, []⟩ s = some ⟨.after, []⟩

instance (s : Text) : Decidable (IsObject s) := inferInstanceAs (Decidable (_ ∧ _))

theorem run_append (s : Scanner) (xs ys : Text) :
    run s (xs ++ ys) = (run s xs).bind fun next => run next ys := by
  induction xs generalizing s with
  | nil => rfl
  | cons c rest ih =>
      rw [List.cons_append, run, run]
      cases step s c with
      | none => rfl
      | some next => exact ih next

/-! ## Strings -/

/-- A byte that stands for itself in a string. -/
def isPlain (c : UInt8) : Bool := 32 ≤ c && c != 34 && c != 92

theorem isPlain_of_isDigit {c : UInt8} (digit : isDigit c = true) : isPlain c = true := by
  simp only [isDigit, Bool.and_eq_true, decide_eq_true_eq, UInt8.le_iff_toNat_le] at digit
  simp only [isPlain, Bool.and_eq_true, bne_iff_ne, ne_eq, decide_eq_true_eq,
    UInt8.le_iff_toNat_le, ← UInt8.toNat_inj]
  simp at digit ⊢
  omega

theorem isPlain_decimal {v : Int} : ∀ c ∈ decimal v, isPlain c = true := by
  intro c among
  rcases mem_decimal among with rfl | digit
  · decide
  · exact isPlain_of_isDigit digit

theorem run_plain {s : Text} (plain : ∀ c ∈ s, isPlain c = true) (isName : Bool)
    (stack : List Container) :
    run ⟨.string isName .plain, stack⟩ s = some ⟨.string isName .plain, stack⟩ := by
  induction s with
  | nil => rfl
  | cons c rest ih =>
      obtain ⟨first, others⟩ := List.forall_mem_cons.mp plain
      simp only [isPlain, Bool.and_eq_true, bne_iff_ne, ne_eq, decide_eq_true_eq] at first
      obtain ⟨⟨printable, quote⟩, backslash⟩ := first
      have high : ¬ c < 32 := UInt8.not_lt.mpr printable
      have stays : step ⟨.string isName .plain, stack⟩ c =
          some ⟨.string isName .plain, stack⟩ := by
        simp [step, stepInside, quote, backslash, high]
      rw [run, stays]
      exact ih others

/-- Every backslash begins an escape, and the last one ends with the text. -/
def wellEscaped : Inside → Text → Bool
  | .plain, [] => true
  | .escape, [] => false
  | .hex _, [] => false
  | .plain, c :: rest => wellEscaped (if c = 92 then .escape else .plain) rest
  | .escape, c :: rest =>
      if c = 117 then wellEscaped (.hex 3) rest else isEscaped c && wellEscaped .plain rest
  | .hex others, c :: rest =>
      isXDigit c && wellEscaped (if others = 0 then .plain else .hex (others - 1)) rest

/-- The byte stands in no string on its own, except behind a backslash. -/
def breaksString (c : UInt8) : Bool := c == 34 || decide (c < 32)

/-- Behind the text, at a byte that is part of no escape, the string goes on
just if all escapes have ended. -/
theorem run_escaped {s : Text} (printable : ∀ c ∈ s, breaksString c = false) {next : UInt8}
    (apart : next ≠ 117 ∧ isEscaped next = false ∧ isXDigit next = false) (inside : Inside)
    (isName : Bool) (stack : List Container) (later : Text) :
    run ⟨.string isName inside, stack⟩ (s ++ next :: later) =
      if wellEscaped inside s then run ⟨.string isName .plain, stack⟩ (next :: later)
      else none := by
  obtain ⟨notU, notEscaped, notDigit⟩ := apart
  induction s generalizing inside with
  | nil =>
      cases inside with
      | plain => rfl
      | escape => simp [wellEscaped, run, step, stepInside, notU, notEscaped]
      | hex others => simp [wellEscaped, run, step, stepInside, notDigit]
  | cons c rest ih =>
      obtain ⟨first, others⟩ := List.forall_mem_cons.mp printable
      simp only [breaksString, Bool.or_eq_false_iff, beq_eq_false_iff_ne, ne_eq,
        decide_eq_false_iff_not] at first
      obtain ⟨quote, control⟩ := first
      rw [List.cons_append, run]
      cases inside with
      | plain =>
          rw [wellEscaped, ← ih others]
          by_cases backslash : c = 92
          · simp [step, stepInside, backslash]
          · simp [step, stepInside, backslash, quote, control]
      | escape =>
          rw [wellEscaped]
          by_cases unicode : c = 117
          · simp [step, stepInside, unicode, ih others]
          · cases escaped : isEscaped c with
            | false => simp [step, stepInside, unicode, escaped]
            | true => simp [step, stepInside, unicode, escaped, ih others]
      | hex left =>
          rw [wellEscaped]
          cases digit : isXDigit c with
          | false => simp [step, stepInside, digit]
          | true => simp [step, stepInside, digit, ih others]

example : IsObject (text "\x7b\"a\":[1,-2.5e+3,null],\"b\":\"\\u00e9\"\x7d") := by decide +kernel

example : ¬ IsObject (text "\x7b\"a\":\"\\D\"\x7d") := by decide +kernel

end JsonText
