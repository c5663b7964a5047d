import Mathlib

/-!
# C strings and the number readers of the C library

A C string is the list of its bytes before the terminator; `cstr` cuts a buffer
at its first NUL.  The character classes are those of the C locale.  `strtoul`
and `strtoll` return the value and the text behind it; where no digit is found
they return 0 and the whole text, as `endptr == str` tells.
-/

set_option autoImplicit false

namespace CString

abbrev Text : Type := List UInt8

def text (s : String) : Text := s.toList.map fun c => UInt8.ofNat c.toNat

theorem text_append (s t : String) : text (s ++ t) = text s ++ text t := by
  rw [text, String.toList_append, List.map_append]
  rfl

/-- What C functions see of a buffer. -/
def cstr (buffer : List UInt8) : Text := buffer.takeWhile (· ≠ 0)

theorem zero_not_mem_cstr (buffer : List UInt8) : 0 ∉ cstr buffer := by
  intro member
  have nonzero := List.mem_takeWhile_imp member
  simp at nonzero

theorem cstr_append {xs : List UInt8} (free : 0 ∉ xs) (ys : List UInt8) :
    cstr (xs ++ ys) = xs ++ cstr ys := by
  unfold cstr
  rw [List.takeWhile_append_of_pos]
  intro c member
  have nonzero : c ≠ 0 := by
    rintro rfl
    exact free member
  simpa using nonzero

theorem cstr_free {xs : List UInt8} (free : 0 ∉ xs) : cstr xs = xs := by
  simpa [cstr] using cstr_append free []

/-! ## Character classes -/

def isDigit (c : UInt8) : Bool := 48 ≤ c && c ≤ 57

def isUpper (c : UInt8) : Bool := 65 ≤ c && c ≤ 90

def isLower (c : UInt8) : Bool := 97 ≤ c && c ≤ 122

def isAlnum (c : UInt8) : Bool := isDigit c || isUpper c || isLower c

/-- Blank, tab, newline, vertical tab, form feed and carriage return. -/
def isSpace (c : UInt8) : Bool := c == 32 || (9 ≤ c && c ≤ 13)

def toLower (c : UInt8) : UInt8 := if isUpper c then c + 32 else c

def isXDigit (c : UInt8) : Bool := isDigit c || (97 ≤ toLower c && toLower c ≤ 102)

def digitValue (c : UInt8) : Option Nat :=
  if isDigit c then some (c.toNat - 48)
  else if isLower (toLower c) then some ((toLower c).toNat - 87)
  else none

def digitIn (base : Nat) (c : UInt8) : Bool := (digitValue c).any (· < base)

/-- The number a run of digits denotes. -/
def numeral (base : Nat) (digits : Text) : Nat :=
  digits.foldl (fun value c => value * base + (digitValue c).getD 0) 0

/-! ## strtoul and strtoll -/

structure Scan where
  negative : Bool
  magnitude : Nat
  rest : Text
  deriving DecidableEq, Repr

def isHexMark (c : UInt8) : Bool := c == 120 || c == 88

/-- The base a text is read in and its digits on, behind an optional prefix. -/
def radix (base : Nat) (body : Text) : Nat × Text :=
  match body with
  | 48 :: mark :: c :: rest =>
      if isHexMark mark && digitIn 16 c && (base == 16 || base == 0) then (16, c :: rest)
      else if base == 0 then (8, body)
      else (base, body)
  | 48 :: _ => (if base == 0 then 8 else base, body)
  | _ => (if base == 0 then 10 else base, body)

def sign (body : Text) : Bool × Text :=
  match body with
  | 45 :: rest => (true, rest)
  | 43 :: rest => (false, rest)
  | _ => (false, body)

/-- `none` where no digit is found. -/
def scan (base : Nat) (s : Text) : Option Scan :=
  let (negative, body) := sign (s.dropWhile isSpace)
  let (base, digits) := radix base body
  let run := digits.takeWhile (digitIn base)
  if run = [] then none
  else some ⟨negative, numeral base run, digits.dropWhile (digitIn base)⟩

def ulongMax : Nat := 2 ^ 64 - 1

def strtoul (base : Nat) (s : Text) : Nat × Text :=
  match scan base s with
  | none => (0, s)
  | some found =>
      (if found.magnitude > ulongMax then ulongMax
        else if found.negative then (2 ^ 64 - found.magnitude) % 2 ^ 64
        else found.magnitude, found.rest)

def strtoll (base : Nat) (s : Text) : Int × Text :=
  match scan base s with
  | none => (0, s)
  | some found =>
      (if found.negative then max (-(found.magnitude : Int)) (-2 ^ 63)
        else min (found.magnitude : Int) (2 ^ 63 - 1), found.rest)

end CString
