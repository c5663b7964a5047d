import EtherDog.Lib.MachineInt
import EtherDog.Lib.Printf

/-!
# Files of `key=value` lines

A reader calls `fgets` on one buffer until the end of the file and splits every
line at its first equals sign.  It finds the entries that were written where each
keeps to one line of the buffer, and `atoi` reads back what `%d` writes.
-/

set_option autoImplicit false

namespace KeyFile

open CString MachineInt

/-- What `fgets` stores in a buffer of `size` bytes, call by call; `line` is what
the call at hand has stored. -/
def fgetsLines (size : Nat) : Text → List UInt8 → List Text
  | [], [] => []
  | line, [] => [line]
  | line, c :: rest =>
      if c = 10 ∨ size ≤ line.length + 2 then (line ++ [c]) :: fgetsLines size [] rest
      else fgetsLines size (line ++ [c]) rest

def stripNewline (line : Text) : Text :=
  if line.getLast? = some 10 then line.dropLast else line

/-- The key and the value of a line; `none` where it has no equals sign. -/
def lineEntry (buffer : List UInt8) : Option (Text × Text) :=
  match (stripNewline (cstr buffer)).dropWhile (· ≠ 61) with
  | [] => none
  | _ :: value => some ((stripNewline (cstr buffer)).takeWhile (· ≠ 61), value)

def readEntries (size : Nat) (file : List UInt8) : List (Text × Text) :=
  (fgetsLines size [] file).filterMap lineEntry

def keyLine (key value : Text) : Text := key ++ [61] ++ value ++ [10]

def atoi (s : Text) : Int := wrapped 32 (strtoll 10 s).1

/-- The entry takes one line that fits in the buffer. -/
structure OneLine (size : Nat) (key value : Text) : Prop where
  keyText : ∀ c ∈ key, c ≠ 0 ∧ c ≠ 10 ∧ c ≠ 61
  valueText : ∀ c ∈ value, c ≠ 0 ∧ c ≠ 10
  short : key.length + value.length + 2 < size

/-! ## Lines -/

theorem fgetsLines_line {size : Nat} {line s : Text} (free : ∀ c ∈ s, c ≠ 10)
    (short : line.length + s.length + 1 < size) (rest : List UInt8) :
    fgetsLines size line (s ++ 10 :: rest) = (line ++ s ++ [10]) :: fgetsLines size [] rest := by
  induction s generalizing line with
  | nil => simp [fgetsLines]
  | cons c s ih =>
      rw [List.length_cons] at short
      have within : ¬ (c = 10 ∨ size ≤ line.length + 2) := by
        rintro (newline | full)
        · exact free c List.mem_cons_self newline
        · omega
      have later := @ih (line ++ [c]) (fun d member => free d (List.mem_cons_of_mem c member))
        (by simp only [List.length_append, List.length_singleton]; omega)
      rw [List.cons_append, fgetsLines, if_neg within, later]
      simp

theorem OneLine.lineEntry_keyLine {size : Nat} {key value : Text} (given : OneLine size key value) :
    lineEntry (keyLine key value) = some (key, value) := by
  have free : 0 ∉ keyLine key value := by
    intro zero
    simp only [keyLine, List.mem_append, List.mem_singleton] at zero
    rcases zero with ((inKey | equals) | inValue) | newline
    · exact (given.keyText 0 inKey).1 rfl
    · exact absurd equals (by decide)
    · exact (given.valueText 0 inValue).1 rfl
    · exact absurd newline (by decide)
  have apart : ∀ c ∈ key, (decide (c ≠ 61)) = true := by
    intro c member
    exact decide_eq_true (given.keyText c member).2.2
  have stripped : stripNewline (keyLine key value) = key ++ 61 :: value := by
    rw [stripNewline, keyLine, if_pos List.getLast?_concat, List.dropLast_concat, List.append_assoc]
    rfl
  rw [lineEntry, cstr_free free, stripped, List.dropWhile_append_of_pos apart,
    List.takeWhile_append_of_pos apart]
  simp

/-- The reader finds what was written. -/
theorem readEntries_keyLines {size : Nat} (entries : List (Text × Text))
    (all : ∀ entry ∈ entries, OneLine size entry.1 entry.2) :
    readEntries size (entries.flatMap fun entry => keyLine entry.1 entry.2) = entries := by
  induction entries with
  | nil => rfl
  | cons entry entries ih =>
      obtain ⟨key, value⟩ := entry
      have own : OneLine size key value := all _ List.mem_cons_self
      have later := ih fun e member => all e (List.mem_cons_of_mem _ member)
      have free : ∀ c ∈ key ++ [61] ++ value, c ≠ 10 := by
        intro c member
        simp only [List.mem_append, List.mem_singleton] at member
        rcases member with (inKey | rfl) | inValue
        · exact (own.keyText c inKey).2.1
        · decide
        · exact (own.valueText c inValue).2
      have room : ([] : Text).length + (key ++ [61] ++ value).length + 1 < size := by
        have short := own.short
        simp only [List.length_append, List.length_singleton, List.length_nil]
        omega
      have line : ∀ rest, fgetsLines size [] (keyLine key value ++ rest) =
          keyLine key value :: fgetsLines size [] rest := by
        intro rest
        rw [keyLine, List.append_assoc (key ++ [61] ++ value), List.singleton_append,
          fgetsLines_line free room, List.nil_append]
      rw [readEntries, List.flatMap_cons, line, List.filterMap_cons_some own.lineEntry_keyLine]
      exact congrArg _ later

/-! ## atoi -/

theorem digitIn_ten {c : UInt8} (digit : isDigit c = true) : digitIn 10 c = true := by
  simp only [digitIn, digitValue, if_pos digit, Option.any_some, decide_eq_true_eq]
  simp only [isDigit, Bool.and_eq_true, decide_eq_true_eq, UInt8.le_iff_toNat_le] at digit
  have high : c.toNat ≤ 57 := digit.2
  omega

theorem radix_ten (body : Text) : radix 10 body = (10, body) := by
  unfold radix
  split
  · simp
  · rfl
  · rfl

theorem scan_ten {s digits : Text} {negative : Bool}
    (signed : sign (s.dropWhile isSpace) = (negative, digits))
    (all : ∀ c ∈ digits, isDigit c = true) (some : digits ≠ []) :
    scan 10 s = Option.some ⟨negative, numeral 10 digits, []⟩ := by
  have run : ∀ c ∈ digits, digitIn 10 c = true := fun c member => digitIn_ten (all c member)
  rw [scan, signed]
  simp only [radix_ten, List.takeWhile_eq_self_iff.mpr run, List.dropWhile_eq_nil_iff.mpr run]
  rw [if_neg some]

theorem sign_digits {digits : Text} (all : ∀ c ∈ digits, isDigit c = true) :
    sign (digits.dropWhile isSpace) = (false, digits) := by
  cases digits with
  | nil => rfl
  | cons c rest =>
      have digit := all c List.mem_cons_self
      have apart : ∀ d : UInt8, isDigit d = true → isSpace d = false := by decide +kernel
      have blank := apart c digit
      have minus : c ≠ 45 := by rintro rfl; exact absurd digit (by decide)
      have plus : c ≠ 43 := by rintro rfl; exact absurd digit (by decide)
      simp [sign, blank, minus, plus]

theorem scan_decimal (v : Int) :
    scan 10 (decimal v) = some ⟨decide (v < 0), v.natAbs, []⟩ := by
  have digits : ∀ c ∈ digitsOf 10 v.natAbs, isDigit c = true :=
    fun c member => isDigit_of_mem_digitsOf member
  unfold decimal
  split
  · rename_i negative
    have minus : sign ((45 :: digitsOf 10 v.natAbs).dropWhile isSpace) =
        (true, digitsOf 10 v.natAbs) := rfl
    rw [scan_ten minus digits (digitsOf_ne_nil _), numeral_digitsOf, decide_eq_true negative]
  · rename_i positive
    rw [scan_ten (sign_digits digits) digits (digitsOf_ne_nil _), numeral_digitsOf,
      decide_eq_false positive]

/-- `%d` and `atoi` are inverse on `int`. -/
theorem atoi_decimal {v : Int} (fits : Fits 32 v) : atoi (decimal v) = v := by
  have value : (strtoll 10 (decimal v)).1 = v := by
    obtain ⟨low, high⟩ := fits
    simp only [strtoll, scan_decimal, decide_eq_true_eq]
    split
    · omega
    · omega
  rw [atoi, value]
  exact wrapped_fits (by decide) fits

end KeyFile
