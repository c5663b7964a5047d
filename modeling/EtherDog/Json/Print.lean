import EtherDog.Lib.Memory
import EtherDog.Lib.Checked
import EtherDog.Json.Number

/-!
# Printing a JSON tree (src/cjson/cJSON.c)

`cJSON_PrintUnformatted` writes into a buffer that `ensure` lets grow.  The cells
of the buffer are unwritten at first, and `update_offset` looks for the end of
what the last call wrote.  A tree is printed as `printed` says or, for want of
memory, not at all: nothing is written outside the buffer, and no cell is read
that was not written.

`grants k` is the answer to the k-th request for memory.  A text that leaves less
than two of INT_MAX bytes is refused.
-/

set_option autoImplicit false

namespace EtherDog

open CString JsonText Memory Checked

/-! ## The buffer -/

inductive PrintFault where
  | failed
  /-- a cell outside the buffer, or one that was never written -/
  | overrun
  deriving DecidableEq, Repr

structure PrintBuffer where
  memory : List (Option UInt8)
  offset : Nat
  /-- requests for memory so far -/
  asked : Nat
  deriving DecidableEq, Repr

def printMax : Nat := 2147483647

def newSize (needed : Nat) : Option Nat :=
  if printMax / 2 < needed then (if needed ≤ printMax then some printMax else none)
  else some (needed * 2)

/-- The characters up to the terminator. -/
def readString : List (Option UInt8) → Option Text
  | some c :: rest => if c = 0 then some [] else (readString rest).map (c :: ·)
  | _ => none

section Printing
variable (grants : Nat → Bool)

def ensure (needed : Nat) (p : PrintBuffer) : Except PrintFault PrintBuffer :=
  if 0 < p.memory.length ∧ p.memory.length ≤ p.offset then .error .failed
  else if printMax < needed then .error .failed
  else if needed + p.offset + 1 ≤ p.memory.length then .ok p
  else
    match newSize (needed + p.offset + 1) with
    | none => .error .failed
    | some size =>
        if grants p.asked then
          .ok { p with memory := resize p.memory size, asked := p.asked + 1 }
        else .error .failed

/-- Bytes from `at` on, counted from the offset. -/
def writeAt (place : Nat) (bytes : List UInt8) (p : PrintBuffer) : Except PrintFault PrintBuffer :=
  if p.offset + place + bytes.length ≤ p.memory.length then
    .ok { p with memory := overwrite p.memory (p.offset + place) (bytes.map some) }
  else .error .overrun

/-- The calls that make room, write bytes and move on. -/
def emit (needed : Nat) (bytes : List UInt8) (advance : Nat) (p : PrintBuffer) :
    Except PrintFault PrintBuffer := do
  let p ← ensure grants needed p
  let p ← writeAt 0 bytes p
  .ok { p with offset := p.offset + advance }

def updateOffset (p : PrintBuffer) : Except PrintFault PrintBuffer :=
  match readString (p.memory.drop p.offset) with
  | some written => .ok { p with offset := p.offset + written.length }
  | none => .error .overrun

/-! ## The printer -/

/-- The letter of an escape of two characters. -/
def escapeLetter (c : UInt8) : Option UInt8 :=
  if c = 34 ∨ c = 92 then some c
  else if c = 8 then some 98
  else if c = 12 then some 102
  else if c = 10 then some 110
  else if c = 13 then some 114
  else if c = 9 then some 116
  else none

def escapeCharacters : Text → Nat
  | [] => 0
  | c :: rest =>
      (if (escapeLetter c).isSome then 1 else if c < 32 then 5 else 0) + escapeCharacters rest

def printedByte (c : UInt8) : Text :=
  if 31 < c ∧ c ≠ 34 ∧ c ≠ 92 then [c]
  else
    match escapeLetter c with
    | some letter => [92, letter]
    | none => 92 :: 117 :: lowerHex 4 c.toNat

/-- `sprintf` terminates what it writes. -/
def sprintfEnd (c : UInt8) : Text :=
  if (escapeLetter c).isNone ∧ c < 32 then [0] else []

def copyEscaped (place : Nat) : Text → PrintBuffer → Except PrintFault PrintBuffer
  | [], p => .ok p
  | c :: rest, p => do
      let p ← writeAt place (printedByte c ++ sprintfEnd c) p
      copyEscaped (place + (printedByte c).length) rest p

def copyString (input : Text) (p : PrintBuffer) : Except PrintFault PrintBuffer :=
  if escapeCharacters input = 0 then writeAt 1 input p else copyEscaped 1 input p

def printStringPtr (input : Text) (p : PrintBuffer) : Except PrintFault PrintBuffer := do
  let outputLength := input.length + escapeCharacters input
  let p ← ensure grants (outputLength + 3) p
  let p ← writeAt 0 [34] p
  let p ← copyString input p
  writeAt (outputLength + 1) [34, 0] p

/-- The number is printed into a buffer of 26 characters first. -/
def printNumberInto (valueint : Int) (valuedouble : Double) (p : PrintBuffer) :
    Except PrintFault PrintBuffer :=
  let number := printNumber valueint valuedouble
  if 25 < number.length then .error .overrun
  else emit grants (number.length + 1) (number ++ [0]) number.length p

/-- A comma, if elements follow. -/
def comma {α : Type} (rest : List α) : Text := if rest.isEmpty then [] else [44]

def printComma {α : Type} (rest : List α) (p : PrintBuffer) : Except PrintFault PrintBuffer :=
  if rest.isEmpty then .ok p else emit grants 2 [44, 0] 1 p

mutual

def printValue : Json → PrintBuffer → Except PrintFault PrintBuffer
  | .null, p => emit grants 5 (text "null" ++ [0]) 0 p
  | .bool false, p => emit grants 6 (text "false" ++ [0]) 0 p
  | .bool true, p => emit grants 5 (text "true" ++ [0]) 0 p
  | .number valueint valuedouble, p => printNumberInto grants valueint valuedouble p
  | .string buffer, p => printStringPtr grants (cstr buffer) p
  | .array items, p => do
      let p ← emit grants 1 [91] 1 p
      let p ← printElements items p
      emit grants 2 [93, 0] 0 p
  | .object members, p => do
      let p ← emit grants 2 [123] 1 p
      let p ← printMembers members p
      emit grants 2 [125, 0] 0 p

def printElements : List Json → PrintBuffer → Except PrintFault PrintBuffer
  | [], p => .ok p
  | item :: rest, p => do
      let p ← printValue item p
      let p ← updateOffset p
      let p ← printComma grants rest p
      printElements rest p

def printMembers : List (List UInt8 × Json) → PrintBuffer → Except PrintFault PrintBuffer
  | [], p => .ok p
  | (key, value) :: rest, p => do
      let p ← printStringPtr grants (cstr key) p
      let p ← updateOffset p
      let p ← emit grants 1 [58] 1 p
      let p ← printValue value p
      let p ← updateOffset p
      let p ← emit grants ((comma rest).length + 1) (comma rest ++ [0]) (comma rest).length p
      printMembers rest p

end

def defaultBufferSize : Nat := 256

/-- The text, in a block of its size. -/
def handOver (p : PrintBuffer) : Except PrintFault Text :=
  if grants p.asked then
    match readString (resize p.memory (p.offset + 1)) with
    | some reply => .ok reply
    | none => .error .overrun
  else .error .failed

/-- `cJSON_PrintUnformatted`. -/
def print (json : Json) : Except PrintFault Text :=
  if grants 0 then do
    let p ← printValue grants json ⟨List.replicate defaultBufferSize none, 0, 1⟩
    let p ← updateOffset p
    handOver grants p
  else .error .failed

end Printing

/-! ## What is printed -/

def printedString (s : Text) : Text := 34 :: (s.flatMap printedByte ++ [34])

mutual

def printed : Json → Text
  | .null => text "null"
  | .bool false => text "false"
  | .bool true => text "true"
  | .number valueint valuedouble => printNumber valueint valuedouble
  | .string buffer => printedString (cstr buffer)
  | .array items => 91 :: (printedElements items ++ [93])
  | .object members => 123 :: (printedMembers members ++ [125])

def printedElements : List Json → Text
  | [] => []
  | item :: rest => printed item ++ (comma rest ++ printedElements rest)

def printedMembers : List (List UInt8 × Json) → Text
  | [] => []
  | (key, value) :: rest =>
      printedString (cstr key) ++ 58 :: (printed value ++ (comma rest ++ printedMembers rest))

end

/-- The numbers of the tree are doubles with an int beside them. -/
inductive Json.Valid : Json → Prop where
  | null : Valid .null
  | bool (value : Bool) : Valid (.bool value)
  | number {valueint : Int} {valuedouble : Double} (fits : MachineInt.Fits 32 valueint)
      (double : valuedouble.Valid) : Valid (.number valueint valuedouble)
  | string (buffer : List UInt8) : Valid (.string buffer)
  | array {items : List Json} (each : ∀ item ∈ items, Valid item) : Valid (.array items)
  | object {members : List (List UInt8 × Json)} (each : ∀ member ∈ members, Valid member.2) :
      Valid (.object members)

/-! ## Room -/

section Room
variable {grants : Nat → Bool} {sound : Prop}

/-- Why a call may fail that makes room for so many bytes. -/
def Refused (grants : Nat → Bool) (sound : Prop) (size : Nat) : PrintFault → Prop
  | .failed => (∃ k, grants k = false) ∨ printMax < size
  | .overrun => ¬ sound

theorem Refused.mono {size larger : Nat} {sound whole : Prop} (le : size ≤ larger)
    (part : whole → sound) (failure : PrintFault) (refused : Refused grants sound size failure) :
    Refused grants whole larger failure := by
  cases failure with
  | failed => exact refused.imp_right fun long => lt_of_lt_of_le long le
  | overrun => exact fun all => refused (part all)

/-- What stands before the offset. -/
structure Filled (p : PrintBuffer) (before : Text) : Prop where
  begins : Begins p.memory before
  offset : p.offset = before.length
  room : before.length < p.memory.length
  bounded : p.memory.length ≤ printMax

/-- The buffer holds a terminated text, of which `updateOffset` finds the end. -/
structure Shows (p : PrintBuffer) (total : Text) : Prop where
  begins : Begins p.memory (total ++ [0])
  inside : p.offset ≤ total.length
  open_ : 0 ∉ total.drop p.offset
  room : total.length + 2 ≤ p.memory.length
  bounded : p.memory.length ≤ printMax

theorem Filled.start {p : PrintBuffer} {before : Text} (filled : Filled p before) :
    p.offset + 0 = before.length := filled.offset

theorem newSize_cases (needed : Nat) :
    (newSize needed = none ∧ printMax < needed) ∨
      ∃ size, newSize needed = some size ∧ needed ≤ size ∧ size ≤ printMax := by
  unfold newSize
  split
  · split
    · rename_i fits
      exact Or.inr ⟨printMax, rfl, fits, le_rfl⟩
    · rename_i large
      exact Or.inl ⟨rfl, not_le.mp large⟩
  · exact Or.inr ⟨needed * 2, rfl, by omega, by omega⟩

theorem ensure_outcome {p : PrintBuffer} {before : Text} (filled : Filled p before)
    (needed : Nat) :
    Outcome (Refused grants sound (before.length + needed + 1))
      (fun p' => Filled p' before ∧ before.length + needed + 1 ≤ p'.memory.length)
      (ensure grants needed p) := by
  unfold ensure
  have room := filled.room
  have offset := filled.offset
  rw [if_neg (by omega)]
  split
  · exact .failed (Or.inr (by omega))
  · split
    · exact .good ⟨filled, by omega⟩
    · rcases newSize_cases (needed + p.offset + 1) with ⟨none, large⟩ | ⟨size, found, fits, bounded⟩
      · rw [none]
        exact .failed (Or.inr (by omega))
      · rw [found]
        dsimp only
        split
        · refine .good ⟨⟨filled.begins.resize (by omega), offset, ?_, ?_⟩, ?_⟩
          · rw [resize_length]
            omega
          · rw [resize_length]
            exact bounded
          · rw [resize_length]
            omega
        · rename_i denied
          exact .failed (Or.inl ⟨p.asked, Bool.eq_false_of_not_eq_true denied⟩)

theorem writeAt_ok {p : PrintBuffer} {written : Text} (begins : Begins p.memory written)
    {place : Nat} (placed : p.offset + place = written.length) (bytes : List UInt8)
    (room : written.length + bytes.length ≤ p.memory.length) :
    ∃ memory, writeAt place bytes p = .ok { p with memory := memory } ∧
      memory.length = p.memory.length ∧ Begins memory (written ++ bytes) := by
  refine ⟨_, if_pos (by rw [placed]; exact room), ?_, ?_⟩
  · exact overwrite_length _ _ _ (by rw [placed, List.length_map]; exact room)
  · rw [placed]
    exact begins.overwrite bytes

theorem emit_fills {p : PrintBuffer} {before : Text} (filled : Filled p before)
    {needed : Nat} (t rest : Text) (fits : (t ++ rest).length ≤ needed) :
    Outcome (Refused grants sound (before.length + needed + 1))
      (fun p' => Filled p' (before ++ t)) (emit grants needed (t ++ rest) t.length p) := by
  refine (ensure_outcome filled needed).bind (fun _ why => why) ?_
  rintro p' ⟨larger, room⟩
  obtain ⟨memory, wrote, same, begins⟩ :=
    writeAt_ok larger.begins larger.start (t ++ rest) (by omega)
  rw [wrote]
  rw [List.length_append] at fits
  rw [← List.append_assoc] at begins
  refine .good ⟨begins.of_append, ?_, ?_, ?_⟩
  · rw [List.length_append, larger.offset]
  · rw [List.length_append, same]
    omega
  · rw [same]
    exact larger.bounded

theorem emit_shows {p : PrintBuffer} {before : Text} (filled : Filled p before) {t : Text}
    (free : 0 ∉ t) {advance : Nat} (inside : advance ≤ t.length) :
    Outcome (Refused grants sound ((before ++ t).length + 2))
      (fun p' => Shows p' (before ++ t)) (emit grants (t.length + 1) (t ++ [0]) advance p) := by
  refine (ensure_outcome filled (t.length + 1)).bind (Refused.mono (by simp; omega) id) ?_
  rintro p' ⟨larger, room⟩
  obtain ⟨memory, wrote, same, begins⟩ :=
    writeAt_ok larger.begins larger.start (t ++ [0])
      (by rw [List.length_append, List.length_singleton]; omega)
  rw [wrote]
  rw [← List.append_assoc] at begins
  refine .good ⟨begins, ?_, ?_, ?_, ?_⟩
  · change p'.offset + advance ≤ _
    rw [larger.offset, List.length_append]
    omega
  · change 0 ∉ (before ++ t).drop (p'.offset + advance)
    rw [larger.offset, List.drop_append]
    simp only [List.mem_append, not_or]
    refine ⟨?_, fun member => free (List.mem_of_mem_drop member)⟩
    rw [List.drop_of_length_le (by omega)]
    exact List.not_mem_nil
  · rw [List.length_append, same]
    omega
  · rw [same]
    exact larger.bounded

theorem readString_begins {cells : List (Option UInt8)} {t : Text} (free : 0 ∉ t)
    (begins : Begins cells (t ++ [0])) : readString cells = some t := by
  induction t generalizing cells with
  | nil =>
      obtain ⟨rest, rfl⟩ := begins
      rfl
  | cons c others ih =>
      obtain ⟨rest, rfl⟩ := begins
      rw [List.mem_cons, not_or] at free
      obtain ⟨first, later⟩ := free
      have found := ih later ⟨rest, rfl⟩
      simp only [List.cons_append, List.map_cons, readString, if_neg (Ne.symm first), found]
      rfl

theorem updateOffset_ok {p : PrintBuffer} {total : Text} (shows_ : Shows p total) :
    ∃ p', updateOffset p = .ok p' ∧ Filled p' total ∧ Begins p'.memory (total ++ [0]) := by
  have begins := shows_.begins
  rw [← List.take_append_drop p.offset total, List.append_assoc] at begins
  have length : (total.take p.offset).length = p.offset := by
    rw [List.length_take]
    exact min_eq_left shows_.inside
  have behind := begins.drop
  rw [length] at behind
  unfold updateOffset
  rw [readString_begins shows_.open_ behind]
  refine ⟨_, rfl, ⟨shows_.begins.of_append, ?_, ?_, shows_.bounded⟩, shows_.begins⟩
  · dsimp only
    rw [List.length_drop]
    have inside := shows_.inside
    omega
  · have room := shows_.room
    dsimp only
    omega

end Room

/-! ## Strings -/

theorem length_printedByte (c : UInt8) : (printedByte c).length =
    1 + if (escapeLetter c).isSome then 1 else if c < 32 then 5 else 0 := by
  have all : ∀ c : UInt8, (printedByte c).length =
      1 + if (escapeLetter c).isSome then 1 else if c < 32 then 5 else 0 := by decide +kernel
  exact all c

theorem length_escaped (input : Text) :
    (input.flatMap printedByte).length = input.length + escapeCharacters input := by
  induction input with
  | nil => rfl
  | cons c rest ih =>
      rw [List.flatMap_cons, List.length_append, length_printedByte, ih, escapeCharacters,
        List.length_cons]
      omega

/-- Where nothing is counted, nothing needs an escape. -/
theorem escaped_plain {input : Text} (plain : escapeCharacters input = 0) :
    input.flatMap printedByte = input := by
  have alone : ∀ c : UInt8, (escapeLetter c).isSome = false → ¬ c < 32 → printedByte c = [c] := by
    decide +kernel
  induction input with
  | nil => rfl
  | cons c rest ih =>
      rw [escapeCharacters] at plain
      have letter : (escapeLetter c).isSome = false := by
        by_contra some
        rw [if_pos (Bool.eq_true_of_not_eq_false some)] at plain
        omega
      have printable : ¬ c < 32 := by
        intro control
        rw [if_neg (by simp [letter]), if_pos control] at plain
        omega
      rw [List.flatMap_cons, alone c letter printable, ih (by omega)]
      rfl

theorem length_printedString (s : Text) :
    (printedString s).length = s.length + escapeCharacters s + 2 := by
  rw [printedString, List.length_cons, List.length_append, length_escaped, List.length_singleton]

theorem printable_of_all {s : Text} (all : s.all (fun d => decide (32 ≤ d)) = true) :
    ∀ d ∈ s, 32 ≤ d := fun d member => of_decide_eq_true (List.all_eq_true.mp all d member)

theorem printable_printedByte {c d : UInt8} (member : d ∈ printedByte c) : 32 ≤ d := by
  have all : ∀ c : UInt8, (printedByte c).all (fun d => decide (32 ≤ d)) = true := by
    decide +kernel
  exact printable_of_all (all c) d member

theorem printable_printedString {s : Text} {d : UInt8} (member : d ∈ printedString s) : 32 ≤ d := by
  rcases List.mem_cons.mp member with rfl | later
  · decide
  · rcases List.mem_append.mp later with escaped | last
    · obtain ⟨c, _, among⟩ := List.mem_flatMap.mp escaped
      exact printable_printedByte among
    · rw [List.mem_singleton.mp last]
      decide

theorem zero_not_mem_of_printable {s : Text} (printable : ∀ d ∈ s, 32 ≤ d) : 0 ∉ s :=
  fun member => absurd (printable 0 member) (by decide)

theorem length_sprintfEnd (c : UInt8) : (sprintfEnd c).length ≤ 1 := by
  unfold sprintfEnd
  split
  · exact le_rfl
  · exact Nat.zero_le 1

theorem copyEscaped_ok (input : Text) {p : PrintBuffer} {written : Text}
    (begins : Begins p.memory written) {place : Nat} (placed : p.offset + place = written.length)
    (room : written.length + (input.flatMap printedByte).length + 1 ≤ p.memory.length) :
    ∃ memory, copyEscaped place input p = .ok { p with memory := memory } ∧
      memory.length = p.memory.length ∧ Begins memory (written ++ input.flatMap printedByte) := by
  induction input generalizing p place written with
  | nil =>
      rw [List.flatMap_nil, List.append_nil]
      exact ⟨p.memory, rfl, rfl, begins⟩
  | cons c rest ih =>
      rw [List.flatMap_cons, List.length_append] at room
      have terminator := length_sprintfEnd c
      obtain ⟨memory, wrote, same, longer⟩ :=
        writeAt_ok begins placed (printedByte c ++ sprintfEnd c)
          (by rw [List.length_append]; omega)
      rw [← List.append_assoc] at longer
      obtain ⟨final, copied, size, all⟩ :=
        ih (p := { p with memory := memory }) longer.of_append
          (show p.offset + (place + (printedByte c).length) = _ by
            rw [List.length_append, ← placed, Nat.add_assoc])
          (show _ ≤ memory.length by rw [List.length_append, same]; omega)
      refine ⟨final, ?_, size.trans same, ?_⟩
      · rw [copyEscaped, wrote]
        exact copied
      · rw [List.flatMap_cons, ← List.append_assoc]
        exact all

theorem copyString_ok (input : Text) {p : PrintBuffer} {written : Text}
    (begins : Begins p.memory written) (placed : p.offset + 1 = written.length)
    (room : written.length + (input.flatMap printedByte).length + 1 ≤ p.memory.length) :
    ∃ memory, copyString input p = .ok { p with memory := memory } ∧
      memory.length = p.memory.length ∧ Begins memory (written ++ input.flatMap printedByte) := by
  unfold copyString
  split
  · rename_i plain
    rw [escaped_plain plain] at room ⊢
    exact writeAt_ok begins placed input (by omega)
  · exact copyEscaped_ok input begins placed room

theorem printStringPtr_outcome {grants : Nat → Bool} {sound : Prop} {p : PrintBuffer} {before : Text}
    (filled : Filled p before) (input : Text) :
    Outcome (Refused grants sound ((before ++ printedString input).length + 2))
      (fun p' => Shows p' (before ++ printedString input)) (printStringPtr grants input p) := by
  have length := length_printedString input
  have escaped := length_escaped input
  refine (ensure_outcome filled (input.length + escapeCharacters input + 3)).bind
    (Refused.mono (by rw [List.length_append]; omega) id) ?_
  rintro p' ⟨larger, room⟩
  obtain ⟨first, opened, size, quoted⟩ :=
    writeAt_ok larger.begins larger.start [34] (by rw [List.length_singleton]; omega)
  rw [opened]
  have front : (before ++ [34]).length = before.length + 1 := by
    rw [List.length_append, List.length_singleton]
  obtain ⟨second, copied, size', inside⟩ :=
    copyString_ok input (p := { p' with memory := first }) quoted
      (show p'.offset + 1 = _ by rw [front, larger.offset])
      (show (before ++ [34]).length + _ + 1 ≤ first.length by omega)
  change Outcome _ _ (copyString input { p' with memory := first } >>= _)
  rw [copied]
  change second.length = first.length at size'
  obtain ⟨third, closed, size'', all⟩ :=
    writeAt_ok (p := { p' with memory := second }) inside
      (show p'.offset + (input.length + escapeCharacters input + 1) = _ by
        rw [List.length_append, front, escaped, larger.offset]
        omega)
      [34, 0]
      (show _ + 2 ≤ second.length by
        rw [List.length_append, front, escaped]
        omega)
  change third.length = second.length at size''
  have whole : before ++ [34] ++ input.flatMap printedByte ++ [34, 0] =
      before ++ printedString input ++ [0] := by simp [printedString]
  rw [whole] at all
  refine Or.inl ⟨_, closed, all, ?_, ?_, ?_, ?_⟩
  · rw [List.length_append, larger.offset]
    omega
  · rw [larger.offset, List.drop_left]
    exact zero_not_mem_of_printable fun d member => printable_printedString member
  · rw [List.length_append, size'', size', size]
    omega
  · rw [size'', size', size]
    exact larger.bounded

/-! ## Values -/

theorem printable_printNumber (valueint : Int) (valuedouble : Double) :
    ∀ d ∈ printNumber valueint valuedouble, 32 ≤ d := by
  have bytes : ∀ c : UInt8, isNumberByte c = true → 32 ≤ c := by decide +kernel
  cases valuedouble with
  | finite q =>
      exact fun d member => bytes d (numberByte_numberForm (printNumber_form valueint q) d member)
  | infinite negative => exact printable_of_all rfl
  | nan => exact printable_of_all rfl

section Values
variable {grants : Nat → Bool} {sound : Prop}

theorem updateOffset_outcome {p : PrintBuffer} {total : Text} (shows_ : Shows p total) :
    Outcome (fun _ => False) (fun p' => Filled p' total) (updateOffset p) := by
  obtain ⟨p', passed, filled, _⟩ := updateOffset_ok shows_
  rw [passed]
  exact .good filled

theorem printComma_outcome {α : Type} {p : PrintBuffer} {before : Text} (filled : Filled p before)
    (rest : List α) :
    Outcome (Refused grants sound ((before ++ comma rest).length + 2))
      (fun p' => Filled p' (before ++ comma rest)) (printComma grants rest p) := by
  unfold printComma comma
  split
  · rw [List.append_nil]
    exact .good filled
  · exact (emit_fills filled [44] [0] le_rfl).imp (Refused.mono (by simp) id)

theorem printNumberInto_outcome {p : PrintBuffer} {before : Text} (filled : Filled p before)
    (valueint : Int) (valuedouble : Double) :
    Outcome (Refused grants (Json.number valueint valuedouble).Valid
        ((before ++ printNumber valueint valuedouble).length + 2))
      (fun p' => Shows p' (before ++ printNumber valueint valuedouble))
      (printNumberInto grants valueint valuedouble p) := by
  unfold printNumberInto
  dsimp only
  split
  · rename_i long
    refine .failed fun valid => ?_
    cases valid with
    | number fits double =>
        have short := length_printNumber double fits
        omega
  · exact emit_shows filled (zero_not_mem_of_printable (printable_printNumber _ _)) le_rfl

theorem Json.Valid.each_item {items : List Json} (valid : (Json.array items).Valid) :
    ∀ item ∈ items, item.Valid := by
  cases valid with
  | array each => exact each

theorem Json.Valid.each_member {members : List (List UInt8 × Json)}
    (valid : (Json.object members).Valid) : ∀ member ∈ members, member.2.Valid := by
  cases valid with
  | object each => exact each

mutual

theorem printValue_outcome (json : Json) {p : PrintBuffer} {before : Text}
    (filled : Filled p before) :
    Outcome (Refused grants json.Valid ((before ++ printed json).length + 2))
      (fun p' => Shows p' (before ++ printed json)) (printValue grants json p) := by
  match json with
  | .null => exact emit_shows filled (by decide) (Nat.zero_le _)
  | .bool false => exact emit_shows filled (by decide) (Nat.zero_le _)
  | .bool true => exact emit_shows filled (by decide) (Nat.zero_le _)
  | .number valueint valuedouble => exact printNumberInto_outcome filled valueint valuedouble
  | .string buffer => exact printStringPtr_outcome filled (cstr buffer)
  | .array items =>
      rw [printed, printValue]
      refine (emit_fills filled [91] [] le_rfl).bind (Refused.mono (by simp) id) ?_
      intro first opened
      refine (printElements_outcome items opened).bind
        (Refused.mono (by simp) Json.Valid.each_item) ?_
      intro second inside
      have closed := @emit_shows grants (Json.array items).Valid second _ inside [93] (by decide) 0
        (Nat.zero_le _)
      simpa using closed
  | .object members =>
      rw [printed, printValue]
      refine (emit_fills filled [123] [] (by decide)).bind (Refused.mono (by simp) id) ?_
      intro first opened
      refine (printMembers_outcome members opened).bind
        (Refused.mono (by simp) Json.Valid.each_member) ?_
      intro second inside
      have closed := @emit_shows grants (Json.object members).Valid second _ inside [125]
        (by decide) 0 (Nat.zero_le _)
      simpa using closed

theorem printElements_outcome (items : List Json) {p : PrintBuffer} {before : Text}
    (filled : Filled p before) :
    Outcome (Refused grants (∀ item ∈ items, item.Valid)
        ((before ++ printedElements items).length + 2))
      (fun p' => Filled p' (before ++ printedElements items)) (printElements grants items p) := by
  match items with
  | [] =>
      rw [printedElements, List.append_nil]
      exact .good filled
  | item :: rest =>
      rw [printedElements, printElements, ← List.append_assoc, ← List.append_assoc]
      refine (printValue_outcome item filled).bind
        (Refused.mono (by simp) fun each => (List.forall_mem_cons.mp each).1) ?_
      intro p₁ shown
      refine (updateOffset_outcome shown).bind (fun _ => False.elim) ?_
      intro p₂ passed
      refine (printComma_outcome passed rest).bind (Refused.mono (by simp) id) ?_
      intro p₃ separated
      exact (printElements_outcome rest separated).imp
        (Refused.mono le_rfl fun each => (List.forall_mem_cons.mp each).2)

theorem printMembers_outcome (members : List (List UInt8 × Json)) {p : PrintBuffer}
    {before : Text} (filled : Filled p before) :
    Outcome (Refused grants (∀ member ∈ members, member.2.Valid)
        ((before ++ printedMembers members).length + 2))
      (fun p' => Filled p' (before ++ printedMembers members)) (printMembers grants members p) := by
  match members with
  | [] =>
      rw [printedMembers, List.append_nil]
      exact .good filled
  | (key, value) :: rest =>
      rw [printedMembers, printMembers]
      refine (printStringPtr_outcome filled (cstr key)).bind (Refused.mono (by simp) id) ?_
      intro p₁ named
      refine (updateOffset_outcome named).bind (fun _ => False.elim) ?_
      intro p₂ passed
      refine (emit_fills passed [58] [] le_rfl).bind (Refused.mono (by simp) id) ?_
      intro p₃ colon
      refine (printValue_outcome value colon).bind
        (Refused.mono (by simp) fun each => (List.forall_mem_cons.mp each).1) ?_
      intro p₄ shown
      refine (updateOffset_outcome shown).bind (fun _ => False.elim) ?_
      intro p₅ behind
      refine (emit_fills behind (comma rest) [0] (by simp)).bind
        (Refused.mono (by simp; omega) id) ?_
      intro p₆ separated
      have others := (printMembers_outcome rest separated).imp
        (Refused.mono le_rfl fun each : ∀ member ∈ (key, value) :: rest, member.2.Valid =>
          (List.forall_mem_cons.mp each).2)
      simpa using others

end

end Values

/-! ## The whole text -/

theorem printable_comma {α : Type} (rest : List α) : ∀ d ∈ comma rest, 32 ≤ d := by
  unfold comma
  split
  · exact printable_of_all rfl
  · exact printable_of_all rfl

mutual

theorem printable_printed (json : Json) : ∀ d ∈ printed json, 32 ≤ d := by
  match json with
  | .null => exact printable_of_all rfl
  | .bool false => exact printable_of_all rfl
  | .bool true => exact printable_of_all rfl
  | .number valueint valuedouble => exact printable_printNumber valueint valuedouble
  | .string buffer => exact fun d member => printable_printedString member
  | .array items =>
      rw [printed, List.forall_mem_cons, List.forall_mem_append]
      exact ⟨by decide, printable_printedElements items, printable_of_all rfl⟩
  | .object members =>
      rw [printed, List.forall_mem_cons, List.forall_mem_append]
      exact ⟨by decide, printable_printedMembers members, printable_of_all rfl⟩

theorem printable_printedElements (items : List Json) : ∀ d ∈ printedElements items, 32 ≤ d := by
  match items with
  | [] => exact fun d member => absurd member List.not_mem_nil
  | item :: rest =>
      rw [printedElements, List.forall_mem_append, List.forall_mem_append]
      exact ⟨printable_printed item, printable_comma rest, printable_printedElements rest⟩

theorem printable_printedMembers (members : List (List UInt8 × Json)) :
    ∀ d ∈ printedMembers members, 32 ≤ d := by
  match members with
  | [] => exact fun d member => absurd member List.not_mem_nil
  | (key, value) :: rest =>
      rw [printedMembers, List.forall_mem_append, List.forall_mem_cons, List.forall_mem_append,
        List.forall_mem_append]
      exact ⟨fun d member => printable_printedString member, by decide, printable_printed value,
        printable_comma rest, printable_printedMembers rest⟩

end

theorem print_outcome (grants : Nat → Bool) (json : Json) :
    Outcome (Refused grants json.Valid ((printed json).length + 2))
      (fun reply => reply = printed json ∧ (printed json).length + 2 ≤ printMax)
      (print grants json) := by
  have start : Filled ⟨List.replicate defaultBufferSize none, 0, 1⟩ [] := by
    refine ⟨⟨_, rfl⟩, rfl, ?_, ?_⟩
    · rw [List.length_replicate]
      decide
    · rw [List.length_replicate]
      decide
  unfold print
  split
  · refine (printValue_outcome json start).bind (fun _ why => why) ?_
    intro p shown
    obtain ⟨p', passed, filled, begins⟩ := updateOffset_ok shown
    rw [passed]
    change Outcome _ _ (handOver grants p')
    have free := zero_not_mem_of_printable (printable_printed json)
    have block : Begins (resize p'.memory (p'.offset + 1)) (printed json ++ [0]) :=
      begins.resize (by rw [filled.offset, List.length_append, List.length_singleton])
    unfold handOver
    split
    · rw [readString_begins free block]
      exact .good ⟨rfl, le_trans shown.room shown.bounded⟩
    · rename_i denied
      exact .failed (Or.inl ⟨p'.asked, Bool.eq_false_of_not_eq_true denied⟩)
  · rename_i denied
    exact .failed (Or.inl ⟨0, Bool.eq_false_of_not_eq_true denied⟩)

/-- A tree is printed as it should be or not at all, in the memory it was given. -/
theorem print_is_printed (grants : Nat → Bool) {json : Json} (valid : json.Valid) :
    print grants json ≠ .error .overrun ∧
      (∀ reply, print grants json = .ok reply → reply = printed json) ∧
      ((∀ k, grants k = true) →
        (print grants json = .ok (printed json) ↔ (printed json).length + 2 ≤ printMax)) := by
  rcases print_outcome grants json with ⟨reply, done, rfl, short⟩ | ⟨failure, failed, why⟩
  · rw [done]
    refine ⟨nofun, fun reply same => (Except.ok.inj same).symm, fun _ => ?_⟩
    exact ⟨fun _ => short, fun _ => rfl⟩
  · rw [failed]
    cases failure with
    | overrun => exact absurd valid why
    | failed =>
        refine ⟨nofun, nofun, fun granted => ⟨nofun, fun short => ?_⟩⟩
        rcases why with ⟨k, denied⟩ | long
        · rw [granted k] at denied
          exact absurd denied nofun
        · omega

def quotedTree : Json := .array [.number 0 (.finite third), .string (text "a\"b")]

theorem print_is_printed_quoted :
    print (fun _ => true) quotedTree ≠ .error .overrun ∧
      print (fun _ => true) quotedTree = .ok (text "[0.33333333333333331,\"a\\\"b\"]") := by
  have valid : quotedTree.Valid := by
    refine .array (List.forall_mem_cons.mpr ⟨.number (by decide) ⟨?_, ?_⟩,
      List.forall_mem_singleton.mpr (.string _)⟩)
    · decide +kernel
    · decide +kernel
  obtain ⟨safe, _, whole⟩ := print_is_printed (fun _ => true) valid
  have spelled : printed quotedTree = text "[0.33333333333333331,\"a\\\"b\"]" := by
    decide +kernel
  rw [← spelled]
  exact ⟨safe, (whole fun _ => rfl).mpr (by rw [spelled]; decide)⟩

end EtherDog
