import EtherDog.Lib.JsonEscape
import EtherDog.Lib.MachineInt
import EtherDog.Log.Entries

/-!
# The lines of the log sink (src/log.c)

`sink_thread` sends one line for an entry: a JSON object with the escaped message
in it.  The escape loop stops where fewer than eight bytes are left in its buffer;
what it has not read then is returned with what it wrote.
-/

set_option autoImplicit false

namespace EtherDog

open CString JsonText

def sinkMessageSize : Nat := 1100
def sinkLineSize : Nat := 1400
def logTagSize : Nat := 32

/-- What one turn of the loop writes with `room` bytes left. -/
def escapeByte (room : Nat) (c : UInt8) : Text :=
  if c = 34 ∨ c = 92 then [92, c]
  else if c < 32 then snprintf room (text "\\u" ++ lowerHex 4 c.toNat)
  else [c]

/-- The loop of `json_escape` behind `n` bytes of its output. -/
def escapeLoop (size : Nat) : Nat → Text → Text × Text
  | _, [] => ([], [])
  | n, c :: rest =>
      if n + 7 < size then
        let written := escapeByte (size - n) c
        let (out, unread) := escapeLoop size (n + written.length) rest
        (written ++ out, unread)
      else ([], c :: rest)

/-- `json_escape`, without the terminator it writes behind. -/
def jsonEscape (size : Nat) (message : List UInt8) : Text := (escapeLoop size 0 (cstr message)).1

/-- What stands between the fixed text of a line and its message. -/
def sinkTag (tag : Text) : Text :=
  if tag = text "ETHERDOG" then []
  else text " [" ++ tag ++ text "]"

def sinkHead (entry : LogEntry) : Text :=
  text "\x7b\"timestamp\":\"" ++ decimal entry.timestamp ++ text "\",\"level\":\"" ++
    edogLogLevelName entry.level ++
    text "\",\"source\":\"EtherDOG\",\"message\":\"[ETHERDOG]" ++ sinkTag entry.tag ++ text " "

/-- The line as it is formatted, before the buffer cuts it. -/
def formatSinkLine (entry : LogEntry) : Text :=
  sinkHead entry ++ jsonEscape sinkMessageSize entry.message ++ text "\"\x7d\n"

/-- The bytes `sink_thread` sends. -/
def sinkLine (entry : LogEntry) : Text :=
  let n := (formatSinkLine entry).length
  (snprintf sinkLineSize (formatSinkLine entry)).take
    (if sinkLineSize ≤ n then sinkLineSize - 1 else n)

/-! ## The escape loop -/

theorem escapeByte_eq {room : Nat} (enough : 7 < room) (c : UInt8) :
    escapeByte room c = escapeOf c := by
  unfold escapeByte escapeOf
  split
  · rfl
  · split
    · rename_i control
      obtain ⟨a, b, x, y, shape, _, _⟩ := lowerHex_control control
      have whole : text "\\u" ++ lowerHex 4 c.toNat = 92 :: 117 :: lowerHex 4 c.toNat := rfl
      rw [whole, snprintf, shape]
      exact List.take_of_length_le (by simp; omega)
    · rfl

/-- The loop escapes what it reads and keeps a byte for the terminator. -/
theorem escapeLoop_spec (size n : Nat) (s : Text) (below : n + 1 < size) :
    ∃ read, (escapeLoop size n s).1 = escape read ∧ read ++ (escapeLoop size n s).2 = s ∧
      n + (escapeLoop size n s).1.length + 1 < size := by
  induction s generalizing n with
  | nil => exact ⟨[], rfl, rfl, by simpa [escapeLoop] using below⟩
  | cons c rest ih =>
      rw [escapeLoop]
      split
      · rename_i enough
        have short := length_escapeOf c
        rw [escapeByte_eq (by omega)]
        obtain ⟨read, written, all, fits⟩ := ih (n + (escapeOf c).length) (by omega)
        refine ⟨c :: read, ?_, ?_, ?_⟩
        · simp only [written]
          rfl
        · simp only [List.cons_append, all]
        · simp only [List.length_append]
          omega
      · exact ⟨[], rfl, rfl, by simpa using below⟩

theorem jsonEscape_spec (message : List UInt8) :
    ∃ read, jsonEscape sinkMessageSize message = escape read ∧
      read ++ (escapeLoop sinkMessageSize 0 (cstr message)).2 = cstr message ∧
      (jsonEscape sinkMessageSize message).length + 1 < sinkMessageSize := by
  obtain ⟨read, written, all, fits⟩ := escapeLoop_spec sinkMessageSize 0 (cstr message) (by decide)
  rw [Nat.zero_add] at fits
  exact ⟨read, written, all, fits⟩

/-! ## The line -/

/-- The entry is one that `vlog` stores: a tag that needs no escape and a 64-bit time. -/
structure PlainEntry (entry : LogEntry) : Prop where
  tagShort : entry.tag.length < logTagSize
  tagPlain : ∀ c ∈ entry.tag, isPlain c = true
  timestamp : MachineInt.Fits 64 entry.timestamp

theorem isPlain_sinkTag {tag : Text} (plain : ∀ c ∈ tag, isPlain c = true) :
    ∀ c ∈ sinkTag tag, isPlain c = true := by
  have brackets : (text " [" ++ text "]").all isPlain = true := by decide
  unfold sinkTag
  split
  · simp
  · intro c member
    rcases List.mem_append.mp member with front | close
    · rcases List.mem_append.mp front with opening | inner
      · exact List.all_eq_true.mp brackets c (List.mem_append_left _ opening)
      · exact plain c inner
    · exact List.all_eq_true.mp brackets c (List.mem_append_right _ close)

theorem length_sinkTag {tag : Text} (short : tag.length < logTagSize) :
    (sinkTag tag).length ≤ 34 := by
  unfold logTagSize at short
  unfold sinkTag
  split
  · simp
  · simp only [List.length_append]
    have opening : (text " [").length = 2 := rfl
    have close : (text "]").length = 1 := rfl
    omega

theorem levelName_plain (level : LogLevel) : (edogLogLevelName level).length ≤ 5 ∧
    ∀ c ∈ edogLogLevelName level, isPlain c = true := by
  rw [← List.all_eq_true]
  cases level <;> decide

/-- The fixed parts of a line take the scanner into the strings and out of them. -/
theorem sinkLine_parts :
    run ⟨.value, []⟩ (text "\x7b\"timestamp\":\"") =
        some ⟨.string false .plain, [.object]⟩ ∧
      run ⟨.string false .plain, [.object]⟩ (text "\",\"level\":\"") =
        some ⟨.string false .plain, [.object]⟩ ∧
      run ⟨.string false .plain, [.object]⟩
          (text "\",\"source\":\"EtherDOG\",\"message\":\"[ETHERDOG]") =
        some ⟨.string false .plain, [.object]⟩ ∧
      run ⟨.string false .plain, [.object]⟩ (text " ") =
        some ⟨.string false .plain, [.object]⟩ ∧
      run ⟨.string false .plain, [.object]⟩ (text "\"\x7d") = some ⟨.after, []⟩ := by
  decide

section Line
variable {entry : LogEntry} (plain : PlainEntry entry)
include plain

theorem PlainEntry.run_head :
    run ⟨.value, []⟩ (sinkHead entry) = some ⟨.string false .plain, [.object]⟩ := by
  obtain ⟨first, second, third, blank, _⟩ := sinkLine_parts
  rw [sinkHead, run_append, run_append, run_append, run_append, run_append, run_append, first,
    Option.bind_some, run_plain isPlain_decimal, Option.bind_some, second,
    Option.bind_some, run_plain (levelName_plain entry.level).2, Option.bind_some, third,
    Option.bind_some, run_plain (isPlain_sinkTag plain.tagPlain), Option.bind_some, blank]

theorem PlainEntry.length_head : (sinkHead entry).length ≤ 130 := by
  have stamp := length_decimal_le plain.timestamp.1 plain.timestamp.2
  have level := (levelName_plain entry.level).1
  have tag := length_sinkTag plain.tagShort
  have first : (text "\x7b\"timestamp\":\"").length = 14 := rfl
  have second : (text "\",\"level\":\"").length = 11 := rfl
  have third : (text "\",\"source\":\"EtherDOG\",\"message\":\"[ETHERDOG]").length = 43 := rfl
  have blank : (text " ").length = 1 := rfl
  simp only [sinkHead, List.length_append]
  omega

theorem PlainEntry.printable_head : ∀ c ∈ sinkHead entry, 32 ≤ c := by
  have ofPlain : ∀ {s : Text}, (∀ c ∈ s, isPlain c = true) → ∀ c ∈ s, 32 ≤ c := by
    intro s allPlain c member
    have own := allPlain c member
    simp only [isPlain, Bool.and_eq_true, decide_eq_true_eq] at own
    exact own.1.1
  have fixed : ∀ s ∈ [text "\x7b\"timestamp\":\"", text "\",\"level\":\"",
      text "\",\"source\":\"EtherDOG\",\"message\":\"[ETHERDOG]", text " "],
      s.all (32 ≤ ·) = true := by
    decide
  have ofFixed : ∀ {s : Text}, s.all (32 ≤ ·) = true → ∀ c ∈ s, 32 ≤ c := by
    intro s allPrintable c member
    exact of_decide_eq_true (List.all_eq_true.mp allPrintable c member)
  intro c member
  simp only [sinkHead, List.mem_append] at member
  rcases member with (((((first | stamp) | second) | level) | third) | tag) | blank
  · exact ofFixed (fixed _ (by simp)) c first
  · exact ofPlain isPlain_decimal c stamp
  · exact ofFixed (fixed _ (by simp)) c second
  · exact ofPlain (levelName_plain entry.level).2 c level
  · exact ofFixed (fixed _ (by simp)) c third
  · exact ofPlain (isPlain_sinkTag plain.tagPlain) c tag
  · exact ofFixed (fixed _ (by simp)) c blank

/-- The buffer of the line is never full. -/
theorem PlainEntry.sinkLine_eq : (formatSinkLine entry).length < sinkLineSize ∧
    sinkLine entry = formatSinkLine entry := by
  obtain ⟨_, _, _, message⟩ := jsonEscape_spec entry.message
  have head := plain.length_head
  have tail : (text "\"\x7d\n").length = 3 := rfl
  have fits : (formatSinkLine entry).length < sinkLineSize := by
    unfold sinkMessageSize at message
    unfold sinkLineSize
    simp only [formatSinkLine, List.length_append]
    unfold sinkMessageSize
    omega
  refine ⟨fits, ?_⟩
  rw [sinkLine, if_neg (Nat.not_le.mpr fits), snprintf, List.take_take]
  exact List.take_of_length_le (by omega)

end Line

/-- The message is escaped without cutting an escape, and the line around it is
one JSON object and one newline, whole. -/
theorem sink_lines_complete (entry : LogEntry) (plain : PlainEntry entry) :
    (∃ read unread,
      escapeLoop sinkMessageSize 0 (cstr entry.message) =
        (jsonEscape sinkMessageSize entry.message, unread) ∧
      (jsonEscape sinkMessageSize entry.message).length + 1 < sinkMessageSize ∧
      unescape (jsonEscape sinkMessageSize entry.message) = some read ∧
      read ++ unread = cstr entry.message ∧
      (unread = [] → read = cstr entry.message)) ∧
    (formatSinkLine entry).length < sinkLineSize ∧
    sinkLine entry = formatSinkLine entry ∧
    ∃ object, sinkLine entry = object ++ [10] ∧ 10 ∉ object ∧ IsObject object := by
  obtain ⟨read, written, all, fits⟩ := jsonEscape_spec entry.message
  obtain ⟨whole, exact⟩ := plain.sinkLine_eq
  have tail : text "\"\x7d\n" = text "\"\x7d" ++ [10] := by decide
  refine ⟨⟨read, _, rfl, fits, ?_, all, ?_⟩, whole, exact,
    sinkHead entry ++ jsonEscape sinkMessageSize entry.message ++ text "\"\x7d", ?_, ?_, ?_, ?_⟩
  · rw [written]
    exact unescape_escape read
  · intro ended
    rw [ended, List.append_nil] at all
    exact all
  · rw [exact, formatSinkLine, tail, List.append_assoc]
    simp only [List.append_assoc]
  · intro newline
    rw [List.mem_append, List.mem_append] at newline
    rcases newline with (head | message) | close
    · exact absurd (plain.printable_head 10 head) (by decide)
    · rw [written] at message
      exact absurd (printable_escape message) (by decide)
    · exact absurd close (by decide)
  · rw [sinkHead]
    rfl
  · obtain ⟨_, _, _, _, closes⟩ := sinkLine_parts
    rw [run_append, run_append, plain.run_head, Option.bind_some, written, run_escape,
      Option.bind_some, closes]

theorem sink_lines_complete_quoted :
    ∃ object, sinkLine ⟨7, 1700000000, .warn, text "CONFIG", [97, 34, 10, 195]⟩ = object ++ [10] ∧
      10 ∉ object ∧ IsObject object :=
  (sink_lines_complete ⟨7, 1700000000, .warn, text "CONFIG", [97, 34, 10, 195]⟩
    ⟨by decide, by decide +kernel, by decide⟩).2.2.2

end EtherDog
