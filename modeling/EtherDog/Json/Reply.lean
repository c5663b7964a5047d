import EtherDog.Lib.JsonEscape
import EtherDog.Json.Print
import EtherDog.Control.Replies

/-!
# Printed trees are JSON (src/cjson/cJSON.c)

The scanner of JSON takes a printed tree as one value, whatever its strings and
numbers are.  A printed object is a reply on one line.
-/

set_option autoImplicit false

namespace EtherDog

open CString JsonText Checked

section Scan
variable (stack : List Container)

/-! ## Strings -/

theorem run_printedByte (c : UInt8) (isName : Bool) :
    run ⟨.string isName .plain, stack⟩ (printedByte c) =
      some ⟨.string isName .plain, stack⟩ := by
  have letters : ∀ c : UInt8, (escapeLetter c).all
      (fun letter => isEscaped letter && letter != 117) = true := by decide +kernel
  have controls : ∀ c : UInt8, ¬ (31 < c ∧ c ≠ 34 ∧ c ≠ 92) → escapeLetter c = none →
      c < 32 := by decide +kernel
  unfold printedByte
  split
  · rename_i plain
    obtain ⟨high, quote, backslash⟩ := plain
    have printable : ¬ c < 32 := by
      rw [UInt8.lt_iff_toNat_lt] at high ⊢
      simp at high ⊢
      omega
    simp [run, step, stepInside, quote, backslash, printable]
  · rename_i special
    split
    · rename_i letter found
      have known := letters c
      rw [found, Option.all_some, Bool.and_eq_true, bne_iff_ne] at known
      obtain ⟨escaped, other⟩ := known
      simp [run, step, stepInside, escaped, other]
    · rename_i unlettered
      obtain ⟨a, b, x, y, shape, digits, _⟩ := lowerHex_control (controls c special unlettered)
      simp only [List.all_cons, List.all_nil, Bool.and_true, Bool.and_eq_true] at digits
      rw [shape]
      simp [run, step, stepInside, digits]

theorem run_printedBytes (s : Text) (isName : Bool) :
    run ⟨.string isName .plain, stack⟩ (s.flatMap printedByte) =
      some ⟨.string isName .plain, stack⟩ := by
  induction s with
  | nil => rfl
  | cons c rest ih =>
      rw [List.flatMap_cons, run_append, run_printedByte, Option.bind_some]
      exact ih

/-- From where a quote opens a string to where its end leads. -/
theorem run_printedString {place : Place} {isName : Bool}
    (opens : step ⟨place, stack⟩ 34 = some ⟨.string isName .plain, stack⟩) (s : Text) :
    run ⟨place, stack⟩ (printedString s) =
      some ⟨if isName then .colon else .after, stack⟩ := by
  rw [printedString, run, opens, Option.bind_some, run_append, run_printedBytes, Option.bind_some]
  cases isName with
  | true => rfl
  | false => rfl

/-! ## Values -/

/-- Behind a value, or behind a number that may go on. -/
def Ended (place : Place) : Prop := place = .after ∨ endsNumber place = true

theorem step_ended {place : Place} (ended : Ended place) {c : UInt8}
    (apart : isNumberByte c = false ∧ c ≠ 69) : step ⟨place, stack⟩ c = stepAfter stack c := by
  rcases ended with rfl | ends
  · rfl
  · exact step_endsNumber stack ends apart

theorem run_printNumber (valueint : Int) (valuedouble : Double) :
    ∃ place, Ended place ∧
      run ⟨.value, stack⟩ (printNumber valueint valuedouble) = some ⟨place, stack⟩ := by
  cases valuedouble with
  | finite q =>
      obtain ⟨place, ends, ran⟩ := run_numberForm stack (printNumber_form valueint q)
      exact ⟨place, Or.inr ends, ran⟩
  | infinite negative => exact ⟨.after, Or.inl rfl, rfl⟩
  | nan => exact ⟨.after, Or.inl rfl, rfl⟩

def OpensValue (c : UInt8) : Prop := isBlank c = false ∧ c ≠ 93

theorem printed_opens (json : Json) : ∃ c rest, printed json = c :: rest ∧ OpensValue c := by
  have digits : ∀ c : UInt8, (isDigit c = true ∨ c = 45) → isBlank c = false ∧ c ≠ 93 := by
    decide +kernel
  have word : ∃ c rest, text "null" = c :: rest ∧ OpensValue c :=
    ⟨110, text "ull", by decide, rfl, by decide⟩
  match json with
  | .null => exact word
  | .bool false => exact ⟨102, text "alse", by decide, rfl, by decide⟩
  | .bool true => exact ⟨116, text "rue", by decide, rfl, by decide⟩
  | .number valueint (.finite q) =>
      obtain ⟨c, rest, shape, first⟩ := head_numberForm (printNumber_form valueint q)
      exact ⟨c, rest, shape, digits c first⟩
  | .number _ (.infinite _) => exact word
  | .number _ .nan => exact word
  | .string buffer => exact ⟨34, _, rfl, rfl, by decide⟩
  | .array items => exact ⟨91, _, by rw [printed], rfl, by decide⟩
  | .object members => exact ⟨123, _, by rw [printed], rfl, by decide⟩

/-- The first element stands where any value may stand. -/
theorem run_afterBracket {s : Text} {c : UInt8} {rest : Text} (shape : s = c :: rest)
    (opens : OpensValue c) (more : Text) :
    run ⟨.afterBracket, stack⟩ (s ++ more) = run ⟨.value, stack⟩ (s ++ more) := by
  obtain ⟨blank, bracket⟩ := opens
  subst shape
  have same : step ⟨.afterBracket, stack⟩ c = step ⟨.value, stack⟩ c := by
    simp [step, blank, bracket]
  rw [List.cons_append, run, same, run]

end Scan

mutual

theorem run_printed (json : Json) (stack : List Container) :
    ∃ place, Ended place ∧ run ⟨.value, stack⟩ (printed json) = some ⟨place, stack⟩ := by
  match json with
  | .null => exact ⟨.after, Or.inl rfl, rfl⟩
  | .bool false => exact ⟨.after, Or.inl rfl, rfl⟩
  | .bool true => exact ⟨.after, Or.inl rfl, rfl⟩
  | .number valueint valuedouble => exact run_printNumber stack valueint valuedouble
  | .string buffer =>
      exact ⟨.after, Or.inl rfl, @run_printedString stack .value false rfl (cstr buffer)⟩
  | .array items => exact ⟨.after, Or.inl rfl, run_printedArray items stack⟩
  | .object members => exact ⟨.after, Or.inl rfl, run_printedObject members stack⟩

theorem run_printedArray (items : List Json) (stack : List Container) :
    run ⟨.value, stack⟩ (91 :: (printedElements items ++ [93])) = some ⟨.after, stack⟩ := by
  match items with
  | [] => rfl
  | item :: rest =>
      obtain ⟨place, ended, ran⟩ :=
        run_printedElements (item :: rest) (List.cons_ne_nil _ _) stack
      obtain ⟨c, others, shape, opens⟩ := printed_opens item
      have first : run ⟨.afterBracket, .array :: stack⟩ (printedElements (item :: rest) ++ [93]) =
          run ⟨.value, .array :: stack⟩ (printedElements (item :: rest) ++ [93]) := by
        rw [printedElements, List.append_assoc]
        exact run_afterBracket (.array :: stack) shape opens _
      change run ⟨.afterBracket, .array :: stack⟩ (printedElements (item :: rest) ++ [93]) = _
      rw [first, run_append, ran, Option.bind_some, run,
        step_ended (.array :: stack) ended ⟨rfl, by decide⟩]
      rfl

theorem run_printedElements (items : List Json) (some_ : items ≠ []) (stack : List Container) :
    ∃ place, Ended place ∧
      run ⟨.value, .array :: stack⟩ (printedElements items) = some ⟨place, .array :: stack⟩ := by
  match items with
  | [] => exact absurd rfl some_
  | item :: rest =>
      obtain ⟨place, ended, ran⟩ := run_printed item (.array :: stack)
      rw [printedElements, run_append, ran, Option.bind_some]
      match rest with
      | [] => exact ⟨place, ended, rfl⟩
      | next :: later =>
          obtain ⟨last, atLast, behind⟩ :=
            run_printedElements (next :: later) (List.cons_ne_nil _ _) stack
          refine ⟨last, atLast, ?_⟩
          change run ⟨place, .array :: stack⟩ (44 :: printedElements (next :: later)) = _
          rw [run, step_ended (.array :: stack) ended ⟨rfl, by decide⟩]
          exact behind

theorem run_printedObject (members : List (List UInt8 × Json)) (stack : List Container) :
    run ⟨.value, stack⟩ (123 :: (printedMembers members ++ [125])) = some ⟨.after, stack⟩ := by
  match members with
  | [] => rfl
  | member :: rest =>
      obtain ⟨place, ended, ran⟩ :=
        run_printedMembers (member :: rest) (List.cons_ne_nil _ _) stack
      -- a quote is due in both places
      have first : run ⟨.afterBrace, .object :: stack⟩ (printedMembers (member :: rest)) =
          run ⟨.name, .object :: stack⟩ (printedMembers (member :: rest)) := by
        obtain ⟨key, value⟩ := member
        rw [printedMembers, printedString]
        rfl
      change run ⟨.afterBrace, .object :: stack⟩ (printedMembers (member :: rest) ++ [125]) = _
      rw [run_append, first, ran, Option.bind_some, run,
        step_ended (.object :: stack) ended ⟨rfl, by decide⟩]
      rfl

theorem run_printedMembers (members : List (List UInt8 × Json)) (some_ : members ≠ [])
    (stack : List Container) :
    ∃ place, Ended place ∧
      run ⟨.name, .object :: stack⟩ (printedMembers members) =
        some ⟨place, .object :: stack⟩ := by
  match members with
  | [] => exact absurd rfl some_
  | (key, value) :: rest =>
      have named : run ⟨.name, .object :: stack⟩ (printedString (cstr key)) =
          some ⟨.colon, .object :: stack⟩ :=
        @run_printedString (.object :: stack) .name true rfl (cstr key)
      obtain ⟨place, ended, ran⟩ := run_printed value (.object :: stack)
      have colon : step ⟨.colon, .object :: stack⟩ 58 = some ⟨.value, .object :: stack⟩ := rfl
      rw [printedMembers, run_append, named, Option.bind_some, run, colon, Option.bind_some,
        run_append, ran, Option.bind_some]
      match rest with
      | [] => exact ⟨place, ended, rfl⟩
      | next :: later =>
          obtain ⟨last, atLast, behind⟩ :=
            run_printedMembers (next :: later) (List.cons_ne_nil _ _) stack
          refine ⟨last, atLast, ?_⟩
          change run ⟨place, .object :: stack⟩ (44 :: printedMembers (next :: later)) = _
          rw [run, step_ended (.object :: stack) ended ⟨rfl, by decide⟩]
          exact behind

end

/-! ## Replies -/

theorem printed_object_wellFormed (members : List (List UInt8 × Json)) :
    WellFormedReply (printed (.object members)) := by
  refine ⟨fun newline => absurd (printable_printed _ 10 newline) (by decide), ?_⟩
  rw [printed]
  exact ⟨rfl, run_printedObject members []⟩

/-- What is printed of an object, in whatever memory, is a reply on one line. -/
theorem print_printsObjects (grants : Nat → Bool) :
    PrintsObjects fun json => (print grants json).toOption := by
  intro members reply shown
  change (print grants (.object members)).toOption = some reply at shown
  rcases print_outcome grants (.object members) with ⟨text, done, rfl, _⟩ | ⟨_, failed, _⟩
  · rw [done] at shown
    cases shown
    exact printed_object_wellFormed members
  · rw [failed] at shown
    exact absurd shown nofun

end EtherDog
