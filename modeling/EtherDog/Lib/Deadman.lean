import Mathlib

/-!
# A dead man's switch

A value is driven by calls: a call brings a fresh value, an order to release
to the safe value, or nothing.  A counter of quiet calls, wrapping at `modulus`,
releases the value once more than `limit` calls in a row were quiet, and counts
one trip for it.  `after` runs a history of calls, newest first, and
`after_value`, `after_safe` and `after_trips` read the state off the history:
the last word spoken, how long ago it was, and the gaps between words.

`rearm` arms the switch again with a cleared counter; `Live` is what keeps the
counter honest across it.
-/

set_option autoImplicit false

namespace Deadman

variable {α : Type}

structure State (α : Type) where
  value : α
  safe : Bool
  quiet : Nat
  trips : Nat

inductive Call (α : Type) where
  | fresh (value : α)
  | release
  | quiet

structure Params (α : Type) where
  safeValue : α
  limit : Nat
  modulus : Nat

def call (p : Params α) (s : State α) : Call α → State α
  | .fresh value => { s with value := value, safe := false, quiet := 0 }
  | .release => { s with value := p.safeValue, safe := true, quiet := 0 }
  | .quiet =>
      let quiet := (s.quiet + 1) % p.modulus
      if p.limit < quiet ∧ s.safe = false then
        { value := p.safeValue, safe := true, quiet := quiet, trips := s.trips + 1 }
      else { s with quiet := quiet }

def rearm (s : State α) : State α := { s with safe := false, quiet := 0 }

def armed (value : α) : State α := ⟨value, false, 0, 0⟩

def after (p : Params α) (start : State α) : List (Call α) → State α
  | [] => start
  | newest :: earlier => call p (after p start earlier) newest

/-! ## Reading a history -/

/-- How many calls have been quiet since the last word, or since the start. -/
def silence : List (Call α) → Nat
  | .quiet :: earlier => silence earlier + 1
  | _ => 0

/-- The last word: `none` before any, `some none` for a release. -/
def lastWord : List (Call α) → Option (Option α)
  | [] => none
  | .quiet :: earlier => lastWord earlier
  | .release :: _ => some none
  | .fresh value :: _ => some (some value)

/-- The maximal runs of quiet calls, newest first, each with the word it follows. -/
def gaps : List (Call α) → List (Option (Option α) × Nat)
  | [] => [(none, 0)]
  | .quiet :: earlier =>
      match gaps earlier with
      | [] => []
      | (word, length) :: older => (word, length + 1) :: older
  | .release :: earlier => (some none, 0) :: gaps earlier
  | .fresh value :: earlier => (some (some value), 0) :: gaps earlier

def isRelease : Option (Option α) → Bool
  | some none => true
  | _ => false

theorem eq_of_isRelease {word : Option (Option α)} (released : isRelease word = true) :
    word = some none := by
  cases word with
  | none => simp [isRelease] at released
  | some given =>
      cases given with
      | none => rfl
      | some value => simp [isRelease] at released

/-- The gaps of more than `limit` calls that do not follow a release. -/
def longGaps (limit : Nat) (history : List (Call α)) : Nat :=
  (gaps history).countP fun gap => decide (limit < gap.2) && !isRelease gap.1

theorem gaps_head (history : List (Call α)) :
    ∃ older, gaps history = (lastWord history, silence history) :: older := by
  induction history with
  | nil => exact ⟨[], rfl⟩
  | cons newest earlier ih =>
      obtain ⟨older, split⟩ := ih
      cases newest with
      | fresh value => exact ⟨gaps earlier, rfl⟩
      | release => exact ⟨gaps earlier, rfl⟩
      | quiet => exact ⟨older, by simp [gaps, split, lastWord, silence]⟩

theorem longGaps_word (limit : Nat) (newest : Call α) (earlier : List (Call α))
    (spoken : newest ≠ .quiet) :
    longGaps limit (newest :: earlier) = longGaps limit earlier := by
  cases newest with
  | fresh value => simp [longGaps, gaps]
  | release => simp [longGaps, gaps]
  | quiet => exact absurd rfl spoken

/-- A quiet call makes one more long gap exactly when it is the one past the limit. -/
theorem longGaps_quiet (limit : Nat) (earlier : List (Call α)) :
    longGaps limit (.quiet :: earlier) = longGaps limit earlier +
      (if silence earlier = limit ∧ isRelease (lastWord earlier) = false then 1 else 0) := by
  obtain ⟨older, split⟩ := gaps_head earlier
  simp only [longGaps, gaps, split, List.countP_cons]
  by_cases released : isRelease (lastWord earlier) = true
  · simp [released]
  · have notReleased : isRelease (lastWord earlier) = false := by simpa using released
    simp only [notReleased, Bool.not_false, Bool.and_true, decide_eq_true_eq, and_true]
    split_ifs <;> omega

/-! ## The state after a history -/

section After
variable (p : Params α) (start : α) (wide : p.limit + 1 < p.modulus)

theorem after_quiet (history : List (Call α)) :
    (after p (armed start) history).quiet = silence history % p.modulus := by
  induction history with
  | nil => simp [after, armed, silence]
  | cons newest earlier ih =>
      cases newest with
      | fresh value => simp [after, call, silence]
      | release => simp [after, call, silence]
      | quiet =>
          simp only [after, call, silence, ih]
          split <;> simp

include wide in
/-- While the switch is armed and not safe, the counter has not wrapped. -/
theorem counter_exact (history : List (Call α)) (recent : silence history ≤ p.limit) :
    ((after p (armed start) history).quiet + 1) % p.modulus = silence history + 1 := by
  have unwrapped : silence history % p.modulus = silence history :=
    Nat.mod_eq_of_lt (by omega)
  rw [after_quiet, unwrapped, Nat.mod_eq_of_lt (by omega)]

include wide in
theorem after_safe (history : List (Call α)) :
    (after p (armed start) history).safe =
      (isRelease (lastWord history) || decide (p.limit < silence history)) := by
  induction history with
  | nil => simp [after, armed, lastWord, isRelease, silence]
  | cons newest earlier ih =>
      cases newest with
      | fresh value => simp [after, call, lastWord, isRelease, silence]
      | release => simp [after, call, lastWord, isRelease]
      | quiet =>
          simp only [after, call, lastWord, silence]
          by_cases past : p.limit < silence earlier
          · have stays : (after p (armed start) earlier).safe = true := by simp [ih, past]
            have stillPast : p.limit < silence earlier + 1 := by omega
            simp [stays, stillPast]
          · rw [counter_exact p start wide earlier (by omega)]
            have before : (after p (armed start) earlier).safe =
                isRelease (lastWord earlier) := by simp [ih, past]
            rw [before]
            by_cases trip : p.limit < silence earlier + 1 ∧ isRelease (lastWord earlier) = false
            · rw [if_pos trip]
              simp [trip.1]
            · rw [if_neg trip]
              by_cases released : isRelease (lastWord earlier) = true
              · simp [released]
              · have notPast : ¬ p.limit < silence earlier + 1 := by
                  intro beyond
                  exact trip ⟨beyond, by simpa using released⟩
                simp [notPast]

def expectedValue (p : Params α) (start : α) (history : List (Call α)) : α :=
  if p.limit < silence history then p.safeValue
  else match lastWord history with
    | none => start
    | some none => p.safeValue
    | some (some value) => value

include wide in
theorem after_value (history : List (Call α)) :
    (after p (armed start) history).value = expectedValue p start history := by
  induction history with
  | nil => simp [after, armed, expectedValue, silence, lastWord]
  | cons newest earlier ih =>
      cases newest with
      | fresh value => simp [after, call, expectedValue, silence, lastWord]
      | release => simp [after, call, expectedValue, lastWord]
      | quiet =>
          have safeBefore := after_safe p start wide earlier
          simp only [after, call, expectedValue, silence, lastWord]
          by_cases past : p.limit < silence earlier
          · have stays : (after p (armed start) earlier).safe = true := by
              simp [safeBefore, past]
            have stillPast : p.limit < silence earlier + 1 := by omega
            simp [stays, ih, expectedValue, past, stillPast]
          · rw [counter_exact p start wide earlier (by omega)]
            by_cases beyond : p.limit < silence earlier + 1
            · by_cases released : isRelease (lastWord earlier) = true
              · have safeNow : (after p (armed start) earlier).safe = true := by
                  simp [safeBefore, released]
                have word := eq_of_isRelease released
                simp [safeNow, ih, expectedValue, past, beyond, word]
              · have notSafe : (after p (armed start) earlier).safe = false := by
                  simp [safeBefore, released, past]
                simp [notSafe, beyond]
            · simp [beyond, ih, expectedValue, past]

include wide in
theorem after_trips (history : List (Call α)) :
    (after p (armed start) history).trips = longGaps p.limit history := by
  induction history with
  | nil => simp [after, armed, longGaps, gaps]
  | cons newest earlier ih =>
      cases newest with
      | fresh value =>
          rw [longGaps_word p.limit _ earlier (by simp)]
          simpa [after, call] using ih
      | release =>
          rw [longGaps_word p.limit _ earlier (by simp)]
          simpa [after, call] using ih
      | quiet =>
          have safeBefore := after_safe p start wide earlier
          rw [longGaps_quiet, ← ih]
          simp only [after, call]
          by_cases past : p.limit < silence earlier
          · have stays : (after p (armed start) earlier).safe = true := by
              simp [safeBefore, past]
            have notFirst : silence earlier ≠ p.limit := by omega
            simp [stays, notFirst]
          · rw [counter_exact p start wide earlier (by omega)]
            have before : (after p (armed start) earlier).safe =
                isRelease (lastWord earlier) := by simp [safeBefore, past]
            have first : p.limit < silence earlier + 1 ↔ silence earlier = p.limit := by omega
            simp only [before, first]
            split_ifs <;> simp

include wide in
theorem after_safe_value (history : List (Call α))
    (isSafe : (after p (armed start) history).safe = true) :
    (after p (armed start) history).value = p.safeValue := by
  rw [after_safe p start wide] at isSafe
  rw [after_value p start wide, expectedValue]
  split
  · rfl
  · rename_i recent
    have released : isRelease (lastWord history) = true := by simpa [recent] using isSafe
    rw [eq_of_isRelease released]

end After

/-! ## Rearming -/

/-- The value is safe, or the counter still says how long the silence lasts. -/
def Live (p : Params α) (s : State α) (silent : Nat) : Prop :=
  s.value = p.safeValue ∨ (s.safe = false ∧ s.quiet = silent ∧ silent ≤ p.limit)

theorem call_live_word (p : Params α) (s : State α) (input : Call α)
    (spoken : input ≠ .quiet) : Live p (call p s input) 0 := by
  cases input with
  | fresh value => exact Or.inr ⟨rfl, rfl, Nat.zero_le _⟩
  | release => exact Or.inl rfl
  | quiet => exact absurd rfl spoken

theorem call_live_quiet (p : Params α) (s : State α) (silent : Nat)
    (wide : p.limit + 1 < p.modulus) (live : Live p s silent) :
    Live p (call p s .quiet) (silent + 1) := by
  rcases live with isSafe | ⟨notSafe, counted, recent⟩
  · left
    simp only [call]
    split
    · rfl
    · exact isSafe
  · have next : (s.quiet + 1) % p.modulus = silent + 1 := by
      rw [counted, Nat.mod_eq_of_lt (by omega)]
    simp only [call, next, notSafe, and_true]
    by_cases beyond : p.limit < silent + 1
    · left
      simp [beyond]
    · right
      simp only [if_neg beyond, true_and]
      omega

theorem rearm_live (p : Params α) (s : State α) (silent : Nat) (live : Live p s silent)
    (clean : s.value = p.safeValue ∨ s.quiet = 0) : Live p (rearm s) silent := by
  rcases clean with isSafe | cleared
  · exact Or.inl isSafe
  · rcases live with isSafe | ⟨_, counted, recent⟩
    · exact Or.inl isSafe
    · exact Or.inr ⟨rfl, by rw [← counted, cleared]; rfl, recent⟩

end Deadman
