import Mathlib

/-!
# Framing a byte stream

`segments` cuts a list at a separator into the closed segments and the open
tail.  A `Reader` handles one segment after the other until it stops; its
buffer holds `cap` elements, and a segment that does not fit ends in
`overflow`.  `receive` takes the stream in chunks and keeps the open tail in
the buffer, `stream` takes it in one piece.  Where every chunk fits the buffer
the two agree.
-/

set_option autoImplicit false

namespace Framing

section Segments
variable {α : Type} [DecidableEq α] (sep : α)

def segments : List α → List (List α) × List α
  | [] => ([], [])
  | a :: rest =>
      if a = sep then ([] :: (segments rest).1, (segments rest).2)
      else
        match segments rest with
        | ([], tail) => ([], a :: tail)
        | (first :: others, tail) => ((a :: first) :: others, tail)

theorem segments_sep (rest : List α) :
    segments sep (sep :: rest) = ([] :: (segments sep rest).1, (segments sep rest).2) :=
  if_pos rfl

theorem segments_cons {a : α} (other : a ≠ sep) (rest : List α) :
    segments sep (a :: rest) =
      match segments sep rest with
      | ([], tail) => ([], a :: tail)
      | (first :: others, tail) => ((a :: first) :: others, tail) :=
  if_neg other

theorem segments_append (xs ys : List α) :
    segments sep (xs ++ ys) =
      ((segments sep xs).1 ++ (segments sep ((segments sep xs).2 ++ ys)).1,
        (segments sep ((segments sep xs).2 ++ ys)).2) := by
  induction xs with
  | nil => rfl
  | cons a rest ih =>
      rcases eq_or_ne a sep with rfl | other
      · rw [List.cons_append, segments_sep, segments_sep, ih]
        rfl
      · rw [List.cons_append, segments_cons sep other, segments_cons sep other, ih]
        cases cut : segments sep rest with
        | mk closed tail =>
            cases closed with
            | cons first others => rfl
            | nil =>
                simp only [List.nil_append, List.cons_append]
                rw [segments_cons sep other]

theorem segments_free {xs : List α} (free : sep ∉ xs) : segments sep xs = ([], xs) := by
  induction xs with
  | nil => rfl
  | cons a rest ih =>
      obtain ⟨other, freeRest⟩ := not_or.mp (mt List.mem_cons.mpr free)
      rw [segments_cons sep (Ne.symm other), ih freeRest]

/-- The pieces put together again. -/
theorem segments_join (xs : List α) :
    (segments sep xs).1.flatMap (· ++ [sep]) ++ (segments sep xs).2 = xs := by
  induction xs with
  | nil => rfl
  | cons a rest ih =>
      rcases eq_or_ne a sep with rfl | other
      · simp [segments_sep, ih]
      · rw [segments_cons sep other]
        cases cut : segments sep rest with
        | mk closed tail =>
            rw [cut] at ih
            cases closed with
            | nil => simpa using ih
            | cons first others => simpa using ih

theorem segments_tail_free (xs : List α) : sep ∉ (segments sep xs).2 := by
  induction xs with
  | nil => exact List.not_mem_nil
  | cons a rest ih =>
      rcases eq_or_ne a sep with rfl | other
      · rw [segments_sep]
        exact ih
      · rw [segments_cons sep other]
        cases cut : segments sep rest with
        | mk closed tail =>
            rw [cut] at ih
            cases closed with
            | nil => exact mt List.mem_cons.mp (not_or.mpr ⟨Ne.symm other, ih⟩)
            | cons first others => exact ih

theorem segments_closed_free {xs segment : List α} (member : segment ∈ (segments sep xs).1) :
    sep ∉ segment := by
  induction xs generalizing segment with
  | nil => exact absurd member List.not_mem_nil
  | cons a rest ih =>
      rcases eq_or_ne a sep with rfl | other
      · rw [segments_sep] at member
        rcases List.mem_cons.mp member with rfl | later
        · exact List.not_mem_nil
        · exact ih later
      · rw [segments_cons sep other] at member
        cases cut : segments sep rest with
        | mk closed tail =>
            rw [cut] at member ih
            cases closed with
            | nil => simp at member
            | cons first others =>
                rcases List.mem_cons.mp member with rfl | later
                · have free := ih (List.mem_cons_self (a := first) (l := others))
                  exact mt List.mem_cons.mp (not_or.mpr ⟨Ne.symm other, free⟩)
                · exact ih (List.mem_cons_of_mem first later)

theorem segments_closed {first : List α} (free : sep ∉ first) (rest : List α) :
    segments sep (first ++ sep :: rest) =
      (first :: (segments sep rest).1, (segments sep rest).2) := by
  induction first with
  | nil => exact segments_sep sep rest
  | cons a more ih =>
      obtain ⟨other, freeMore⟩ := not_or.mp (mt List.mem_cons.mpr free)
      rw [List.cons_append, segments_cons sep (Ne.symm other), ih freeMore]

/-- Closed segments are cut as they were put together. -/
theorem segments_flatMap {closed : List (List α)} (free : ∀ segment ∈ closed, sep ∉ segment) :
    segments sep (closed.flatMap (· ++ [sep])) = (closed, []) := by
  induction closed with
  | nil => rfl
  | cons first others ih =>
      obtain ⟨freeFirst, freeOthers⟩ := List.forall_mem_cons.mp free
      rw [List.flatMap_cons, List.append_assoc, List.singleton_append,
        segments_closed sep freeFirst, ih freeOthers]

theorem mem_of_mem_tail {a : α} {xs : List α} (member : a ∈ (segments sep xs).2) : a ∈ xs := by
  rw [← segments_join sep xs]
  exact List.mem_append_right _ member

theorem segments_length_lt {xs segment : List α} (member : segment ∈ (segments sep xs).1) :
    segment.length < xs.length := by
  have joined := congrArg List.length (segments_join sep xs)
  have part : (segment ++ [sep]).length ≤ ((segments sep xs).1.flatMap (· ++ [sep])).length := by
    rw [List.length_flatMap]
    exact List.single_le_sum (fun _ _ => Nat.zero_le _) _
      (List.mem_map.mpr ⟨segment, member, rfl⟩)
  simp only [List.length_append, List.length_singleton] at joined part
  omega

/-- What a long open tail turns into: no segment, or a first one as long. -/
theorem segments_of_free_append {xs : List α} (free : sep ∉ xs) (ys : List α) :
    ((segments sep (xs ++ ys)).1 = [] ∧ xs.length ≤ (segments sep (xs ++ ys)).2.length) ∨
      ∃ first others, (segments sep (xs ++ ys)).1 = first :: others ∧
        xs.length ≤ first.length := by
  induction xs with
  | nil =>
      cases (segments sep ([] ++ ys)).1 with
      | nil => exact Or.inl ⟨rfl, Nat.zero_le _⟩
      | cons first others => exact Or.inr ⟨first, others, rfl, Nat.zero_le _⟩
  | cons a rest ih =>
      obtain ⟨other, freeRest⟩ := not_or.mp (mt List.mem_cons.mpr free)
      rw [List.cons_append, segments_cons sep (Ne.symm other)]
      have grown := ih freeRest
      cases cut : segments sep (rest ++ ys) with
      | mk closed tail =>
          rw [cut] at grown
          rcases grown with ⟨empty, long⟩ | ⟨first, others, headed, long⟩
          · dsimp only at empty long
            subst empty
            exact Or.inl ⟨rfl, Nat.succ_le_succ long⟩
          · dsimp only at headed
            subst headed
            exact Or.inr ⟨a :: first, others, rfl, Nat.succ_le_succ long⟩

end Segments

/-! ## Running until stopped -/

section RunUntil
variable {State Item : Type} (stop : State → Bool) (step : State → Item → State)

/-- The state a run ends in and the items it left. -/
def runUntil : State → List Item → State × List Item
  | state, [] => (state, [])
  | state, item :: rest =>
      if stop state then (state, item :: rest) else runUntil (step state item) rest

variable {stop step}

theorem runUntil_stopped {state : State} (stopped : stop state = true) (items : List Item) :
    runUntil stop step state items = (state, items) := by
  cases items with
  | nil => rfl
  | cons item rest => exact if_pos stopped

theorem runUntil_cons {state : State} (going : ¬ stop state = true) (item : Item)
    (rest : List Item) :
    runUntil stop step state (item :: rest) = runUntil stop step (step state item) rest :=
  if_neg going

theorem runUntil_append (state : State) (xs ys : List Item) :
    runUntil stop step state (xs ++ ys) =
      if stop (runUntil stop step state xs).1 then
        ((runUntil stop step state xs).1, (runUntil stop step state xs).2 ++ ys)
      else runUntil stop step (runUntil stop step state xs).1 ys := by
  induction xs generalizing state with
  | nil =>
      change runUntil stop step state ys =
        if stop state then (state, ys) else runUntil stop step state ys
      split
      · rename_i stopped
        exact runUntil_stopped stopped ys
      · rfl
  | cons item rest ih =>
      by_cases stopped : stop state = true
      · rw [runUntil_stopped stopped, runUntil_stopped stopped, if_pos stopped]
      · rw [List.cons_append, runUntil_cons stopped, runUntil_cons stopped]
        exact ih (step state item)

theorem runUntil_left (state : State) (items : List Item)
    (running : stop (runUntil stop step state items).1 = false) :
    (runUntil stop step state items).2 = [] := by
  induction items generalizing state with
  | nil => rfl
  | cons item rest ih =>
      by_cases stopped : stop state = true
      · rw [runUntil_stopped stopped, stopped] at running
        contradiction
      · rw [runUntil_cons stopped] at running ⊢
        exact ih _ running

/-- A run seen through a map that keeps the stops and the steps. -/
theorem runUntil_map {Image : Type} {stop' : Image → Bool} {step' : Image → Item → Image}
    (view : State → Image) (stops : ∀ state, stop' (view state) = stop state)
    (steps : ∀ state item, view (step state item) = step' (view state) item) (state : State)
    (items : List Item) :
    runUntil stop' step' (view state) items =
      (view (runUntil stop step state items).1, (runUntil stop step state items).2) := by
  induction items generalizing state with
  | nil => rfl
  | cons item rest ih =>
      by_cases stopped : stop state = true
      · rw [runUntil_stopped stopped, runUntil_stopped ((stops state).trans stopped)]
      · have going : ¬ stop' (view state) = true := by rwa [stops]
        rw [runUntil_cons stopped, runUntil_cons going, ← steps, ih]

/-- Items that do nothing may be left out, the others read beforehand. -/
theorem runUntil_filterMap {Raw : Type} {stepRaw : State → Raw → State} (read : Raw → Option Item)
    (skips : ∀ state raw, read raw = none → stepRaw state raw = state)
    (reads : ∀ state raw item, read raw = some item → stepRaw state raw = step state item)
    (state : State) (raws : List Raw) :
    (runUntil stop stepRaw state raws).1 =
      (runUntil stop step state (raws.filterMap read)).1 := by
  induction raws generalizing state with
  | nil => rfl
  | cons raw rest ih =>
      by_cases stopped : stop state = true
      · rw [runUntil_stopped stopped, runUntil_stopped stopped]
      · rw [runUntil_cons stopped, ih]
        cases found : read raw with
        | none => rw [List.filterMap_cons_none found, skips state raw found]
        | some item =>
            rw [List.filterMap_cons_some found, runUntil_cons stopped,
              reads state raw item found]

theorem runUntil_invariant (Inv : State → Prop) {state : State} (base : Inv state)
    (keep : ∀ state item, stop state = false → Inv state → Inv (step state item))
    (items : List Item) : Inv (runUntil stop step state items).1 := by
  induction items generalizing state with
  | nil => exact base
  | cons item rest ih =>
      by_cases stopped : stop state = true
      · rw [runUntil_stopped stopped]
        exact base
      · rw [runUntil_cons stopped]
        exact ih (keep state item (by simpa using stopped) base)

/-- The items left are the last ones, and a run that gets stopped has taken some. -/
theorem runUntil_taken (state : State) (items : List Item) :
    ∃ taken, items = taken ++ (runUntil stop step state items).2 ∧
      (runUntil stop step state items).1 = taken.foldl step state ∧
      (stop state = false → stop (runUntil stop step state items).1 = true → taken ≠ []) := by
  induction items generalizing state with
  | nil => exact ⟨[], rfl, rfl, fun going stopped => nomatch going.symm.trans stopped⟩
  | cons item rest ih =>
      cases stopped : stop state with
      | true =>
          rw [runUntil_stopped stopped]
          exact ⟨[], rfl, rfl, fun going => by contradiction⟩
      | false =>
          obtain ⟨taken, joined, same, _⟩ := ih (step state item)
          have going : ¬ stop state = true := by simp [stopped]
          rw [runUntil_cons going]
          exact ⟨item :: taken, congrArg (item :: ·) joined, same, fun _ _ => List.cons_ne_nil _ _⟩

end RunUntil

/-! ## Readers -/

structure Reader (State α : Type) where
  sep : α
  /-- the room of the buffer -/
  cap : Nat
  stop : State → Bool
  step : State → List α → State
  overflow : State → State
  overflow_stops : ∀ state, stop (overflow state) = true

namespace Reader
variable {State α : Type} (reader : Reader State α)

def run (state : State) (closed : List (List α)) : State :=
  (runUntil reader.stop reader.step state closed).1

section Run
variable {reader}

theorem run_stopped {state : State} (stopped : reader.stop state = true)
    (closed : List (List α)) : reader.run state closed = state := by
  rw [run, runUntil_stopped stopped]

theorem run_append (state : State) (xs ys : List (List α)) :
    reader.run state (xs ++ ys) = reader.run (reader.run state xs) ys := by
  unfold run
  rw [runUntil_append]
  split
  · rename_i stopped
    rw [runUntil_stopped stopped]
  · rfl

end Run

variable [DecidableEq α]

/-- One chunk, behind what the buffer holds. -/
def receive (at_ : State × List α) (chunk : List α) : State × List α :=
  if reader.stop at_.1 then at_
  else
    let cut := segments reader.sep (at_.2 ++ chunk)
    let state := reader.run at_.1 cut.1
    if reader.stop state then (state, [])
    else if reader.cap ≤ cut.2.length then (reader.overflow state, [])
    else (state, cut.2)

def stream (state : State) (bytes : List α) : State :=
  let cut := segments reader.sep bytes
  let state := reader.run state (cut.1.takeWhile fun segment => segment.length < reader.cap)
  if reader.stop state then state
  else if (∀ segment ∈ cut.1, segment.length < reader.cap) ∧ cut.2.length < reader.cap then state
  else reader.overflow state

/-- Each chunk that is received has an element and fits behind the buffer. -/
def Fits : State × List α → List (List α) → Prop
  | _, [] => True
  | at_, chunk :: rest =>
      (reader.stop at_.1 = false → chunk ≠ [] ∧ at_.2.length + chunk.length ≤ reader.cap) ∧
        Fits (reader.receive at_ chunk) rest

/-- The buffer holds an open segment with room behind it. -/
def Ready (at_ : State × List α) : Prop :=
  reader.stop at_.1 = false → reader.sep ∉ at_.2 ∧ at_.2.length < reader.cap

variable {reader}

theorem stream_stopped {state : State} (stopped : reader.stop state = true) (bytes : List α) :
    reader.stream state bytes = state := by
  simp only [stream, run_stopped stopped, stopped, if_true]

theorem receive_stopped {at_ : State × List α} (stopped : reader.stop at_.1 = true)
    (chunks : List (List α)) : chunks.foldl reader.receive at_ = at_ := by
  induction chunks with
  | nil => rfl
  | cons chunk rest ih => rw [List.foldl_cons, receive, if_pos stopped, ih]

section Receive
variable {at_ : State × List α} {chunk : List α} (going : reader.stop at_.1 = false)
include going

theorem receive_eq_stop
    (stopped : reader.stop (reader.run at_.1 (segments reader.sep (at_.2 ++ chunk)).1) = true) :
    reader.receive at_ chunk =
      (reader.run at_.1 (segments reader.sep (at_.2 ++ chunk)).1, []) := by
  simp [receive, going, stopped]

variable
  (running : reader.stop (reader.run at_.1 (segments reader.sep (at_.2 ++ chunk)).1) = false)
include running

theorem receive_eq_overflow
    (full : reader.cap ≤ (segments reader.sep (at_.2 ++ chunk)).2.length) :
    reader.receive at_ chunk =
      (reader.overflow (reader.run at_.1 (segments reader.sep (at_.2 ++ chunk)).1), []) := by
  simp [receive, going, running, full]

theorem receive_eq_keep
    (room : (segments reader.sep (at_.2 ++ chunk)).2.length < reader.cap) :
    reader.receive at_ chunk =
      (reader.run at_.1 (segments reader.sep (at_.2 ++ chunk)).1,
        (segments reader.sep (at_.2 ++ chunk)).2) := by
  simp [receive, going, running, room]

end Receive

theorem receive_ready (at_ : State × List α) (chunk : List α) :
    reader.Ready (reader.receive at_ chunk) := by
  intro going
  unfold receive at going ⊢
  split
  · rename_i stopped
    rw [if_pos stopped, stopped] at going
    contradiction
  · rename_i ready
    rw [if_neg ready] at going
    dsimp only at going ⊢
    split
    · rename_i stopped
      rw [if_pos stopped, stopped] at going
      contradiction
    · rename_i running
      rw [if_neg running] at going
      split
      · rename_i full
        rw [if_pos full, reader.overflow_stops] at going
        contradiction
      · rename_i room
        exact ⟨segments_tail_free reader.sep _, Nat.lt_of_not_le room⟩

/-- The buffer holds what has been received. -/
theorem mem_of_mem_receive {at_ : State × List α} {chunk : List α} {a : α}
    (member : a ∈ (reader.receive at_ chunk).2) : a ∈ at_.2 ++ chunk := by
  unfold receive at member
  split at member
  · exact List.mem_append_left _ member
  · dsimp only at member
    split at member
    · contradiction
    · split at member
      · contradiction
      · exact mem_of_mem_tail reader.sep member

/-- An open segment that is too long already ends the stream. -/
theorem stream_full {state : State} {bytes : List α} (free : reader.sep ∉ bytes)
    (full : reader.cap ≤ bytes.length) (going : reader.stop state = false) (later : List α) :
    reader.stream state (bytes ++ later) = reader.overflow state := by
  unfold stream
  dsimp only
  rcases segments_of_free_append reader.sep free later with
    ⟨empty, long⟩ | ⟨first, others, headed, long⟩
  · have beyond : ¬ (segments reader.sep (bytes ++ later)).2.length < reader.cap := by omega
    simp [empty, run, runUntil, going, beyond]
  · have beyond : ¬ first.length < reader.cap := by omega
    simp [headed, run, runUntil, going, beyond]

/-- Segments that fit are handled first. -/
theorem stream_append (state : State) {xs : List α}
    (short : ∀ segment ∈ (segments reader.sep xs).1, segment.length < reader.cap)
    (ys : List α) :
    reader.stream state (xs ++ ys) =
      reader.stream (reader.run state (segments reader.sep xs).1)
        ((segments reader.sep xs).2 ++ ys) := by
  have fits : ∀ segment ∈ (segments reader.sep xs).1,
      (fun segment : List α => decide (segment.length < reader.cap)) segment = true :=
    fun segment member => decide_eq_true (short segment member)
  unfold stream
  rw [segments_append]
  dsimp only
  rw [List.takeWhile_append_of_pos fits, run_append]
  have split : ∀ more : List (List α),
      (∀ segment ∈ (segments reader.sep xs).1 ++ more, segment.length < reader.cap) ↔
        ∀ segment ∈ more, segment.length < reader.cap := by
    intro more
    rw [List.forall_mem_append]
    exact and_iff_right short
  simp only [split]

/-- One chunk is handled as it stands in the stream. -/
theorem stream_receive {at_ : State × List α} {chunk : List α}
    (going : reader.stop at_.1 = false)
    (room : at_.2.length + chunk.length ≤ reader.cap) (later : List α) :
    reader.stream at_.1 (at_.2 ++ (chunk ++ later)) =
      reader.stream (reader.receive at_ chunk).1 ((reader.receive at_ chunk).2 ++ later) := by
  have short : ∀ segment ∈ (segments reader.sep (at_.2 ++ chunk)).1,
      segment.length < reader.cap := by
    intro segment member
    have less := segments_length_lt reader.sep member
    rw [List.length_append] at less
    omega
  rw [← List.append_assoc, stream_append at_.1 short]
  rw [receive, if_neg (by simp [going])]
  dsimp only
  split
  · rename_i stopped
    rw [stream_stopped stopped, stream_stopped stopped]
  · rename_i running
    split
    · rename_i full
      rw [stream_full (segments_tail_free reader.sep _) full (by simpa using running)]
      rw [stream_stopped (reader.overflow_stops _)]
    · rfl

/-- However the stream is cut into chunks that fit, it is handled as in one piece. -/
theorem receive_eq_stream (chunks : List (List α)) (at_ : State × List α)
    (ready : reader.Ready at_) (fits : reader.Fits at_ chunks) :
    (chunks.foldl reader.receive at_).1 = reader.stream at_.1 (at_.2 ++ chunks.flatten) := by
  induction chunks generalizing at_ with
  | nil =>
      rw [List.foldl_nil, List.flatten_nil, List.append_nil]
      cases stopped : reader.stop at_.1 with
      | true => rw [stream_stopped stopped]
      | false =>
          obtain ⟨free, room⟩ := ready stopped
          simp [stream, segments_free reader.sep free, run, runUntil, room]
  | cons chunk rest ih =>
      obtain ⟨fit, fitsRest⟩ := fits
      rw [List.foldl_cons, List.flatten_cons]
      cases stopped : reader.stop at_.1 with
      | true =>
          have same : reader.receive at_ chunk = at_ := by rw [receive, if_pos stopped]
          rw [same, receive_stopped stopped, stream_stopped stopped]
      | false =>
          rw [ih _ (receive_ready at_ chunk) fitsRest]
          exact (stream_receive stopped (fit stopped).2 rest.flatten).symm

end Reader

end Framing
