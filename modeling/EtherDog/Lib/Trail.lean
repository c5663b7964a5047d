import Mathlib

/-!
# Trails

A trail is what a fallible run did: its events in order, and whether it came
through.  `andThen` goes on only after success, `each` runs over a list and
stops at the first failure.
-/

set_option autoImplicit false

structure Trail (α : Type) where
  events : List α
  ok : Bool
  deriving DecidableEq, Repr

namespace Trail

variable {α β : Type}

def done : Trail α := ⟨[], true⟩

def step (event : α) (ok : Bool) : Trail α := ⟨[event], ok⟩

def check (ok : Bool) : Trail α := ⟨[], ok⟩

def andThen (first next : Trail α) : Trail α :=
  if first.ok then ⟨first.events ++ next.events, next.ok⟩ else first

def each (f : β → Trail α) : List β → Trail α
  | [] => done
  | x :: rest => (f x).andThen (each f rest)

def inOrder (parts : List (Trail α)) : Trail α := each id parts

@[simp] theorem done_ok : (done : Trail α).ok = true := rfl

@[simp] theorem done_events : (done : Trail α).events = [] := rfl

@[simp] theorem step_ok (event : α) (ok : Bool) : (step event ok).ok = ok := rfl

@[simp] theorem step_events (event : α) (ok : Bool) : (step event ok).events = [event] := rfl

@[simp] theorem check_ok (ok : Bool) : (check ok : Trail α).ok = ok := rfl

@[simp] theorem check_events (ok : Bool) : (check ok : Trail α).events = [] := rfl

@[simp] theorem andThen_ok (first next : Trail α) :
    (first.andThen next).ok = (first.ok && next.ok) := by
  unfold andThen
  cases passed : first.ok with
  | false => simp [passed]
  | true => simp

theorem andThen_events {first : Trail α} (passed : first.ok = true) (next : Trail α) :
    (first.andThen next).events = first.events ++ next.events := by
  simp [andThen, passed]

/-- What runs next leaves its events only behind a part that came through. -/
theorem mem_andThen {first next : Trail α} {event : α} :
    event ∈ (first.andThen next).events ↔
      event ∈ first.events ∨ first.ok = true ∧ event ∈ next.events := by
  unfold andThen
  split
  · rename_i passed
    simp [passed]
  · rename_i failed
    simp [failed]

theorem each_ok_iff (f : β → Trail α) (items : List β) :
    (each f items).ok = true ↔ ∀ x ∈ items, (f x).ok = true := by
  induction items with
  | nil => simp [each]
  | cons x rest ih => simp [each, ih]

theorem inOrder_ok_iff (parts : List (Trail α)) :
    (inOrder parts).ok = true ↔ ∀ part ∈ parts, part.ok = true :=
  each_ok_iff id parts

/-- A run that comes through has done all of its parts. -/
theorem each_events (f : β → Trail α) (items : List β)
    (passed : ∀ x ∈ items, (f x).ok = true) :
    (each f items).events = items.flatMap fun x => (f x).events := by
  induction items with
  | nil => rfl
  | cons x rest ih =>
      have first := passed x List.mem_cons_self
      have others : ∀ y ∈ rest, (f y).ok = true :=
        fun y member => passed y (List.mem_cons_of_mem x member)
      rw [each, andThen_events first, ih others, List.flatMap_cons]

theorem inOrder_events {parts : List (Trail α)} (passed : (inOrder parts).ok = true) :
    (inOrder parts).events = parts.flatMap fun part => part.events :=
  each_events id parts ((inOrder_ok_iff parts).mp passed)

/-! ## Equal trails -/

theorem andThen_assoc (first second third : Trail α) :
    (first.andThen second).andThen third = first.andThen (second.andThen third) := by
  unfold andThen
  cases here : first.ok with
  | false => simp [here]
  | true =>
      cases later : second.ok with
      | false => simp [later]
      | true => simp

theorem inOrder_append (parts rest : List (Trail α)) :
    inOrder (parts ++ rest) = (inOrder parts).andThen (inOrder rest) := by
  unfold inOrder
  induction parts with
  | nil => simp [each, andThen, done]
  | cons part parts ih => rw [List.cons_append, each, each, ih, andThen_assoc]

theorem inOrder_singleton (part : Trail α) : inOrder [part] = part := by
  obtain ⟨events, ok⟩ := part
  cases ok with
  | false => simp [inOrder, each, andThen]
  | true => simp [inOrder, each, andThen, done]

theorem each_passing (events : β → List α) (items : List β) :
    each (fun x => ⟨events x, true⟩) items = ⟨items.flatMap events, true⟩ := by
  induction items with
  | nil => rfl
  | cons x rest ih => rw [each, ih, List.flatMap_cons, andThen, if_pos rfl]

/-! ## What all events of a trail have in common -/

def All (p : α → Prop) (trail : Trail α) : Prop := ∀ event ∈ trail.events, p event

section All
variable {p : α → Prop}

theorem all_done : (done : Trail α).All p := by simp [All]

theorem all_check (ok : Bool) : (check ok : Trail α).All p := by simp [All]

theorem all_step {event : α} (holds : p event) (ok : Bool) : (step event ok).All p := by
  simpa [All] using holds

theorem all_andThen {first next : Trail α} (here : first.All p) (later : next.All p) :
    (first.andThen next).All p := by
  intro event member
  rcases mem_andThen.mp member with early | ⟨_, late⟩
  · exact here event early
  · exact later event late

theorem all_each {f : β → Trail α} {items : List β} (parts : ∀ x ∈ items, (f x).All p) :
    (each f items).All p := by
  induction items with
  | nil => exact all_done
  | cons x rest ih =>
      obtain ⟨first, others⟩ := List.forall_mem_cons.mp parts
      exact all_andThen first (ih others)

theorem all_inOrder {parts : List (Trail α)} (each : ∀ part ∈ parts, part.All p) :
    (inOrder parts).All p :=
  all_each each

end All

/-- Parts that run in rising rank, each with events of its own rank only, leave
their events in rising rank. -/
theorem each_ordered (f : β → Trail α) (rank : α → Nat) (place : β → Nat) (items : List β)
    (own : ∀ x ∈ items, (f x).All fun event => rank event = place x)
    (rising : items.Pairwise fun x y => place x ≤ place y) :
    (each f items).events.Pairwise fun a b => rank a ≤ rank b := by
  induction items with
  | nil => exact List.Pairwise.nil
  | cons x rest ih =>
      obtain ⟨least, risingRest⟩ := List.pairwise_cons.mp rising
      obtain ⟨ownFirst, ownRest⟩ := List.forall_mem_cons.mp own
      have within : (f x).events.Pairwise fun a b => rank a ≤ rank b := by
        apply List.pairwise_of_forall_mem_list
        intro a first b second
        rw [ownFirst a first, ownFirst b second]
      have above : (each f rest).All fun event => place x ≤ rank event := by
        apply all_each
        intro y among event member
        rw [ownRest y among event member]
        exact least y among
      rw [each, andThen]
      split
      · refine List.pairwise_append.mpr ⟨within, ih ownRest risingRest, ?_⟩
        intro a first b second
        rw [ownFirst a first]
        exact above b second
      · exact within

end Trail
