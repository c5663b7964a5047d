import EtherDog.Lib.Trail

/-!
# Checked runs

A checked value is `none` where computing it meets an operation without a result.
It agrees with an exact one if it can be nothing else.  A checked trail that agrees
with an exact trail has a result just where every part that the exact trail reaches
has one.
-/

set_option autoImplicit false

namespace CheckedRun

variable {α β γ δ : Type}

def Agrees (value : Option γ) (exact : γ) : Prop := ∀ v, value = some v → v = exact

theorem Agrees.eq_some_iff {value : Option γ} {exact : γ} (agrees : Agrees value exact) :
    value = some exact ↔ value.isSome = true := by
  constructor
  · intro same
    rw [same]
    rfl
  · intro defined
    obtain ⟨v, found⟩ := Option.isSome_iff_exists.mp defined
    rw [found, agrees v found]

theorem agrees_some (exact : γ) : Agrees (some exact) exact :=
  fun _ same => (Option.some.inj same).symm

theorem Agrees.map {value : Option γ} {exact : γ} (agrees : Agrees value exact) (f : γ → δ) :
    Agrees (value.map f) (f exact) := by
  intro made found
  obtain ⟨v, given, rfl⟩ := Option.map_eq_some_iff.mp found
  rw [agrees v given]

theorem Agrees.bind {value : Option γ} {exact : γ} {f : γ → Option δ} {result : δ}
    (agrees : Agrees value exact) (next : Agrees (f exact) result) :
    Agrees (value.bind f) result := by
  intro made found
  obtain ⟨v, given, rest⟩ := Option.bind_eq_some_iff.mp found
  rw [agrees v given] at rest
  exact next made rest

theorem Agrees.bind_isSome_iff {value : Option γ} {exact : γ} {f : γ → Option δ}
    (agrees : Agrees value exact) :
    (value.bind f).isSome = true ↔ value.isSome = true ∧ (f exact).isSome = true := by
  cases given : value with
  | none => simp
  | some v => simp [agrees v given]

/-- A loop whose turns are checked. -/
theorem foldlM_agrees {f : β → α → Option β} {exact : β → α → β} {items : List α}
    (turn : ∀ b, ∀ x ∈ items, Agrees (f b x) (exact b x)) (start : β) :
    Agrees (items.foldlM f start) (items.foldl exact start) := by
  induction items generalizing start with
  | nil => exact agrees_some start
  | cons x rest ih =>
      have first := turn start x List.mem_cons_self
      have later := ih (fun b y member => turn b y (List.mem_cons_of_mem x member)) (exact start x)
      exact first.bind later

theorem foldlM_isSome_iff {f : β → α → Option β} {items : List α} {p : α → Prop}
    (turn : ∀ b, ∀ x ∈ items, ((f b x).isSome = true ↔ p x)) (start : β) :
    (items.foldlM f start).isSome = true ↔ ∀ x ∈ items, p x := by
  induction items generalizing start with
  | nil => simp
  | cons x rest ih =>
      have first := turn start x List.mem_cons_self
      have later := ih fun b y member => turn b y (List.mem_cons_of_mem x member)
      rw [List.foldlM_cons, List.forall_mem_cons, ← first]
      cases given : f start x with
      | none => simp
      | some next => simpa [given] using later next

/-! ## Trails -/

open Trail

def andThenChecked (first next : Option (Trail α)) : Option (Trail α) :=
  first.bind fun trail => if trail.ok then next.map (andThen trail) else some trail

def eachChecked (f : β → Option (Trail α)) : List β → Option (Trail α)
  | [] => some done
  | x :: rest => andThenChecked (f x) (eachChecked f rest)

/-- Every item that the run over the list comes to has the property. -/
def Reached (p : β → Prop) (f : β → Trail α) : List β → Prop
  | [] => True
  | x :: rest => p x ∧ ((f x).ok = true → Reached p f rest)

theorem Agrees.andThen {first next : Option (Trail α)} {exactFirst exactNext : Trail α}
    (here : Agrees first exactFirst) (later : Agrees next exactNext) :
    Agrees (andThenChecked first next) (exactFirst.andThen exactNext) := by
  apply here.bind
  by_cases passed : exactFirst.ok = true
  · rw [if_pos passed]
    exact later.map (Trail.andThen exactFirst)
  · rw [if_neg passed, Trail.andThen, if_neg passed]
    exact agrees_some exactFirst

theorem Agrees.andThen_isSome_iff {first next : Option (Trail α)} {exact : Trail α}
    (here : Agrees first exact) :
    (andThenChecked first next).isSome = true ↔
      first.isSome = true ∧ (exact.ok = true → next.isSome = true) := by
  rw [andThenChecked, here.bind_isSome_iff]
  by_cases passed : exact.ok = true
  · simp [passed]
  · simp [passed]

theorem Agrees.each {f : β → Option (Trail α)} {exact : β → Trail α} {items : List β}
    (agrees : ∀ x ∈ items, Agrees (f x) (exact x)) :
    Agrees (eachChecked f items) (Trail.each exact items) := by
  induction items with
  | nil => exact agrees_some done
  | cons x rest ih =>
      obtain ⟨first, others⟩ := List.forall_mem_cons.mp agrees
      exact first.andThen (ih others)

theorem each_isSome_iff {f : β → Option (Trail α)} {exact : β → Trail α} {items : List β}
    (agrees : ∀ x ∈ items, Agrees (f x) (exact x)) :
    (eachChecked f items).isSome = true ↔
      Reached (fun x => (f x).isSome = true) exact items := by
  induction items with
  | nil => exact iff_of_true rfl trivial
  | cons x rest ih =>
      obtain ⟨first, others⟩ := List.forall_mem_cons.mp agrees
      rw [eachChecked, first.andThen_isSome_iff, Reached, ih others]

theorem reached_congr {p q : β → Prop} {f : β → Trail α} {items : List β}
    (same : ∀ x ∈ items, (p x ↔ q x)) : Reached p f items ↔ Reached q f items := by
  induction items with
  | nil => exact Iff.rfl
  | cons x rest ih =>
      obtain ⟨first, others⟩ := List.forall_mem_cons.mp same
      rw [Reached, Reached, first, ih others]

theorem reached_of_forall {p : β → Prop} {f : β → Trail α} {items : List β}
    (all : ∀ x ∈ items, p x) : Reached p f items := by
  induction items with
  | nil => trivial
  | cons x rest ih =>
      obtain ⟨first, others⟩ := List.forall_mem_cons.mp all
      exact ⟨first, fun _ => ih others⟩

/-- A run that cannot fail reaches all. -/
theorem reached_iff_forall {p : β → Prop} {f : β → Trail α} {items : List β}
    (passes : ∀ x ∈ items, (f x).ok = true) : Reached p f items ↔ ∀ x ∈ items, p x := by
  induction items with
  | nil => simp [Reached]
  | cons x rest ih =>
      obtain ⟨first, others⟩ := List.forall_mem_cons.mp passes
      rw [Reached, ih others, List.forall_mem_cons]
      simp [first]

end CheckedRun
