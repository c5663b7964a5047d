import Mathlib

/-!
# Items packed one after another

`offsets` places every item of a list behind those before it, from a start
address on.  The placed items follow each other without overlap and end where
the sizes add up to.
-/

set_option autoImplicit false

namespace Packing

variable {α : Type} (size : α → Nat)

def total (items : List α) : Nat := (items.map size).sum

/-- Each item with the start plus the sizes of all items before it. -/
def offsets (start : Nat) (items : List α) : List (Nat × α) :=
  items.mapIdx fun i item => (start + total size (items.take i), item)

theorem total_cons (item : α) (rest : List α) :
    total size (item :: rest) = size item + total size rest := by
  simp [total]

theorem offsets_nil (start : Nat) : offsets size start ([] : List α) = [] := rfl

theorem offsets_cons (start : Nat) (item : α) (rest : List α) :
    offsets size start (item :: rest) =
      (start, item) :: offsets size (start + size item) rest := by
  unfold offsets
  rw [List.mapIdx_cons]
  simp only [List.take_zero, List.take_succ_cons, total_cons, Nat.add_assoc]
  rfl

theorem offsets_shift (shift start : Nat) (items : List α) :
    offsets size (shift + start) items =
      (offsets size start items).map fun placed => (shift + placed.1, placed.2) := by
  induction items generalizing start with
  | nil => rfl
  | cons item rest ih => rw [offsets_cons, offsets_cons, List.map_cons, Nat.add_assoc, ih]

theorem offsets_append (start : Nat) (front back : List α) :
    offsets size start (front ++ back) =
      offsets size start front ++ offsets size (start + total size front) back := by
  induction front generalizing start with
  | nil => simp [offsets_nil, total]
  | cons item rest ih =>
      rw [List.cons_append, offsets_cons, offsets_cons, ih, total_cons, Nat.add_assoc,
        List.cons_append]

theorem offsets_inside (start : Nat) (items : List α) :
    ∀ placed ∈ offsets size start items,
      start ≤ placed.1 ∧ placed.1 + size placed.2 ≤ start + total size items ∧
        placed.2 ∈ items := by
  induction items generalizing start with
  | nil => simp [offsets_nil]
  | cons item rest ih =>
      intro placed member
      rw [offsets_cons] at member
      rw [total_cons]
      rcases List.mem_cons.mp member with rfl | later
      · exact ⟨le_refl _, by dsimp only; omega, by simp⟩
      · obtain ⟨after, before, among⟩ := ih (start + size item) placed later
        exact ⟨by omega, by omega, List.mem_cons_of_mem _ among⟩

theorem offsets_pairwise (start : Nat) (items : List α) :
    (offsets size start items).Pairwise fun a b => a.1 + size a.2 ≤ b.1 := by
  induction items generalizing start with
  | nil => simp [offsets_nil]
  | cons item rest ih =>
      rw [offsets_cons, List.pairwise_cons]
      refine ⟨?_, ih (start + size item)⟩
      intro placed later
      exact (offsets_inside size (start + size item) rest placed later).1

theorem offsets_items (start : Nat) (items : List α) :
    (offsets size start items).map Prod.snd = items := by
  induction items generalizing start with
  | nil => rfl
  | cons item rest ih => rw [offsets_cons, List.map_cons, ih]

end Packing
