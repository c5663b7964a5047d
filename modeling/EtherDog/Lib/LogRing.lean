import Mathlib

/-!
# Rings of numbered entries

A ring of `size` slots keeps the newest entries of a log whose ids count up
from 1: the entry with an id lies in the slot that the id is modulo `size`.
`Holds` relates the ring to the whole log, of which it has every id from
`oldest` up to the next one.
-/

set_option autoImplicit false

variable {α : Type}

structure LogRing (α : Type) where
  size : Nat
  slots : Nat → α

namespace LogRing

def get (ring : LogRing α) (id : Nat) : α := ring.slots (id % ring.size)

def put (ring : LogRing α) (id : Nat) (x : α) : LogRing α :=
  { ring with slots := fun slot => if slot = id % ring.size then x else ring.slots slot }

/-- The oldest id a ring of `size` slots retains before `next` is stored. -/
def oldest (size next : Nat) : Nat := if size < next then next - size else 1

@[simp] theorem put_size (ring : LogRing α) (id : Nat) (x : α) : (ring.put id x).size = ring.size :=
  rfl

@[simp] theorem get_put_self (ring : LogRing α) (id : Nat) (x : α) : (ring.put id x).get id = x :=
  if_pos rfl

theorem get_put_of_ne (ring : LogRing α) {id other : Nat} (x : α)
    (apart : other % ring.size ≠ id % ring.size) : (ring.put id x).get other = ring.get other :=
  if_neg apart

theorem oldest_pos (size next : Nat) : 1 ≤ oldest size next := by
  unfold oldest
  split
  · omega
  · exact Nat.le_refl 1

theorem oldest_mono {size next later : Nat} (grows : next ≤ later) :
    oldest size next ≤ oldest size later := by
  unfold oldest
  split
  · rw [if_pos (by omega)]
    omega
  · split
    · omega
    · exact Nat.le_refl 1

theorem slot_ne {size id other : Nat} (below : other < id) (near : id < other + size) :
    other % size ≠ id % size := by
  intro same
  have multiple : size ∣ id - other := (Nat.modEq_iff_dvd' (Nat.le_of_lt below)).mp same
  have small : id - other = 0 := Nat.eq_zero_of_dvd_of_lt multiple (by omega)
  omega

structure Holds (ring : LogRing α) (next : Nat) (log : List α) : Prop where
  counted : next = log.length + 1
  retained : ∀ id, oldest ring.size next ≤ id → id < next → log[id - 1]? = some (ring.get id)

theorem Holds.empty (ring : LogRing α) : Holds ring 1 [] where
  counted := rfl
  retained := by
    intro id low high
    have positive := oldest_pos ring.size 1
    omega

theorem Holds.put {ring : LogRing α} {next : Nat} {log : List α}
    (holds : Holds ring next log) (x : α) : Holds (ring.put next x) (next + 1) (log ++ [x]) where
  counted := by
    rw [holds.counted]
    simp
  retained := by
    intro id low high
    rw [put_size] at low
    have positiveId := oldest_pos ring.size (next + 1)
    rcases Nat.lt_succ_iff_lt_or_eq.mp high with older | rfl
    · -- an older id is still in its slot: the window is no longer than the ring
      have near : next < id + ring.size := by
        unfold oldest at low
        split at low
        · omega
        · omega
      have before := holds.retained id (Nat.le_trans (oldest_mono (Nat.le_succ next)) low) older
      rw [get_put_of_ne ring x (slot_ne older near), ← before]
      have inside : id - 1 < log.length := by
        have total := holds.counted
        omega
      exact List.getElem?_append_left inside
    · have last : id - 1 = log.length := by
        have total := holds.counted
        omega
      rw [get_put_self, last]
      simp

theorem Holds.mem {ring : LogRing α} {next : Nat} {log : List α} (holds : Holds ring next log)
    {id : Nat} (low : oldest ring.size next ≤ id) (high : id < next) : ring.get id ∈ log :=
  List.mem_of_getElem? (holds.retained id low high)

/-- Read from a retained id on, the slots give what was logged from there on. -/
theorem Holds.map_get {ring : LogRing α} {next : Nat} {log : List α}
    (holds : Holds ring next log) {first : Nat} (low : oldest ring.size next ≤ first) :
    (List.range' first (next - first)).map ring.get = log.drop (first - 1) := by
  have positive := Nat.le_trans (oldest_pos ring.size next) low
  have total := holds.counted
  apply List.ext_getElem
  · simp only [List.length_map, List.length_range', List.length_drop]
    omega
  · intro i inside _
    simp only [List.length_map, List.length_range'] at inside
    have stored := holds.retained (first + i) (by omega) (by omega)
    have place : first + i - 1 = first - 1 + i := by omega
    rw [place] at stored
    obtain ⟨_, logged⟩ := List.getElem?_eq_some_iff.mp stored
    simp [logged]

end LogRing
