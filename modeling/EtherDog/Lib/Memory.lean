import Mathlib

/-!
# Slices of a memory block

A block of memory is a list of cells; `slice` reads and `overwrite` writes a
run of cells from an address on.  The lemmas say what a write leaves to read
when it stays inside the block.

Cells that were never written are `none`; `Begins` is the values such a block
starts with, which a write behind them extends and `resize` keeps.
-/

set_option autoImplicit false

namespace Memory

variable {α : Type}

def slice (memory : List α) (address count : Nat) : List α :=
  (memory.drop address).take count

def overwrite (memory : List α) (address : Nat) (cells : List α) : List α :=
  memory.take address ++ (cells ++ memory.drop (address + cells.length))

theorem slice_length (memory : List α) (address count : Nat)
    (inside : address + count ≤ memory.length) :
    (slice memory address count).length = count := by
  simp only [slice, List.length_take, List.length_drop]
  omega

theorem overwrite_length (memory : List α) (address : Nat) (cells : List α)
    (inside : address + cells.length ≤ memory.length) :
    (overwrite memory address cells).length = memory.length := by
  simp only [overwrite, List.length_append, List.length_take, List.length_drop]
  omega

theorem slice_overwrite (memory : List α) (address : Nat) (cells : List α)
    (inside : address + cells.length ≤ memory.length) :
    slice (overwrite memory address cells) address cells.length = cells := by
  have front : (memory.take address).length = address := by
    rw [List.length_take]
    omega
  rw [slice, overwrite, List.drop_append_of_le_length (by omega), List.drop_of_length_le (by omega),
    List.nil_append, List.take_append_of_le_length (by omega), List.take_of_length_le (by omega)]

theorem slice_overwrite_before (memory : List α) (address : Nat) (cells : List α)
    (start count : Nat) (before : start + count ≤ address)
    (inside : start + count ≤ memory.length) :
    slice (overwrite memory address cells) start count = slice memory start count := by
  have front : start + count ≤ (memory.take address).length := by
    rw [List.length_take]
    omega
  have rest : count ≤ ((memory.take address).drop start).length := by
    rw [List.length_drop]
    omega
  rw [slice, overwrite, List.drop_append_of_le_length (by omega),
    List.take_append_of_le_length rest, List.drop_take, List.take_take, slice]
  congr 1
  omega

/-- A write up to the end of the block. -/
theorem overwrite_to_end (memory : List α) (address : Nat) (cells : List α)
    (exactly : address + cells.length = memory.length) :
    overwrite memory address cells = memory.take address ++ cells := by
  rw [overwrite, exactly, List.drop_length, List.append_nil]

/-! ## Cells that have not been written -/

def Begins (memory : List (Option α)) (written : List α) : Prop := written.map some <+: memory

/-- `realloc`. -/
def resize (memory : List (Option α)) (size : Nat) : List (Option α) :=
  memory.take size ++ List.replicate (size - memory.length) none

variable {memory : List (Option α)} {written : List α}

theorem Begins.length_le (begins : Begins memory written) : written.length ≤ memory.length := by
  have shorter := List.IsPrefix.length_le begins
  rwa [List.length_map] at shorter

theorem Begins.of_append {more : List α} (begins : Begins memory (written ++ more)) :
    Begins memory written := by
  rw [Begins, List.map_append] at begins
  exact (List.prefix_append _ _).trans begins

theorem Begins.drop {more : List α} (begins : Begins memory (written ++ more)) :
    Begins (memory.drop written.length) more := by
  obtain ⟨rest, rfl⟩ := begins
  have length : (written.map some).length = written.length := List.length_map _
  refine ⟨rest, ?_⟩
  rw [List.map_append, List.append_assoc, ← length, List.drop_left]

theorem Begins.overwrite (begins : Begins memory written) (cells : List α) :
    Begins (overwrite memory written.length (cells.map some)) (written ++ cells) := by
  obtain ⟨rest, rfl⟩ := begins
  have length : (written.map some).length = written.length := List.length_map _
  rw [Begins, Memory.overwrite, ← length, List.take_left, List.map_append, ← List.append_assoc]
  exact List.prefix_append _ _

theorem resize_length (memory : List (Option α)) (size : Nat) :
    (resize memory size).length = size := by
  rw [resize, List.length_append, List.length_take, List.length_replicate]
  omega

theorem Begins.resize (begins : Begins memory written) {size : Nat}
    (room : written.length ≤ size) : Begins (resize memory size) written := by
  refine List.IsPrefix.trans ?_ (List.prefix_append _ _)
  rw [List.prefix_take_iff, List.length_map]
  exact ⟨begins, room⟩

end Memory
