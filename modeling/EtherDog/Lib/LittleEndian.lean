import Mathlib

/-!
# Little-endian numbers

`bytesOf` writes the low bytes of a number, lowest first, and `valueOf` reads
bytes back.  `shiftIn_eq` and `byte_of_shift` are the steps of the two loops that
shift a machine word: reading pushes a byte in from below, writing takes the byte
at a multiple of eight.
-/

set_option autoImplicit false

namespace LittleEndian

def bytesOf : Nat → Nat → List UInt8
  | 0, _ => []
  | width + 1, value => UInt8.ofNat value :: bytesOf width (value / 256)

def valueOf : List UInt8 → Nat
  | [] => 0
  | byte :: rest => byte.toNat + 256 * valueOf rest

theorem valueOf_lt (bytes : List UInt8) : valueOf bytes < 256 ^ bytes.length := by
  induction bytes with
  | nil => decide
  | cons byte rest ih =>
      have bounded := byte.toNat_lt
      rw [valueOf, List.length_cons, Nat.pow_succ]
      omega

/-- Bytes are read back as the number, reduced to their width. -/
theorem valueOf_bytesOf (width value : Nat) : valueOf (bytesOf width value) = value % 256 ^ width := by
  induction width generalizing value with
  | zero => simp [bytesOf, valueOf, Nat.mod_one]
  | succ width ih =>
      have low : (UInt8.ofNat value).toNat = value % 256 := by simp
      rw [bytesOf, valueOf, ih, low, Nat.pow_succ, Nat.mul_comm (256 ^ width), Nat.mod_mul]

theorem bytesOf_valueOf (bytes : List UInt8) : bytesOf bytes.length (valueOf bytes) = bytes := by
  induction bytes with
  | nil => rfl
  | cons byte rest ih =>
      have bounded := byte.toNat_lt
      have high : (byte.toNat + 256 * valueOf rest) / 256 = valueOf rest := by omega
      have low : UInt8.ofNat (byte.toNat + 256 * valueOf rest) = byte := by
        apply UInt8.toNat_inj.mp
        rw [UInt8.toNat_ofNat']
        omega
      rw [List.length_cons, bytesOf, valueOf, high, low, ih]

/-- Pushing a byte into a word of `bits` bits from below. -/
theorem shiftIn_eq (bits value byte : Nat) (wide : 8 ≤ bits) (small : byte < 256) :
    (value <<< 8) % 2 ^ bits ||| byte = (byte + 256 * value) % 2 ^ bits := by
  obtain ⟨more, rfl⟩ := Nat.exists_eq_add_of_le wide
  have aligned : (value <<< 8) % 2 ^ (8 + more) = (value % 2 ^ more) <<< 8 := by
    rw [Nat.shiftLeft_eq, Nat.shiftLeft_eq, Nat.pow_add, Nat.mul_comm value,
      Nat.mul_mod_mul_left, Nat.mul_comm]
  rw [aligned, ← Nat.shiftLeft_add_eq_or_of_lt (by simpa using small), Nat.shiftLeft_eq,
    Nat.pow_add, show (2 : Nat) ^ 8 = 256 from rfl, Nat.mod_mul]
  have high : (byte + 256 * value) / 256 = value := by omega
  have low : (byte + 256 * value) % 256 = byte := by omega
  rw [high, low]
  ring

/-- The byte that a shift by `8 * i` brings down. -/
theorem byte_of_shift (value i : Nat) : (value >>> (8 * i)) % 256 = value / 256 ^ i % 256 := by
  rw [Nat.shiftRight_eq_div_pow, Nat.pow_mul]

theorem bytesOf_eq_map (width value : Nat) :
    bytesOf width value = (List.range width).map fun i => UInt8.ofNat (value / 256 ^ i) := by
  induction width generalizing value with
  | zero => rfl
  | succ width ih =>
      rw [bytesOf, ih, List.range_succ_eq_map, List.map_cons, List.map_map]
      simp only [Function.comp_def, Nat.pow_zero, Nat.div_one, Nat.succ_eq_add_one, Nat.pow_succ,
        Nat.mul_comm _ 256, Nat.div_div_eq_div_mul]

@[simp] theorem length_bytesOf (width value : Nat) : (bytesOf width value).length = width := by
  rw [bytesOf_eq_map, List.length_map, List.length_range]

end LittleEndian
