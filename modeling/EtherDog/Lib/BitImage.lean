import Mathlib

/-!
# The bits of a byte image

Bit `n` of an image is bit `n % 8` of its byte `n / 8`.  An image is known by its
bits, and a write of one bit leaves every other one.  `intBit` is a bit of an
integer of any sign and size, in two's complement.
-/

set_option autoImplicit false

namespace BitImage

/-- `none` behind the end of the image. -/
def bitAt (image : List UInt8) (bit : Nat) : Option Bool :=
  image[bit / 8]?.map fun byte => byte.toNat.testBit (bit % 8)

def setByteBit (byte : UInt8) (bit : Nat) (on : Bool) : UInt8 :=
  if on then byte ||| (1 <<< UInt8.ofNat bit) else byte &&& ~~~(1 <<< UInt8.ofNat bit)

def putBit (image : List UInt8) (bit : Nat) (on : Bool) : Option (List UInt8) :=
  image[bit / 8]?.map fun byte => image.set (bit / 8) (setByteBit byte (bit % 8) on)

def intBit (value : Int) (bit : Nat) : Bool := decide (value >>> bit % 2 = 1)

/-! ## Integers -/

theorem intBit_natCast (n bit : Nat) : intBit n bit = n.testBit bit := by
  rw [intBit, Nat.testBit_eq_decide_div_mod_eq, Int.shiftRight_eq_div_pow]
  congr 1
  norm_cast

/-- The bits below `width` are those of the remainder. -/
theorem testBit_emod (value : Int) (width bit : Nat) :
    (value % 2 ^ width).toNat.testBit bit = (decide (bit < width) && intBit value bit) := by
  have positive : (0 : Int) < 2 ^ width := by positivity
  have cast : ((value % 2 ^ width).toNat : Int) = value % 2 ^ width :=
    Int.toNat_of_nonneg (Int.emod_nonneg _ positive.ne')
  by_cases below : bit < width
  · rw [← intBit_natCast, cast]
    simp only [below, decide_true, Bool.true_and, intBit, Int.shiftRight_eq_div_pow]
    -- the quotient moves the other bits by an even number
    have split : value = value % 2 ^ width + 2 ^ bit * (2 * 2 ^ (width - bit - 1) *
        (value / 2 ^ width)) := by
      have powers : (2 : Int) ^ bit * (2 * 2 ^ (width - bit - 1)) = 2 ^ width := by
        rw [← pow_succ', ← pow_add]
        congr 1
        omega
      rw [← mul_assoc, powers]
      exact (Int.emod_add_mul_ediv value _).symm
    have moved : value / 2 ^ bit = value % 2 ^ width / 2 ^ bit +
        2 * (2 ^ (width - bit - 1) * (value / 2 ^ width)) := by
      conv_lhs => rw [split]
      rw [Int.add_mul_ediv_left _ _ (by positivity), mul_assoc]
    push_cast
    rw [moved, Int.add_mul_emod_self_left]
  · simp only [below, decide_false, Bool.false_and]
    apply Nat.testBit_lt_two_pow
    have small := Int.emod_lt_of_pos value positive
    have wide : 2 ^ width ≤ 2 ^ bit := Nat.pow_le_pow_right (by decide) (by omega)
    have within : (value % 2 ^ width).toNat < 2 ^ width := by
      zify
      rwa [cast]
    omega

/-! ## Images -/

theorem bitAt_isSome_iff (image : List UInt8) (bit : Nat) :
    (bitAt image bit).isSome = true ↔ bit < 8 * image.length := by
  rw [bitAt, Option.isSome_map, Option.isSome_iff_ne_none, Ne, List.getElem?_eq_none_iff]
  omega

theorem testBit_setByteBit (byte : UInt8) {bit other : Nat} (inByte : bit < 8) (within : other < 8)
    (on : Bool) :
    (setByteBit byte bit on).toNat.testBit other =
      if other = bit then on else byte.toNat.testBit other := by
  have masks : ∀ i < 8, ∀ j < 8,
      ((1 : UInt8) <<< UInt8.ofNat i).toNat.testBit j = decide (j = i) ∧
        (~~~((1 : UInt8) <<< UInt8.ofNat i)).toNat.testBit j = !decide (j = i) := by
    decide
  obtain ⟨chosen, others⟩ := masks bit inByte other within
  unfold setByteBit
  cases on with
  | true =>
      rw [if_pos rfl, UInt8.toNat_or, Nat.testBit_or, chosen]
      by_cases same : other = bit
      · simp [same]
      · simp [same]
  | false =>
      rw [if_neg Bool.false_ne_true, UInt8.toNat_and, Nat.testBit_and, others]
      by_cases same : other = bit
      · simp [same]
      · simp [same]

/-- A write of one bit. -/
theorem putBit_spec {image next : List UInt8} {bit : Nat} {on : Bool}
    (written : putBit image bit on = some next) :
    next.length = image.length ∧
      ∀ other, bitAt next other = if other = bit then some on else bitAt image other := by
  obtain ⟨byte, found, rfl⟩ := Option.map_eq_some_iff.mp written
  refine ⟨List.length_set, ?_⟩
  intro other
  obtain ⟨inside, _⟩ := List.getElem?_eq_some_iff.mp found
  by_cases sameByte : other / 8 = bit / 8
  · have bits : (other % 8 = bit % 8) ↔ other = bit := by omega
    rw [bitAt, bitAt, sameByte, List.getElem?_set_self inside, found, Option.map_some,
      Option.map_some, testBit_setByteBit byte (Nat.mod_lt _ (by decide))
        (Nat.mod_lt _ (by decide))]
    simp only [bits]
    split
    · rfl
    · rfl
  · have apart : other ≠ bit := by
      rintro rfl
      exact sameByte rfl
    rw [bitAt, bitAt, List.getElem?_set_ne (Ne.symm sameByte), if_neg apart]

theorem putBit_eq_none_iff {image : List UInt8} {bit : Nat} {on : Bool} :
    putBit image bit on = none ↔ 8 * image.length ≤ bit := by
  rw [putBit, Option.map_eq_none_iff, List.getElem?_eq_none_iff]
  omega

theorem eq_of_bitAt {first second : List UInt8}
    (same : ∀ bit, bitAt first bit = bitAt second bit) : first = second := by
  have position : ∀ n j, j < 8 → (8 * n + j) / 8 = n ∧ (8 * n + j) % 8 = j := by omega
  apply List.ext_getElem?
  intro n
  have bits : ∀ j < 8, first[n]?.map (fun byte => byte.toNat.testBit j) =
      second[n]?.map (fun byte => byte.toNat.testBit j) := by
    intro j small
    have own := same (8 * n + j)
    rw [bitAt, bitAt, (position n j small).1, (position n j small).2] at own
    exact own
  cases left : first[n]? with
  | none =>
      have ended := bits 0 (by decide)
      rw [left, Option.map_none, eq_comm, Option.map_eq_none_iff] at ended
      rw [ended]
  | some a =>
      cases right : second[n]? with
      | none =>
          have ended := bits 0 (by decide)
          rw [left, right] at ended
          cases ended
      | some b =>
          congr 1
          apply UInt8.toNat_inj.mp
          apply Nat.eq_of_testBit_eq
          intro j
          by_cases small : j < 8
          · have own := bits j small
            rw [left, right] at own
            exact Option.some.inj own
          · have wide : 2 ^ 8 ≤ 2 ^ j := Nat.pow_le_pow_right (by decide) (by omega)
            rw [Nat.testBit_lt_two_pow (Nat.lt_of_lt_of_le a.toNat_lt wide),
              Nat.testBit_lt_two_pow (Nat.lt_of_lt_of_le b.toNat_lt wide)]

end BitImage
