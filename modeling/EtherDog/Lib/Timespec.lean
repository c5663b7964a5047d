import Mathlib

/-!
# Times in seconds and nanoseconds

A `Timespec` is a pair of machine integers; it is normal when its nanoseconds are
less than a second.  Adding to a normal time carries at most one second over.
-/

set_option autoImplicit false

structure Timespec where
  tvSec : Int
  tvNsec : Int
  deriving DecidableEq, Repr

namespace Timespec

def nsPerSec : Int := 1000000000

def Normal (t : Timespec) : Prop := 0 ≤ t.tvNsec ∧ t.tvNsec < nsPerSec

instance (t : Timespec) : Decidable t.Normal := inferInstanceAs (Decidable (_ ∧ _))

def ns (t : Timespec) : Int := t.tvSec * nsPerSec + t.tvNsec

/-- Adds seconds and less than a second of nanoseconds. -/
def plus (t : Timespec) (sec nsec : Int) : Timespec :=
  let sum : Timespec := ⟨t.tvSec + sec, t.tvNsec + nsec⟩
  if sum.tvNsec ≥ nsPerSec then ⟨sum.tvSec + 1, sum.tvNsec - nsPerSec⟩ else sum

theorem plus_ns (t : Timespec) (sec nsec : Int) :
    (t.plus sec nsec).ns = t.ns + (sec * nsPerSec + nsec) := by
  unfold plus ns
  dsimp only
  split
  · ring
  · ring

theorem plus_normal {t : Timespec} (normal : t.Normal) (sec : Int) {nsec : Int} (low : 0 ≤ nsec)
    (high : nsec < nsPerSec) : (t.plus sec nsec).Normal := by
  obtain ⟨atLeast, below⟩ := normal
  unfold plus Normal
  dsimp only
  split
  · rename_i carried
    constructor
    · dsimp only
      omega
    · dsimp only
      omega
  · rename_i fits
    exact ⟨by dsimp only; omega, by dsimp only; omega⟩

/-- Adds a span of nanoseconds, split as C divides. -/
def plusNs (t : Timespec) (span : Int) : Timespec :=
  t.plus (span.tdiv nsPerSec) (span.tmod nsPerSec)

theorem plusNs_ns (t : Timespec) (span : Int) : (t.plusNs span).ns = t.ns + span := by
  have split := Int.tdiv_mul_add_tmod span nsPerSec
  rw [plusNs, plus_ns, split]

theorem plusNs_normal {t : Timespec} (normal : t.Normal) {span : Int} (later : 0 ≤ span) :
    (t.plusNs span).Normal :=
  plus_normal normal _ (Int.tmod_nonneg _ later) (Int.tmod_lt_of_pos _ (by decide))

/-- The 64-bit number of nanoseconds. -/
def toNs (t : Timespec) : UInt64 := UInt64.ofInt t.tvSec * 1000000000 + UInt64.ofInt t.tvNsec

/-- Below 2^64 nanoseconds the number is exact. -/
theorem toNs_toNat {t : Timespec} (past : 0 ≤ t.ns) (near : t.ns < 2 ^ 64) :
    (t.toNs.toNat : Int) = t.ns := by
  have exactly : t.toNs = UInt64.ofInt t.ns := by
    rw [toNs, ns, UInt64.ofInt_add, UInt64.ofInt_mul]
    rfl
  rw [exactly, UInt64.ofInt, UInt64.toNat_ofNat']
  omega

theorem toNs_lt_iff {earlier later : Timespec} (past : 0 ≤ earlier.ns) (near : earlier.ns < 2 ^ 64)
    (pastLater : 0 ≤ later.ns) (nearLater : later.ns < 2 ^ 64) :
    earlier.toNs < later.toNs ↔ earlier.ns < later.ns := by
  have first := toNs_toNat past near
  have second := toNs_toNat pastLater nearLater
  rw [UInt64.lt_iff_toNat_lt]
  omega

end Timespec
