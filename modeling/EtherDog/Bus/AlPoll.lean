import EtherDog.Bus.Cycle

/-!
# The AL status poll (src/master.h, src/master.c)

The cyclic poll is a broadcast read: every slave ORs its AL status register into
the reply.  `ecat_al_poll_healthy` sees the union only; this module says what it
tells about each slave, and what `ecat_master_mark_all_operational` stores when
the monitor reads no states because of it.
-/

set_option autoImplicit false

namespace EtherDog

/-- The reply of a broadcast read. -/
def broadcastRead : List UInt16 → UInt16
  | [] => 0
  | word :: rest => word ||| broadcastRead rest

/-- The bits that `ecat_al_poll_healthy` compares: the state and the error flag. -/
def alState (word : UInt16) : UInt16 := word &&& (0x0F ||| ecStateError)

def SlaveOperational (word : UInt16) : Prop :=
  word &&& 0x0F = ecStateOperational ∧ word &&& ecStateError = 0

/-- What `ec_slavet` caches of the AL registers. -/
structure CachedAl where
  state : UInt16
  alStatusCode : UInt16
  deriving DecidableEq, Repr

/-- `slavelist` up to `slavecount`; entry 0 stands for all slaves. -/
structure CachedStates where
  all : CachedAl
  slaves : List CachedAl
  deriving DecidableEq, Repr

def ecatMasterMarkAllOperational (cached : CachedStates) : CachedStates where
  all := ⟨ecStateOperational, 0⟩
  slaves := cached.slaves.map fun _ => ⟨ecStateOperational, 0⟩

/-! ## Words -/

theorem uint16_and_or (word a b : UInt16) : word &&& (a ||| b) = (word &&& a) ||| (word &&& b) :=
  UInt16.toBitVec_inj.mp (by simp [BitVec.and_or_distrib_left])

theorem uint16_or_and (a b mask : UInt16) : (a ||| b) &&& mask = (a &&& mask) ||| (b &&& mask) :=
  UInt16.toBitVec_inj.mp (by simp [BitVec.and_or_distrib_right])

theorem and_ecStateOperational (word : UInt16) :
    word &&& ecStateOperational = 0 ∨ word &&& ecStateOperational = ecStateOperational := by
  have bit := Nat.and_two_pow word.toNat 3
  cases set : word.toNat.testBit 3 with
  | false =>
      left
      apply UInt16.toNat_inj.mp
      rw [set] at bit
      simpa [ecStateOperational] using bit
  | true =>
      right
      apply UInt16.toNat_inj.mp
      rw [set] at bit
      simpa [ecStateOperational] using bit

def otherBits : UInt16 := 0x07 ||| ecStateError

theorem alState_operational_iff (word : UInt16) :
    alState word = ecStateOperational ↔
      word &&& otherBits = 0 ∧ word &&& ecStateOperational ≠ 0 := by
  have parts : (0x0F : UInt16) ||| ecStateError = otherBits ||| ecStateOperational := by decide
  have split : alState word = (word &&& otherBits) ||| (word &&& ecStateOperational) := by
    rw [alState, parts, uint16_and_or]
  have apart : ecStateOperational &&& otherBits = 0 := by decide
  constructor
  · intro operational
    have others : word &&& otherBits = alState word &&& otherBits := by
      rw [alState, UInt16.and_assoc, show (0x0F ||| ecStateError) &&& otherBits = otherBits by decide]
    have own : word &&& ecStateOperational = alState word &&& ecStateOperational := by
      rw [alState, UInt16.and_assoc,
        show (0x0F ||| ecStateError) &&& ecStateOperational = ecStateOperational by decide]
    rw [others, own, operational]
    exact ⟨apart, by decide⟩
  · rintro ⟨clear, set⟩
    rw [split, clear, (and_ecStateOperational word).resolve_left set]
    decide

theorem slaveOperational_iff (word : UInt16) :
    SlaveOperational word ↔ alState word = ecStateOperational := by
  rw [alState, uint16_and_or]
  constructor
  · rintro ⟨state, error⟩
    rw [state, error]
    decide
  · intro both
    have low : ((word &&& 0x0F) ||| (word &&& ecStateError)) &&& 0x0F = word &&& 0x0F := by
      rw [← uint16_and_or, UInt16.and_assoc]
      rfl
    have high : ((word &&& 0x0F) ||| (word &&& ecStateError)) &&& ecStateError =
        word &&& ecStateError := by
      rw [← uint16_and_or, UInt16.and_assoc]
      rfl
    rw [both] at low high
    exact ⟨low.symm, high.symm⟩

/-! ## The union -/

theorem broadcastRead_and_eq_zero_iff (words : List UInt16) (mask : UInt16) :
    broadcastRead words &&& mask = 0 ↔ ∀ word ∈ words, word &&& mask = 0 := by
  induction words with
  | nil => simp [broadcastRead]
  | cons word rest ih =>
      rw [broadcastRead, uint16_or_and, UInt16.or_eq_zero_iff, ih]
      simp only [List.mem_cons, forall_eq_or_imp]

/-- A state without other bits can only be OP. -/
theorem operational_set {word : UInt16} (state : word &&& 0x0F ≠ 0)
    (clear : word &&& otherBits = 0) : word &&& ecStateOperational ≠ 0 := by
  intro none
  apply state
  have parts : (0x0F : UInt16) = (otherBits ||| ecStateOperational) &&& 0x0F := by decide
  rw [parts, ← UInt16.and_assoc, uint16_and_or, clear, none]
  rfl

/-- No state can hide behind OP in the union. -/
theorem alState_broadcastRead_iff {words : List UInt16} (nonempty : words ≠ [])
    (states : ∀ word ∈ words, word &&& 0x0F ≠ 0) :
    alState (broadcastRead words) = ecStateOperational ↔
      ∀ word ∈ words, SlaveOperational word := by
  simp only [slaveOperational_iff, alState_operational_iff]
  constructor
  · rintro ⟨clear, _⟩ word member
    have own := (broadcastRead_and_eq_zero_iff words otherBits).mp clear word member
    exact ⟨own, operational_set (states word member) own⟩
  · intro each
    refine ⟨(broadcastRead_and_eq_zero_iff words otherBits).mpr fun word member =>
      (each word member).1, ?_⟩
    intro none
    obtain ⟨word, member⟩ := List.exists_mem_of_ne_nil words nonempty
    exact (each word member).2 ((broadcastRead_and_eq_zero_iff words _).mp none word member)

/-- One broadcast read finds every slave in OP just if each one's own word says
so, and the states stored then are those of the words. -/
theorem al_poll_equals_slave_checks (words : List UInt16) (nonempty : words ≠ [])
    (states : ∀ word ∈ words, word &&& 0x0F ≠ 0) :
    (ecatAlPollHealthy (broadcastRead words) words.length words.length = true ↔
      ∀ word ∈ words, SlaveOperational word) ∧
    (∀ (alStatus : UInt16) (wkc : Int) (slaveCount : Nat), wkc < slaveCount →
      ecatAlPollHealthy alStatus wkc slaveCount = false) ∧
    (ecatAlPollHealthy (broadcastRead words) words.length words.length = true →
      ∀ cached : CachedStates, cached.slaves.length = words.length →
        (ecatMasterMarkAllOperational cached).slaves.map CachedAl.state = words.map alState) := by
  have healthy : ecatAlPollHealthy (broadcastRead words) words.length words.length = true ↔
      ∀ word ∈ words, SlaveOperational word := by
    have some : 0 < words.length := List.length_pos_iff.mpr nonempty
    rw [← alState_broadcastRead_iff nonempty states]
    simp [ecatAlPollHealthy, some, alState]
  refine ⟨healthy, ?_, ?_⟩
  · intro alStatus wkc slaveCount missing
    have few : ¬ wkc ≥ slaveCount := by omega
    simp [ecatAlPollHealthy, few]
  · intro allOperational cached sameLength
    have each := healthy.mp allOperational
    simp only [ecatMasterMarkAllOperational, List.map_map]
    apply List.ext_getElem
    · simp [sameLength]
    · intro i _ inside
      have listed : i < words.length := by simpa using inside
      have member : words[i] ∈ words := List.getElem_mem listed
      simp [(slaveOperational_iff _).mp (each _ member)]

/-- Two slaves in OP, one of which has a bit above the error flag set. -/
theorem al_poll_equals_slave_checks_two :
    ecatAlPollHealthy (broadcastRead [0x08, 0x0108]) 2 2 = true ↔
      ∀ word ∈ [(0x08 : UInt16), 0x0108], SlaveOperational word := by
  have states : ∀ word ∈ [(0x08 : UInt16), 0x0108], word &&& 0x0F ≠ 0 := by
    simp only [List.mem_cons, List.not_mem_nil, or_false, forall_eq_or_imp, forall_eq]
    exact ⟨by decide, by decide⟩
  exact (al_poll_equals_slave_checks [0x08, 0x0108] (by simp) states).1

end EtherDog
