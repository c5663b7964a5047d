import EtherDog.Start.Phases
import EtherDog.Bus.BringUp

/-!
# When a start passes its phases

`PhasesPass` says of the answers what every phase asks for.  It is when the
trail comes through, and when `startSingleMaster` reaches its threads.
-/

set_option autoImplicit false

namespace EtherDog

open Trail

/-! ## The answers -/

section Answers

variable {host : FloatLayout} {config : EcatConfig} {oracle : Oracle}

structure PhasesPass (host : FloatLayout) (config : EcatConfig) (oracle : Oracle) : Prop where
  opened : oracle.init = true
  slaves : 0 < oracle.configInit
  iomap : oracle.iomapAllocated = true
  snapshot : oracle.snapshotAllocated = true
  topology : ecatMasterValidateTopology config oracle = true
  preOp : allPreOp oracle = true
  sdos : ∀ slave ∈ config.slaveList, (slaveSdos host oracle slave).ok = true
  fixedPdos : (ecatMasterVerifyFixedPdos config oracle).ok = true
  grown : sizeIomapFromSlaves oracle ≤ computeIomapBytes config ∨ oracle.iomapGrown = true
  mapped : 0 < oracle.ioSize
  fits : oracle.ioSize ≤ iomapCapacity config oracle
  watchdogs : ∀ slave ∈ config.slaveList, (ecatMasterConfigureWatchdog oracle slave).ok = true
  layout : layoutBuilt config oracle = true
  buffers : buffersReady oracle = true
  safeOp : oracle.safeOpState = ecStateSafeOp
  operational : ∃ retry < opRetries config, oracle.opState retry = ecStateOperational

theorem pollOp_ok_iff (oracle : Oracle) (timeoutUs : Int) (remaining retry : Nat) :
    (pollOp oracle timeoutUs remaining retry).ok = true ↔
      ∃ k < remaining, oracle.opState (retry + k) = ecStateOperational := by
  induction remaining generalizing retry with
  | zero => simp [pollOp]
  | succ remaining ih =>
      unfold pollOp
      by_cases reached : oracle.opState retry = ecStateOperational
      · rw [if_pos reached]
        exact ⟨fun _ => ⟨0, Nat.succ_pos remaining, reached⟩, fun _ => rfl⟩
      · rw [if_neg reached, andThen_ok, Bool.true_and, ih]
        constructor
        · rintro ⟨k, below, found⟩
          refine ⟨k + 1, Nat.succ_lt_succ below, ?_⟩
          rwa [Nat.add_right_comm] at found
        · rintro ⟨k, below, found⟩
          cases k with
          | zero => exact absurd found reached
          | succ k =>
              refine ⟨k, Nat.lt_of_succ_lt_succ below, ?_⟩
              rwa [Nat.add_right_comm]

theorem transition_ok_iff (config : EcatConfig) (oracle : Oracle) :
    (transitionToOpTrail config oracle).ok = true ↔
      oracle.safeOpState = ecStateSafeOp ∧
        ∃ retry < opRetries config, oracle.opState retry = ecStateOperational := by
  simp [transitionToOpTrail, inOrder_ok_iff, pollOp_ok_iff]

theorem growIomapTrail_ok_iff (config : EcatConfig) (oracle : Oracle) :
    (growIomapTrail config oracle).ok = true ↔
      sizeIomapFromSlaves oracle ≤ computeIomapBytes config ∨ oracle.iomapGrown = true := by
  unfold growIomapTrail
  split
  · simp [*]
  · simp [*]

theorem startTrail_ok_iff :
    (startTrail host config oracle).ok = true ↔ PhasesPass host config oracle := by
  rw [startTrail, each_ok_iff]
  simp only [StartPhase.all, List.forall_mem_cons, List.not_mem_nil, false_imp_iff, implies_true,
    phaseTrail, openAndScanTrail, configureTrail, sdosTrail, watchdogsTrail, inOrder_ok_iff,
    step_ok, check_ok, each_ok_iff, growIomapTrail_ok_iff, decide_eq_true_eq, transition_ok_iff,
    true_and, and_true]
  constructor
  · rintro ⟨⟨opened, slaves, iomap, snapshot, topology, preOp⟩, sdos, fixedPdos,
      ⟨grown, ⟨mapped, fits⟩, watchdogs⟩, layout, buffers, ⟨safeOp, operational⟩⟩
    exact ⟨opened, slaves, iomap, snapshot, topology, preOp, sdos, fixedPdos, grown, mapped, fits,
      watchdogs, layout, buffers, safeOp, operational⟩
  · intro passes
    exact ⟨⟨passes.opened, passes.slaves, passes.iomap, passes.snapshot, passes.topology,
      passes.preOp⟩, passes.sdos, passes.fixedPdos, ⟨passes.grown, ⟨passes.mapped, passes.fits⟩,
      passes.watchdogs⟩, passes.layout, passes.buffers, ⟨passes.safeOp, passes.operational⟩⟩

/-! ## The two starts agree -/

theorem sdosAccepted_iff (slaves : List EcatSlave) :
    sdosAccepted
        (slaves.map fun slave => ⟨slave.position, slave.sdoConfigs.length, slave.strictSdo⟩)
        ((slaves.filter fun slave => slave.sdoConfigs ≠ []).map fun slave =>
          (ecatMasterWriteSdos host oracle slave).ok) = true ↔
      ∀ slave ∈ slaves, (slaveSdos host oracle slave).ok = true := by
  induction slaves with
  | nil => simp [sdosAccepted]
  | cons slave rest ih =>
      rw [List.map_cons, List.forall_mem_cons, ← ih, sdosAccepted, slaveSdos]
      by_cases empty : slave.sdoConfigs = []
      · simp [empty]
      · cases written : (ecatMasterWriteSdos host oracle slave).ok with
        | false =>
            cases strict : slave.strictSdo with
            | false => simp [empty, written]
            | true => simp [empty, written]
        | true => simp [empty, written]

theorem scanOutcome_found_iff (slavecount iomapBytes : Nat) :
    scanOutcome config oracle = .found slavecount iomapBytes ↔
      (oracle.init = true ∧ 0 < oracle.configInit ∧ oracle.iomapAllocated = true ∧
        oracle.snapshotAllocated = true ∧ ecatMasterValidateTopology config oracle = true ∧
        allPreOp oracle = true) ∧
      slavecount = oracle.found.length ∧ iomapBytes = computeIomapBytes config := by
  unfold scanOutcome
  dsimp only
  split_ifs with init none iomap snapshot both
  · simp [init]
  · simp [none]
  · simp [iomap]
  · simp [snapshot]
  · simp only [Bool.and_eq_true] at both
    simp only [Bool.not_eq_false, Int.not_le] at init none iomap snapshot
    simp [init, none, iomap, snapshot, both, eq_comm]
  · simp only [Bool.and_eq_true] at both
    simp only [false_iff]
    rintro ⟨⟨_, _, _, _, topology, preOp⟩, _⟩
    exact both ⟨topology, preOp⟩

/-- The start reaches its threads if and only if the answers pass every phase. -/
theorem bringUp_startOutcome_iff {inst : Instance} (same : inst.config = config.summary) :
    (bringUp inst (startOutcome host config oracle)).2 = true ↔ PhasesPass host config oracle := by
  have capacity : max (computeIomapBytes config) (sizeIomapFromSlaves oracle) =
      iomapCapacity config oracle := rfl
  rw [bringUp_true_iff, same]
  constructor
  · intro passes
    obtain ⟨slavecount, iomapBytes, found, mapping⟩ := passes.scan
    obtain ⟨⟨opened, slaves, iomap, snapshot, topology, preOp⟩, _, rfl⟩ :=
      (scanOutcome_found_iff slavecount iomapBytes).mp found
    obtain ⟨safeOp, operational⟩ := (transition_ok_iff config oracle).mp passes.operational
    have mapped : 0 < oracle.ioSize.toNat := mapping.mapped
    have fits : oracle.ioSize.toNat ≤ iomapCapacity config oracle := mapping.fits
    exact
      { opened := opened
        slaves := slaves
        iomap := iomap
        snapshot := snapshot
        topology := topology
        preOp := preOp
        sdos := (sdosAccepted_iff config.slaveList).mp passes.sdos
        fixedPdos := passes.fixedPdos
        grown := mapping.grown
        mapped := by omega
        fits := by omega
        watchdogs := (each_ok_iff _ _).mp mapping.watchdogs
        layout := passes.layout
        buffers := by simpa [buffersReady] using ⟨⟨passes.outputs, passes.inputs⟩, passes.buffers⟩
        safeOp := safeOp
        operational := operational }
  · intro passes
    have scanned : scanOutcome config oracle =
        .found oracle.found.length (computeIomapBytes config) :=
      (scanOutcome_found_iff _ _).mpr ⟨⟨passes.opened, passes.slaves, passes.iomap,
        passes.snapshot, passes.topology, passes.preOp⟩, rfl, rfl⟩
    have buffers := passes.buffers
    simp only [buffersReady, Bool.and_eq_true, decide_eq_true_eq] at buffers
    have mapped := passes.mapped
    have fits := passes.fits
    have mapping : MapPasses (computeIomapBytes config)
        (startOutcome host config oracle).mapping := by
      refine ⟨passes.grown, ?_, ?_, (each_ok_iff _ _).mpr passes.watchdogs⟩
      · change 0 < oracle.ioSize.toNat
        omega
      · change oracle.ioSize.toNat ≤ iomapCapacity config oracle
        omega
    exact
      { scan := ⟨_, _, scanned, mapping⟩
        sdos := (sdosAccepted_iff config.slaveList).mpr passes.sdos
        fixedPdos := passes.fixedPdos
        outputs := buffers.1.1
        inputs := buffers.1.2
        layout := passes.layout
        buffers := buffers.2
        operational := (transition_ok_iff config oracle).mpr
          ⟨passes.safeOp, passes.operational⟩ }

end Answers

end EtherDog
