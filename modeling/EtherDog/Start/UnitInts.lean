import EtherDog.Start.CheckedStart
import EtherDog.Config.Exact
import EtherDog.Start.Configured

/-!
# When the products of a start fit (src/master.c, src/config.c)

The parser takes every positive `int` for a time, and the start multiplies times
by 1000.  `ConversionsFit` bounds the times that a run multiplies; the checked run
is the exact one just where they keep to it.
-/

set_option autoImplicit false

namespace EtherDog

open CheckedRun MachineInt Trail

/-! ## The loops and conversions -/

theorem thousandfold_agrees (v : Int) : Agrees (thousandfold v) (v * 1000) :=
  fun _ found => (checked_eq_some_iff.mp found).2.symm

theorem thousandfold_isSome_iff (v : Int) :
    (thousandfold v).isSome = true ↔ -unitMax ≤ v ∧ v ≤ unitMax := by
  rw [← (thousandfold_agrees v).eq_some_iff, thousandfold, checked_eq_some_iff, Fits, unitMax]
  simp only [and_true]
  omega

theorem thousandfold_positive {v : Int} (positive : 0 < v) :
    (thousandfold v).isSome = true ↔ v ≤ unitMax := by
  rw [thousandfold_isSome_iff, unitMax]
  omega

theorem checkedLongestTimeoutUs_agrees (timeoutsMs : List Int) :
    Agrees (checkedLongestTimeoutUs timeoutsMs) (longestTimeoutUs timeoutsMs) := by
  apply (foldlM_agrees ?_ 0).map fun longest => if longest = 0 then ecTimeoutState * 4 else longest
  intro longest ms _
  exact (thousandfold_agrees ms).map (max longest)

theorem checkedLongestTimeoutUs_isSome_iff {timeoutsMs : List Int}
    (positive : ∀ ms ∈ timeoutsMs, 0 < ms) :
    (checkedLongestTimeoutUs timeoutsMs).isSome = true ↔ ∀ ms ∈ timeoutsMs, ms ≤ unitMax := by
  rw [checkedLongestTimeoutUs, Option.isSome_map]
  apply foldlM_isSome_iff
  intro longest ms member
  rw [Option.isSome_map, thousandfold_positive (positive ms member)]

theorem checkedPreopTimeoutUs_agrees (config : EcatConfig) (position : Int) :
    Agrees (checkedPreopTimeoutUs config position) (preopTimeoutUs config position) := by
  apply foldlM_agrees
  intro us slave _
  split
  · exact thousandfold_agrees _
  · exact agrees_some us

theorem checkedMinSmWatchdogUs_agrees (slaves : List EcatSlave) :
    Agrees (checkedMinSmWatchdogUs slaves) (minSmWatchdogUs slaves) := by
  induction slaves with
  | nil => exact agrees_some 0
  | cons slave rest ih =>
      rw [checkedMinSmWatchdogUs, minSmWatchdogUs]
      apply ih.bind
      split
      · exact (thousandfold_agrees _).map fun us =>
          if minSmWatchdogUs rest = 0 then us else min us (minSmWatchdogUs rest)
      · exact agrees_some _

/-- The slave's SM watchdog is one that the poll looks at. -/
def WatchdogCounts (slave : EcatSlave) : Prop :=
  slave.watchdog.smWatchdogEnabled = true ∧ slave.watchdog.smWatchdogMs > 0

theorem checkedMinSmWatchdogUs_isSome_iff (slaves : List EcatSlave) :
    (checkedMinSmWatchdogUs slaves).isSome = true ↔
      ∀ slave ∈ slaves, WatchdogCounts slave → slave.watchdog.smWatchdogMs ≤ unitMax := by
  induction slaves with
  | nil => simp [checkedMinSmWatchdogUs]
  | cons slave rest ih =>
      rw [checkedMinSmWatchdogUs, (checkedMinSmWatchdogUs_agrees rest).bind_isSome_iff, ih,
        List.forall_mem_cons, and_comm]
      apply and_congr_left
      intro _
      split
      · rename_i counts
        rw [Option.isSome_map, thousandfold_positive counts.2]
        exact ⟨fun small _ => small, fun bound => bound counts⟩
      · rename_i ignored
        exact iff_of_true rfl fun counts => absurd counts ignored

theorem checkedSdoTimeoutUs_agrees (slave : EcatSlave) :
    Agrees (checkedSdoTimeoutUs slave) (sdoTimeoutUs slave) := by
  unfold checkedSdoTimeoutUs sdoTimeoutUs
  split
  · exact thousandfold_agrees _
  · exact agrees_some _

theorem checkedSdoTimeoutUs_isSome_iff (slave : EcatSlave) :
    (checkedSdoTimeoutUs slave).isSome = true ↔ slave.timeouts.sdoTimeoutMs ≤ unitMax := by
  unfold checkedSdoTimeoutUs
  split
  · rename_i positive
    exact thousandfold_positive positive
  · rename_i negative
    unfold unitMax
    exact iff_of_true rfl (by omega)

theorem checkedCycleNs_agrees {us : Int} {fallback : Option UInt32} {ns : UInt32}
    (agrees : Agrees fallback ns) : Agrees (checkedCycleNs us fallback) (cycleNs us ns) := by
  unfold checkedCycleNs cycleNs
  split
  · exact (thousandfold_agrees us).map UInt32.ofInt
  · exact agrees

theorem checkedCycleNs_isSome_iff (us : Int) (fallback : Option UInt32) :
    (checkedCycleNs us fallback).isSome = true ↔
      us ≤ unitMax ∧ (us ≤ 0 → fallback.isSome = true) := by
  unfold checkedCycleNs
  split
  · rename_i positive
    rw [Option.isSome_map, thousandfold_positive positive]
    simp [not_le.mpr positive]
  · rename_i negative
    unfold unitMax
    constructor
    · exact fun given => ⟨by omega, fun _ => given⟩
    · exact fun given => given.2 (by omega)

/-! ## The functions of the start -/

section Functions
variable (host : FloatLayout) (config : EcatConfig) (oracle : Oracle)

theorem checkedWriteSdosFrom_agrees (slave : EcatSlave) (k : Nat) (sdos : List EcatSdoConfig) :
    Agrees (checkedWriteSdosFrom host oracle slave k sdos)
      (writeSdosFrom host oracle slave k sdos) := by
  induction sdos generalizing k with
  | nil => exact agrees_some _
  | cons sdo rest ih =>
      rw [checkedWriteSdosFrom, writeSdosFrom]
      apply (ih (k + 1)).bind
      cases sdoPayload host sdo with
      | none => exact agrees_some _
      | some bytes =>
          exact (checkedSdoTimeoutUs_agrees slave).map fun timeoutUs =>
            (StartCall.sdoWrite slave.position (sdoIndex sdo) sdo.subindex sdo.completeAccess bytes
                timeoutUs (oracle.sdoWrite slave.position k) ::
                (writeSdosFrom host oracle slave (k + 1) rest).1,
              if oracle.sdoWrite slave.position k ≤ 0 then
                (writeSdosFrom host oracle slave (k + 1) rest).2
              else (writeSdosFrom host oracle slave (k + 1) rest).2 + 1)

theorem checkedWriteSdosFrom_isSome_iff (slave : EcatSlave) (k : Nat)
    (sdos : List EcatSdoConfig) :
    (checkedWriteSdosFrom host oracle slave k sdos).isSome = true ↔
      ∀ sdo ∈ sdos, sdoPayload host sdo ≠ none → slave.timeouts.sdoTimeoutMs ≤ unitMax := by
  induction sdos generalizing k with
  | nil => simp [checkedWriteSdosFrom]
  | cons sdo rest ih =>
      rw [checkedWriteSdosFrom,
        (checkedWriteSdosFrom_agrees host oracle slave (k + 1) rest).bind_isSome_iff, ih,
        List.forall_mem_cons, and_comm]
      apply and_congr_left
      intro _
      cases sdoPayload host sdo with
      | none => simp
      | some bytes => simp [checkedSdoTimeoutUs_isSome_iff]

theorem checkedSlaveSdos_agrees (slave : EcatSlave) :
    Agrees (checkedSlaveSdos host oracle slave) (slaveSdos host oracle slave) := by
  unfold checkedSlaveSdos slaveSdos
  split
  · exact agrees_some done
  · have written : Agrees (checkedWriteSdos host oracle slave)
        (ecatMasterWriteSdos host oracle slave) := by
      unfold checkedWriteSdos ecatMasterWriteSdos
      cases oracle.slave? slave.position with
      | none => exact agrees_some _
      | some found =>
          dsimp only
          split
          · exact agrees_some _
          · exact (checkedWriteSdosFrom_agrees host oracle slave 0 slave.sdoConfigs).map
              fun wrote => (⟨wrote.1, slave.sdoConfigs.length ≤ wrote.2⟩ : Trail StartCall)
    exact written.map fun wrote =>
      (⟨wrote.events, wrote.ok || !slave.strictSdo⟩ : Trail StartCall)

def WritesSdo (slave : EcatSlave) : Prop :=
  (∃ found, oracle.slave? slave.position = some found ∧ found.hasCoe = true) ∧
    ∃ sdo ∈ slave.sdoConfigs, sdoPayload host sdo ≠ none

theorem checkedSlaveSdos_isSome_iff (slave : EcatSlave) :
    (checkedSlaveSdos host oracle slave).isSome = true ↔
      (WritesSdo host oracle slave → slave.timeouts.sdoTimeoutMs ≤ unitMax) := by
  unfold checkedSlaveSdos WritesSdo
  split
  · rename_i empty
    simp [empty]
  · rw [Option.isSome_map, checkedWriteSdos]
    cases oracle.slave? slave.position with
    | none => simp
    | some found =>
        dsimp only
        split
        · rename_i plain
          simp [plain]
        · rename_i coe
          rw [Option.isSome_map, checkedWriteSdosFrom_isSome_iff]
          constructor
          · rintro bound ⟨_, sdo, member, payload⟩
            exact bound sdo member payload
          · intro bound sdo member payload
            exact bound ⟨⟨found, rfl, by simpa using coe⟩, sdo, member, payload⟩

/-- One turn of `ecat_master_verify_fixed_pdos`. -/
def fixedSlaveTrail (slave : EcatSlave) : Trail StartCall :=
  if checkedSlave oracle slave = false then done
  else
    (verifyFixedDirection oracle slave slave.rxPdos).andThen
      (verifyFixedDirection oracle slave slave.txPdos)

theorem checkedFixedSlave_agrees (slave : EcatSlave) :
    Agrees (checkedFixedSlave oracle slave) (fixedSlaveTrail oracle slave) := by
  have direction : ∀ pdos, Agrees (checkedFixedDirection oracle slave pdos)
      (verifyFixedDirection oracle slave pdos) := by
    intro pdos
    exact (checkedSdoTimeoutUs_agrees slave).map fun timeoutUs =>
      each (fun pdo =>
        if pdo.fixed = false then done
        else
          verifyMapping (mappingObject strtoulIndex oracle slave pdo)
            (fun subindex answer => .sdoRead slave.position
              (strtoulIndex pdo.index).toUInt16 subindex timeoutUs answer)
            (expectedMapping strtoulIndex pdo)) pdos
  unfold checkedFixedSlave fixedSlaveTrail
  split
  · exact agrees_some done
  · exact (direction slave.rxPdos).andThen (direction slave.txPdos)

theorem checkedFixedSlave_isSome_iff (slave : EcatSlave) :
    (checkedFixedSlave oracle slave).isSome = true ↔
      (checkedSlave oracle slave = true → slave.timeouts.sdoTimeoutMs ≤ unitMax) := by
  have direction : ∀ pdos, (checkedFixedDirection oracle slave pdos).isSome = true ↔
      slave.timeouts.sdoTimeoutMs ≤ unitMax := by
    intro pdos
    rw [checkedFixedDirection, Option.isSome_map, checkedSdoTimeoutUs_isSome_iff]
  unfold checkedFixedSlave
  split
  · rename_i other
    simp [other]
  · rename_i same
    have first : Agrees (checkedFixedDirection oracle slave slave.rxPdos)
        (verifyFixedDirection oracle slave slave.rxPdos) :=
      (checkedSdoTimeoutUs_agrees slave).map _
    rw [first.andThen_isSome_iff, direction, direction]
    simp only [Bool.not_eq_false] at same
    simp only [same, true_imp_iff]
    exact ⟨fun both => both.1, fun bound => ⟨bound, fun _ => bound⟩⟩

/-- The slave is one that `ecat_master_configure_dc` sets up. -/
def DcConfigured (slave : EcatSlave) : Prop :=
  slave.dc.enabled = true ∧ (oracle.slave? slave.position).any (·.hasdc) = true

/-- The cycles and the shift that are converted for the slave are in bounds. -/
structure DcFits (slave : EcatSlave) : Prop where
  syncUnit : slave.dc.syncUnitCycleUs ≤ unitMax
  master : slave.dc.syncUnitCycleUs ≤ 0 → config.master.cycleTimeUs ≤ unitMax
  sync0 : slave.dc.sync0Enabled = true → slave.dc.sync0CycleUs ≤ unitMax
  shift : slave.dc.sync0Enabled = true →
    -unitMax ≤ slave.dc.sync0ShiftUs ∧ slave.dc.sync0ShiftUs ≤ unitMax
  sync1 : slave.dc.sync0Enabled = true → slave.dc.sync1Enabled = true →
    slave.dc.sync1CycleUs ≤ unitMax

theorem checkedUnitCycle_agrees (slave : EcatSlave) :
    Agrees (checkedCycleNs slave.dc.syncUnitCycleUs
        ((thousandfold config.master.cycleTimeUs).map UInt32.ofInt))
      (cycleNs slave.dc.syncUnitCycleUs (UInt32.ofInt (config.master.cycleTimeUs * 1000))) :=
  checkedCycleNs_agrees ((thousandfold_agrees _).map UInt32.ofInt)

theorem checkedDcCalls_agrees (slave : EcatSlave) :
    Agrees (checkedDcCalls config oracle slave) (dcCalls config oracle slave) := by
  unfold checkedDcCalls dcCalls
  split
  · apply (checkedUnitCycle_agrees config slave).bind
    dsimp only
    split
    · split
      · apply (checkedCycleNs_agrees (agrees_some _)).bind
        apply (checkedCycleNs_agrees (agrees_some _)).bind
        apply (thousandfold_agrees _).bind
        exact agrees_some _
      · apply (checkedCycleNs_agrees (agrees_some _)).bind
        apply (thousandfold_agrees _).bind
        exact agrees_some _
    · exact agrees_some _
  · exact agrees_some _

theorem checkedDcCalls_isSome_iff (positive : 0 < config.master.cycleTimeUs)
    (slave : EcatSlave) :
    (checkedDcCalls config oracle slave).isSome = true ↔
      (DcConfigured oracle slave → DcFits config slave) := by
  have cycles : ∀ us ns, (checkedCycleNs us (some ns)).isSome = true ↔ us ≤ unitMax := by
    intro us ns
    simp [checkedCycleNs_isSome_iff]
  unfold checkedDcCalls
  split
  · rename_i configured
    have unit := checkedUnitCycle_agrees config slave
    have unitFits : (checkedCycleNs slave.dc.syncUnitCycleUs
        ((thousandfold config.master.cycleTimeUs).map UInt32.ofInt)).isSome = true ↔
          slave.dc.syncUnitCycleUs ≤ unitMax ∧
            (slave.dc.syncUnitCycleUs ≤ 0 → config.master.cycleTimeUs ≤ unitMax) := by
      rw [checkedCycleNs_isSome_iff, Option.isSome_map, thousandfold_positive positive]
    simp only [Option.bind_eq_bind]
    rw [unit.bind_isSome_iff, unitFits]
    split
    · rename_i sync0
      split
      · rename_i sync1
        rw [(checkedCycleNs_agrees (agrees_some _)).bind_isSome_iff,
          (checkedCycleNs_agrees (agrees_some _)).bind_isSome_iff,
          (thousandfold_agrees _).bind_isSome_iff, cycles, cycles, thousandfold_isSome_iff]
        constructor
        · rintro ⟨⟨bound, master⟩, first, second, shift, _⟩ _
          exact ⟨bound, master, fun _ => first, fun _ => shift, fun _ _ => second⟩
        · intro fits
          have fit := fits configured
          exact ⟨⟨fit.syncUnit, fit.master⟩, fit.sync0 sync0, fit.sync1 sync0 sync1,
            fit.shift sync0, rfl⟩
      · rename_i alone
        rw [(checkedCycleNs_agrees (agrees_some _)).bind_isSome_iff,
          (thousandfold_agrees _).bind_isSome_iff, cycles, thousandfold_isSome_iff]
        constructor
        · rintro ⟨⟨bound, master⟩, first, shift, _⟩ _
          exact ⟨bound, master, fun _ => first, fun _ => shift,
            fun _ sync1 => absurd sync1 alone⟩
        · intro fits
          have fit := fits configured
          exact ⟨⟨fit.syncUnit, fit.master⟩, fit.sync0 sync0, fit.shift sync0, rfl⟩
    · rename_i off
      constructor
      · rintro ⟨⟨bound, master⟩, _⟩ _
        exact ⟨bound, master, fun sync0 => absurd sync0 off, fun sync0 => absurd sync0 off,
          fun sync0 => absurd sync0 off⟩
      · intro fits
        have fit := fits configured
        exact ⟨⟨fit.syncUnit, fit.master⟩, rfl⟩
  · rename_i other
    exact iff_of_true rfl fun configured => absurd configured other

/-! ## The phases -/

theorem openAndScanTrail_eq :
    openAndScanTrail config oracle = (openTrail config oracle).andThen
      (inOrder [step (.preOpCheck (longestTimeoutUs
          (config.slaveList.map fun slave => slave.timeouts.initToPreopTimeoutMs))) true,
        step (.preOpRead (preOpStates oracle)) (allPreOp oracle)]) := by
  unfold openAndScanTrail openTrail
  rw [← inOrder_append]
  rfl

theorem configureTrail_eq :
    configureTrail config oracle = (mapTrail config oracle).andThen
      (Trail.andThen ⟨[.configDc], true⟩
        (each (fun slave => ⟨dcCalls config oracle slave, true⟩) config.slaveList)) := by
  have parts : configureTrail config oracle = inOrder
      ([growIomapTrail config oracle,
        step (.configMapGroup oracle.ioSize)
          (0 < oracle.ioSize ∧ oracle.ioSize ≤ iomapCapacity config oracle),
        watchdogsTrail config oracle] ++
      [⟨.configDc :: config.slaveList.flatMap (dcCalls config oracle), true⟩]) := rfl
  rw [parts, inOrder_append, inOrder_singleton, each_passing]
  rfl

theorem transitionToOpTrail_eq :
    transitionToOpTrail config oracle =
      (requestTrail oracle (safeOpTimeoutUs config)).andThen
        (pollOp oracle (pollTimeoutUs config) (opRetries config) 0) := by
  have parts : transitionToOpTrail config oracle = inOrder
      ([step (.safeOpCheck (safeOpTimeoutUs config)) true,
        step (.safeOpRead oracle.safeOpState) (oracle.safeOpState == ecStateSafeOp),
        ⟨[.exchange, .requestOp], true⟩] ++
      [pollOp oracle (pollTimeoutUs config) (opRetries config) 0]) := rfl
  rw [parts, inOrder_append, inOrder_singleton]
  rfl

theorem checkedPollTimeoutUs_agrees :
    Agrees (checkedPollTimeoutUs config) (pollTimeoutUs config) :=
  (checkedMinSmWatchdogUs_agrees config.slaveList).map pollForLeastUs

theorem checkedPhase_agrees (phase : StartPhase) :
    Agrees (checkedPhase host config oracle phase) (phaseTrail host config oracle phase) := by
  cases phase with
  | scan =>
      rw [checkedPhase, phaseTrail, openAndScanTrail_eq]
      apply (agrees_some _).andThen
      exact (checkedLongestTimeoutUs_agrees _).map fun us =>
        inOrder [step (StartCall.preOpCheck us) true,
          step (StartCall.preOpRead (preOpStates oracle)) (allPreOp oracle)]
  | sdos => exact Agrees.each fun slave _ => checkedSlaveSdos_agrees host oracle slave
  | fixedCheck => exact Agrees.each fun slave _ => checkedFixedSlave_agrees oracle slave
  | map =>
      rw [checkedPhase, phaseTrail, configureTrail_eq]
      apply (agrees_some _).andThen
      apply (agrees_some _).andThen
      exact Agrees.each fun slave _ => (checkedDcCalls_agrees config oracle slave).map _
  | layout => exact agrees_some _
  | buffers => exact agrees_some _
  | transition =>
      rw [checkedPhase, phaseTrail, transitionToOpTrail_eq]
      apply (checkedLongestTimeoutUs_agrees _).bind
      apply (agrees_some _).andThen
      exact (checkedPollTimeoutUs_agrees config).map fun pollUs =>
        pollOp oracle pollUs
          (max (safeOpTimeoutUs config / pollUs) ecatOpPollRetries).toNat 0

/-- What bounds the times that a phase converts once it is reached. -/
def PhaseFits : StartPhase → Prop
  | .scan => (openTrail config oracle).ok = true →
      ∀ slave ∈ config.slaveList, slave.timeouts.initToPreopTimeoutMs ≤ unitMax
  | .sdos =>
      Reached (fun slave => WritesSdo host oracle slave → slave.timeouts.sdoTimeoutMs ≤ unitMax)
        (slaveSdos host oracle) config.slaveList
  | .fixedCheck =>
      Reached (fun slave => checkedSlave oracle slave = true →
          slave.timeouts.sdoTimeoutMs ≤ unitMax)
        (fixedSlaveTrail oracle) config.slaveList
  | .map => (mapTrail config oracle).ok = true →
      ∀ slave ∈ config.slaveList, DcConfigured oracle slave → DcFits config slave
  | .layout => True
  | .buffers => True
  | .transition =>
      (∀ slave ∈ config.slaveList, slave.timeouts.safeopToOpTimeoutMs ≤ unitMax) ∧
        (oracle.safeOpState = ecStateSafeOp →
          ∀ slave ∈ config.slaveList, WatchdogCounts slave →
            slave.watchdog.smWatchdogMs ≤ unitMax)

def ConversionsFit : Prop :=
  Reached (PhaseFits host config oracle) (phaseTrail host config oracle) StartPhase.all

/-- The times that the parser lets through. -/
structure PositiveTimes : Prop where
  cycle : 0 < config.master.cycleTimeUs
  initToPreop : ∀ slave ∈ config.slaveList, 0 < slave.timeouts.initToPreopTimeoutMs
  safeopToOp : ∀ slave ∈ config.slaveList, 0 < slave.timeouts.safeopToOpTimeoutMs

theorem checkedPhase_isSome_iff (times : PositiveTimes config) (phase : StartPhase) :
    (checkedPhase host config oracle phase).isSome = true ↔
      PhaseFits host config oracle phase := by
  cases phase with
  | scan =>
      rw [checkedPhase, checkedOpenAndScan, (agrees_some _).andThen_isSome_iff,
        Option.isSome_map, checkedLongestTimeoutUs_isSome_iff
          (by simpa using times.initToPreop)]
      simp [PhaseFits]
  | sdos =>
      rw [checkedPhase, each_isSome_iff fun slave _ => checkedSlaveSdos_agrees host oracle slave]
      exact reached_congr fun slave _ => checkedSlaveSdos_isSome_iff host oracle slave
  | fixedCheck =>
      rw [checkedPhase, each_isSome_iff fun slave _ => checkedFixedSlave_agrees oracle slave]
      exact reached_congr fun slave _ => checkedFixedSlave_isSome_iff oracle slave
  | map =>
      have turns : ∀ slave ∈ config.slaveList,
          Agrees ((checkedDcCalls config oracle slave).map fun calls =>
            (⟨calls, true⟩ : Trail StartCall)) ⟨dcCalls config oracle slave, true⟩ :=
        fun slave _ => (checkedDcCalls_agrees config oracle slave).map _
      rw [checkedPhase, checkedConfigure, (agrees_some _).andThen_isSome_iff,
        (agrees_some _).andThen_isSome_iff, each_isSome_iff turns, reached_iff_forall fun _ _ => rfl]
      simp [PhaseFits, checkedDcCalls_isSome_iff config oracle times.cycle]
  | layout => exact iff_of_true rfl trivial
  | buffers => exact iff_of_true rfl trivial
  | transition =>
      have request : (requestTrail oracle (safeOpTimeoutUs config)).ok = true ↔
          oracle.safeOpState = ecStateSafeOp := by
        simp [requestTrail, inOrder_ok_iff]
      rw [checkedPhase, checkedTransitionToOp,
        (checkedLongestTimeoutUs_agrees _).bind_isSome_iff, (agrees_some _).andThen_isSome_iff,
        Option.isSome_map, checkedPollTimeoutUs, Option.isSome_map,
        checkedMinSmWatchdogUs_isSome_iff, checkedLongestTimeoutUs_isSome_iff
          (by simpa using times.safeopToOp)]
      rw [← safeOpTimeoutUs, request]
      simp [PhaseFits]

end Functions

/-! ## Accepted configurations -/

theorem positiveOr_positive {value default : Int} (given : 0 < default) :
    0 < positiveOr value default := by
  unfold positiveOr
  split
  · assumption
  · exact given

theorem parseTimeouts_positive (cfg : Json) :
    0 < (parseTimeouts cfg).initToPreopTimeoutMs ∧
      0 < (parseTimeouts cfg).safeopToOpTimeoutMs := by
  unfold parseTimeouts
  split
  · decide
  · exact ⟨positiveOr_positive (by decide), positiveOr_positive (by decide)⟩

theorem accepted_positiveTimes {libc : LibC} {alloc : Alloc} {configObj : Json}
    {config : EcatConfig} (accepted : parseSections libc alloc configObj = (config, none)) :
    PositiveTimes config := by
  obtain ⟨_, slaves, _, valid⟩ := parseSections_accepted accepted
  have times : ∀ slave ∈ config.slaveList, 0 < slave.timeouts.initToPreopTimeoutMs ∧
      0 < slave.timeouts.safeopToOpTimeoutMs := by
    intro slave listed
    obtain ⟨json, _, alloc, parsed⟩ := exists_source slaves listed
    rw [(parseSlave_settings parsed).2]
    exact parseTimeouts_positive (json.sub "config")
  refine ⟨?_, fun slave listed => (times slave listed).1, fun slave listed => (times slave listed).2⟩
  unfold ecatConfigValidate at valid
  obtain ⟨_, _, valid⟩ := Checked.bind_eq_ok.mp valid
  obtain ⟨_, cycles, _⟩ := Checked.bind_eq_ok.mp valid
  simp only [Checked.require_eq_ok, decide_eq_true_eq] at cycles
  omega

/-- The start and "scan-modules" compute with exact products. -/
def ConversionsDefined (host : FloatLayout) (config : EcatConfig) (oracle : Oracle)
    (position : Int) : Prop :=
  checkedStart host config oracle = some (startTrail host config oracle) ∧
    checkedPreopTimeoutUs config position = some (preopTimeoutUs config position)

theorem conversionsDefined_iff {config : EcatConfig} (times : PositiveTimes config)
    (host : FloatLayout) (oracle : Oracle) (position : Int) :
    ConversionsDefined host config oracle position ↔
      ConversionsFit host config oracle ∧
        ∀ slave ∈ config.slaveList, slave.position = position →
          slave.timeouts.initToPreopTimeoutMs ≤ unitMax := by
  have start : Agrees (checkedStart host config oracle) (startTrail host config oracle) :=
    Agrees.each fun phase _ => checkedPhase_agrees host config oracle phase
  apply and_congr
  · rw [start.eq_some_iff, checkedStart,
      each_isSome_iff fun phase _ => checkedPhase_agrees host config oracle phase]
    exact reached_congr fun phase _ => checkedPhase_isSome_iff host config oracle times phase
  · rw [(checkedPreopTimeoutUs_agrees config position).eq_some_iff, checkedPreopTimeoutUs]
    apply foldlM_isSome_iff
    intro us slave listed
    split
    · rename_i here
      rw [thousandfold_positive (times.initToPreop slave listed)]
      simp [here]
    · rename_i elsewhere
      simp [elsewhere]

/-- All times of the configuration are in bounds, used or not. -/
structure TimesBounded (config : EcatConfig) : Prop where
  initToPreop : ∀ slave ∈ config.slaveList, slave.timeouts.initToPreopTimeoutMs ≤ unitMax
  safeopToOp : ∀ slave ∈ config.slaveList, slave.timeouts.safeopToOpTimeoutMs ≤ unitMax
  sdo : ∀ slave ∈ config.slaveList, slave.timeouts.sdoTimeoutMs ≤ unitMax
  watchdog : ∀ slave ∈ config.slaveList, slave.watchdog.smWatchdogMs ≤ unitMax
  dc : ∀ slave ∈ config.slaveList, slave.dc.enabled = true → DcFits config slave

/-- Such a configuration is converted without overflow in every run. -/
theorem TimesBounded.conversionsFit {config : EcatConfig} (bounded : TimesBounded config)
    (host : FloatLayout) (oracle : Oracle) : ConversionsFit host config oracle := by
  apply reached_of_forall
  intro phase _
  cases phase with
  | scan => exact fun _ => bounded.initToPreop
  | sdos => exact reached_of_forall fun slave listed _ => bounded.sdo slave listed
  | fixedCheck => exact reached_of_forall fun slave listed _ => bounded.sdo slave listed
  | map => exact fun _ slave listed configured => bounded.dc slave listed configured.1
  | layout => trivial
  | buffers => trivial
  | transition => exact ⟨bounded.safeopToOp, fun _ slave listed _ => bounded.watchdog slave listed⟩

/-- Of an accepted document, a start and a "scan-modules" run without overflow just
where the times that the run converts are at most 2147483 (and a shift at least
-2147483). -/
theorem unit_conversions_fit_iff (libc : LibC) (alloc : Alloc) (root : Json)
    (instances : List ParsedInstance) (maxMasters : Nat) (positive : 1 ≤ maxMasters)
    (size : instances.length = maxMasters)
    (accepted : (ecatConfigParseAll libc alloc (.document root) instances maxMasters).failure =
      none)
    (inst : ParsedInstance)
    (parsed : inst ∈ (ecatConfigParseAll libc alloc (.document root) instances
      maxMasters).instances.take
        (ecatConfigParseAll libc alloc (.document root) instances maxMasters).count)
    (host : FloatLayout) (oracle : Oracle) (position : Int) :
    ConversionsDefined host inst.config oracle position ↔
      ConversionsFit host inst.config oracle ∧
        ∀ slave ∈ inst.config.slaveList, slave.position = position →
          slave.timeouts.initToPreopTimeoutMs ≤ unitMax := by
  have sections := parseAll_sections libc alloc root size positive accepted
  obtain ⟨configObj, _, alloc, source⟩ := exists_source sections parsed
  exact conversionsDefined_iff (accepted_positiveTimes source) host oracle position

def timeoutRoot (initToPreopMs : Int) : Json :=
  .array [fakeEntryJson "eth0" [fakeSlaveJson [("config", jsonObject
    [("timeouts", jsonObject [("init_to_preop_timeout_ms", jsonInt initToPreopMs)])])]]]

def timeoutParse (initToPreopMs : Int) : ParseOutcome :=
  ecatConfigParseAll noLibC (fun _ => true) (.document (timeoutRoot initToPreopMs))
    (List.replicate 4 emptyInstance) 4

theorem unit_conversions_fit_iff_longest :
    ∃ inst ∈ (timeoutParse 2147483).instances.take (timeoutParse 2147483).count,
      ConversionsDefined zeroFloats inst.config (fixedOracle 1) 1 := by
  have facts : (timeoutParse 2147483).failure = none ∧
      (timeoutParse 2147483).count = 1 ∧ (timeoutParse 2147483).instances.length = 4 ∧
      ∀ inst ∈ (timeoutParse 2147483).instances.take (timeoutParse 2147483).count,
        ∀ slave ∈ inst.config.slaveList, slave.timeouts.initToPreopTimeoutMs ≤ unitMax ∧
          slave.timeouts.safeopToOpTimeoutMs ≤ unitMax ∧ slave.timeouts.sdoTimeoutMs ≤ unitMax ∧
          slave.watchdog.smWatchdogMs ≤ unitMax ∧ slave.dc.enabled = false := by
    decide +kernel
  obtain ⟨accepted, count, size, each⟩ := facts
  have parsedSome : (timeoutParse 2147483).instances.take (timeoutParse 2147483).count ≠ [] := by
    rw [← List.length_pos_iff, List.length_take, count, size]
    decide
  obtain ⟨inst, parsed⟩ := List.exists_mem_of_ne_nil _ parsedSome
  have times := each inst parsed
  have bounded : TimesBounded inst.config :=
    ⟨fun slave listed => (times slave listed).1, fun slave listed => (times slave listed).2.1,
      fun slave listed => (times slave listed).2.2.1,
      fun slave listed => (times slave listed).2.2.2.1,
      fun slave listed on => absurd (times slave listed).2.2.2.2 (by simp [on])⟩
  exact ⟨inst, parsed, (unit_conversions_fit_iff noLibC (fun _ => true) (timeoutRoot 2147483) _ 4
    (by decide) rfl accepted inst parsed zeroFloats (fixedOracle 1) 1).mpr
      ⟨bounded.conversionsFit zeroFloats (fixedOracle 1), fun slave listed _ =>
        bounded.initToPreop slave listed⟩⟩

/-- A timeout of 3000 seconds overflows in the scan. -/
theorem timeout_3000_s_overflows :
    ¬ ∀ (libc : LibC) (alloc : Alloc) (root : Json) (instances : List ParsedInstance)
        (maxMasters : Nat), 1 ≤ maxMasters → instances.length = maxMasters →
        (ecatConfigParseAll libc alloc (.document root) instances maxMasters).failure = none →
        ∀ inst ∈ (ecatConfigParseAll libc alloc (.document root) instances
          maxMasters).instances.take
            (ecatConfigParseAll libc alloc (.document root) instances maxMasters).count,
        ∀ host oracle position, ConversionsDefined host inst.config oracle position := by
  intro always
  have facts : (timeoutParse 3000000).failure = none ∧
      ∃ inst ∈ (timeoutParse 3000000).instances.take (timeoutParse 3000000).count,
        (checkedStart zeroFloats inst.config (fixedOracle 1)).isSome = false := by
    decide +kernel
  obtain ⟨accepted, inst, parsed, overflow⟩ := facts
  have defined := (always noLibC (fun _ => true) (timeoutRoot 3000000) _ 4 (by decide) rfl accepted
    inst parsed zeroFloats (fixedOracle 1) 1).1
  rw [defined] at overflow
  cases overflow

end EtherDog
