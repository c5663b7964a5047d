import EtherDog.Start.Passed
import EtherDog.Bus.Lifecycle
import EtherDog.Layout.Accepted

/-!
# A started master is fully configured

What a start that returns 0 has done, read off its calls.
-/

set_option autoImplicit false

namespace EtherDog

open CString Trail

/-! ## Every call belongs to its phase -/

section Calls

variable {host : FloatLayout} {config : EcatConfig} {oracle : Oracle}

def InPhase (phase : StartPhase) (call : StartCall) : Prop := call.phase = phase

theorem step_inPhase (call : StartCall) (ok : Bool) : (step call ok).All (InPhase call.phase) :=
  all_step (show InPhase call.phase call from rfl) ok

theorem pollOp_calls (oracle : Oracle) (timeoutUs : Int) (remaining retry : Nat) :
    (pollOp oracle timeoutUs remaining retry).All (InPhase .transition) := by
  induction remaining generalizing retry with
  | zero => exact all_check false
  | succ remaining ih =>
      have turn : Trail.All (InPhase .transition)
          ⟨[.exchange, .opCheck timeoutUs (oracle.opState retry)], true⟩ := by
        simp [Trail.All, InPhase, StartCall.phase]
      unfold pollOp
      split
      · exact turn
      · exact all_andThen turn (ih (retry + 1))

theorem configureWatchdog_calls (oracle : Oracle) (slave : EcatSlave) :
    (ecatMasterConfigureWatchdog oracle slave).All (InPhase .map) := by
  unfold ecatMasterConfigureWatchdog
  split
  · exact all_done
  · apply all_andThen
    · split
      · exact step_inPhase _ _
      · exact all_done
    · split
      · exact step_inPhase _ true
      · exact all_done

theorem dcCalls_calls (config : EcatConfig) (oracle : Oracle) (slave : EcatSlave) :
    ∀ call ∈ dcCalls config oracle slave, call.phase = .map := by
  unfold dcCalls
  dsimp only
  split
  · split
    · split
      · simp [StartCall.phase]
      · simp [StartCall.phase]
    · simp
  · simp

theorem growIomapTrail_calls (config : EcatConfig) (oracle : Oracle) :
    (growIomapTrail config oracle).All (InPhase .map) := by
  unfold growIomapTrail
  split
  · exact all_done
  · exact step_inPhase _ _

theorem configureTrail_calls (config : EcatConfig) (oracle : Oracle) :
    (configureTrail config oracle).All (InPhase .map) := by
  have clocks : Trail.All (InPhase .map)
      ⟨.configDc :: config.slaveList.flatMap (dcCalls config oracle), true⟩ := by
    intro call member
    rcases List.mem_cons.mp member with rfl | later
    · rfl
    · obtain ⟨slave, _, found⟩ := List.mem_flatMap.mp later
      exact dcCalls_calls config oracle slave call found
  apply all_inOrder
  simp only [List.forall_mem_cons]
  refine ⟨growIomapTrail_calls config oracle, step_inPhase _ _, ?_, clocks, by simp⟩
  exact all_each fun slave _ => configureWatchdog_calls oracle slave

theorem verifyFixedPdos_calls (config : EcatConfig) (oracle : Oracle) :
    (ecatMasterVerifyFixedPdos config oracle).All (InPhase .fixedCheck) := by
  have direction : ∀ slave pdos,
      (verifyFixedDirection oracle slave pdos).All (InPhase .fixedCheck) := by
    intro slave pdos
    apply all_each
    intro pdo _
    unfold verifyFixedPdo
    split
    · exact all_done
    · apply verifyMapping_calls
      intro subindex answer
      rfl
  apply all_each
  intro slave _
  split
  · exact all_done
  · exact all_andThen (direction slave _) (direction slave _)

theorem openAndScanTrail_calls (config : EcatConfig) (oracle : Oracle) :
    (openAndScanTrail config oracle).All (InPhase .scan) := by
  apply all_inOrder
  simp only [List.forall_mem_cons]
  exact ⟨step_inPhase _ _, step_inPhase _ _, step_inPhase _ _, step_inPhase _ _, step_inPhase _ _,
    all_check _, step_inPhase _ _, step_inPhase _ _, by simp⟩

theorem transitionToOpTrail_calls (config : EcatConfig) (oracle : Oracle) :
    (transitionToOpTrail config oracle).All (InPhase .transition) := by
  have requested : Trail.All (InPhase .transition)
      ⟨[.exchange, .requestOp], true⟩ := by
    simp [Trail.All, InPhase, StartCall.phase]
  apply all_inOrder
  simp only [List.forall_mem_cons]
  exact ⟨step_inPhase _ _, step_inPhase _ _, requested, pollOp_calls oracle _ _ _, by simp⟩

theorem phaseTrail_calls (host : FloatLayout) (config : EcatConfig) (oracle : Oracle)
    (phase : StartPhase) :
    (phaseTrail host config oracle phase).All (InPhase phase) := by
  cases phase with
  | scan => exact openAndScanTrail_calls config oracle
  | sdos => exact all_each fun slave _ call member => (slaveSdos_writes member).1
  | fixedCheck => exact verifyFixedPdos_calls config oracle
  | map => exact configureTrail_calls config oracle
  | layout => exact step_inPhase _ _
  | buffers => exact step_inPhase _ _
  | transition => exact transitionToOpTrail_calls config oracle

theorem startTrail_ordered (host : FloatLayout) (config : EcatConfig) (oracle : Oracle) :
    (startTrail host config oracle).events.Pairwise fun a b => a.phase.rank ≤ b.phase.rank := by
  refine each_ordered (phaseTrail host config oracle) (fun call => call.phase.rank)
    StartPhase.rank StartPhase.all ?_ ?_
  · intro phase _ call member
    rw [phaseTrail_calls host config oracle phase call member]
  · decide

/-! ## What a start that passes has done -/

theorem startTrail_events (passes : PhasesPass host config oracle) :
    (startTrail host config oracle).events =
      StartPhase.all.flatMap fun phase => (phaseTrail host config oracle phase).events :=
  each_events _ _ ((each_ok_iff _ _).mp (startTrail_ok_iff.mpr passes))

theorem phaseTrail_sublist (passes : PhasesPass host config oracle) (phase : StartPhase) :
    (phaseTrail host config oracle phase).events.Sublist
      (startTrail host config oracle).events := by
  rw [startTrail_events passes, List.flatMap_def]
  apply List.sublist_flatten_of_mem
  refine List.mem_map.mpr ⟨phase, ?_, rfl⟩
  cases phase <;> decide

/-- The writes to a slave are those of its own turn of the SDO loop. -/
theorem startTrail_writes (passes : PhasesPass host config oracle)
    (apart : config.slaveList.Pairwise fun a b => a.position ≠ b.position) {slave : EcatSlave}
    (listed : slave ∈ config.slaveList) :
    (startTrail host config oracle).events.filter (StartCall.writesTo slave.position) =
      (slaveSdos host oracle slave).events := by
  have foreign : ∀ phase, phase ≠ .sdos →
      (phaseTrail host config oracle phase).events.filter
        (StartCall.writesTo slave.position) = [] := by
    intro phase other
    apply List.filter_eq_nil_iff.mpr
    intro call member writes
    have belongs := phaseTrail_calls host config oracle phase call member
    exact other (belongs.symm.trans (StartCall.writesTo_phase writes))
  have own : (phaseTrail host config oracle .sdos).events.filter
      (StartCall.writesTo slave.position) = (slaveSdos host oracle slave).events := by
    rw [phaseTrail, sdosTrail, each_events _ _ passes.sdos]
    exact writesTo_own apart listed
  rw [startTrail_events passes, List.filter_flatMap]
  simp only [StartPhase.all, List.flatMap_cons, List.flatMap_nil, own, foreign .scan (by decide),
    foreign .fixedCheck (by decide), foreign .map (by decide), foreign .layout (by decide),
    foreign .buffers (by decide), foreign .transition (by decide), List.nil_append,
    List.append_nil]

/-- A strict slave has had its SM watchdog written. -/
theorem startTrail_watchdog (passes : PhasesPass host config oracle) {slave : EcatSlave}
    (listed : slave ∈ config.slaveList) {found : EcSlave}
    (present : oracle.slave? slave.position = some found) (strict : slave.strictSdo = true)
    (enabled : slave.watchdog.smWatchdogEnabled = true) :
    0 < oracle.fpwr slave.position smWatchdogRegister ∧
      StartCall.fpwr slave.position found.configadr smWatchdogRegister
          (watchdogTicks slave.watchdog.smWatchdogMs)
          (oracle.fpwr slave.position smWatchdogRegister) ∈
        (startTrail host config oracle).events := by
  have passed := passes.watchdogs slave listed
  have written : 0 < oracle.fpwr slave.position smWatchdogRegister := by
    simp only [ecatMasterConfigureWatchdog, present, enabled, if_true, andThen_ok, step_ok, strict,
      Bool.not_true, Bool.or_false, Bool.and_eq_true, decide_eq_true_eq] at passed
    exact passed.1
  refine ⟨written, (phaseTrail_sublist passes .map).mem ?_⟩
  have mapOk : (configureTrail config oracle).ok = true :=
    (each_ok_iff _ _).mp (startTrail_ok_iff.mpr passes) .map (by decide)
  rw [phaseTrail, configureTrail, inOrder_events mapOk]
  refine List.mem_flatMap.mpr ⟨watchdogsTrail config oracle, by simp, ?_⟩
  rw [watchdogsTrail, each_events _ _ passes.watchdogs]
  refine List.mem_flatMap.mpr ⟨slave, listed, ?_⟩
  simp only [ecatMasterConfigureWatchdog, present, enabled, if_true]
  rw [andThen_events (by simp [written])]
  exact List.mem_append_left _ (List.mem_singleton.mpr rfl)

theorem pollOp_reached {timeoutUs : Int} {remaining retry : Nat}
    (passed : (pollOp oracle timeoutUs remaining retry).ok = true) :
    StartCall.opCheck timeoutUs ecStateOperational ∈
      (pollOp oracle timeoutUs remaining retry).events := by
  induction remaining generalizing retry with
  | zero => simp [pollOp] at passed
  | succ remaining ih =>
      unfold pollOp at passed ⊢
      by_cases reached : oracle.opState retry = ecStateOperational
      · rw [if_pos reached]
        simp [reached]
      · rw [if_neg reached] at passed ⊢
        rw [andThen_ok, Bool.true_and] at passed
        rw [andThen_events rfl]
        exact List.mem_append_right _ (ih passed)

/-- The master was read in SAFE_OP and then in OPERATIONAL. -/
theorem startTrail_states (passes : PhasesPass host config oracle) :
    [StartCall.safeOpRead ecStateSafeOp, .opCheck (pollTimeoutUs config) ecStateOperational].Sublist
      (startTrail host config oracle).events := by
  have transitionOk : (transitionToOpTrail config oracle).ok = true :=
    (transition_ok_iff config oracle).mpr ⟨passes.safeOp, passes.operational⟩
  have pollOk : (pollOp oracle (pollTimeoutUs config) (opRetries config) 0).ok = true :=
    (inOrder_ok_iff _).mp transitionOk _ (by simp)
  have states : [StartCall.safeOpRead ecStateSafeOp,
      .opCheck (pollTimeoutUs config) ecStateOperational].Sublist
        (transitionToOpTrail config oracle).events := by
    rw [transitionToOpTrail, inOrder_events transitionOk]
    simp only [List.flatMap_cons, List.flatMap_nil, step_events, List.append_nil, passes.safeOp,
      List.cons_append, List.nil_append]
    apply List.Sublist.cons
    apply List.Sublist.cons_cons
    apply List.Sublist.cons
    apply List.Sublist.cons
    exact List.singleton_sublist.mpr (pollOp_reached pollOk)
  exact states.trans (phaseTrail_sublist passes .transition)

end Calls

/-! ## Fully configured -/

/-- What a start has to have done before a master is OPERATIONAL. -/
structure FullyConfigured (host : FloatLayout) (config : EcatConfig) (oracle : Oracle)
    (calls : List StartCall) : Prop where
  slaveCount : oracle.found.length = config.slaveCount
  identities : ∀ slave ∈ config.slaveList, ∃ found, oracle.slave? slave.position = some found ∧
    (slave.startupChecks.checkVendorId = true → found.eepMan = slave.vendorId) ∧
    (slave.startupChecks.checkProductCode = true → found.eepId = slave.productCode)
  sdos : ∀ slave ∈ config.slaveList, slave.strictSdo = true →
    List.Forall₂ (SdoWritten host slave) slave.sdoConfigs
      (calls.filter (StartCall.writesTo slave.position))
  watchdogs : ∀ slave ∈ config.slaveList, slave.strictSdo = true →
    slave.watchdog.smWatchdogEnabled = true →
      ∃ found wkc, oracle.slave? slave.position = some found ∧ 0 < wkc ∧
        StartCall.fpwr slave.position found.configadr smWatchdogRegister
          (watchdogTicks slave.watchdog.smWatchdogMs) wkc ∈ calls
  fixedPdos : ∀ slave ∈ config.slaveList, checkedSlave oracle slave = true →
    ∀ pdo ∈ slave.pdos, pdo.fixed = true → ¬ PdoDiffers pdoIndexValue oracle slave pdo
  outputs : oracle.group.obytes ≤ edogFrameMaxPayload
  inputs : oracle.group.ibytes ≤ edogFrameMaxPayload
  mapped : 0 < oracle.ioSize ∧ oracle.ioSize ≤ iomapCapacity config oracle
  states : ∃ timeoutUs, [StartCall.safeOpRead ecStateSafeOp,
    .opCheck timeoutUs ecStateOperational].Sublist calls
  ordered : calls.Pairwise fun a b => a.phase.rank ≤ b.phase.rank
  /-- a configuration may have no SDO to write and no fixed PDO to compare -/
  complete : ∀ phase, phase = .sdos ∨ phase = .fixedCheck ∨ ∃ call ∈ calls, call.phase = phase

/-- No mapping that differs hides behind a misread index. -/
def NoneMisread (config : EcatConfig) (oracle : Oracle) : Prop :=
  ∀ slave ∈ config.slaveList, checkedSlave oracle slave = true →
    ∀ pdo ∈ slave.pdos, pdo.fixed = true → Misread pdo →
      ¬ PdoDiffers pdoIndexValue oracle slave pdo

theorem topology_slave {config : EcatConfig} {oracle : Oracle}
    (topology : ecatMasterValidateTopology config oracle = true) {slave : EcatSlave}
    (listed : slave ∈ config.slaveList) :
    ∃ found, oracle.slave? slave.position = some found ∧
      (slave.startupChecks.checkVendorId = true → found.eepMan = slave.vendorId) ∧
      (slave.startupChecks.checkProductCode = true → found.eepId = slave.productCode) := by
  simp only [ecatMasterValidateTopology, Bool.and_eq_true, List.all_eq_true] at topology
  obtain ⟨found, present, same⟩ := (Option.any_eq_true _ _).mp (topology.2 slave listed)
  refine ⟨found, present, ?_, ?_⟩
  · intro checked
    simp [identityMatches, checked] at same
    exact same.1
  · intro checked
    simp [identityMatches, checked] at same
    exact same.2

theorem phases_complete {host : FloatLayout} {config : EcatConfig} {oracle : Oracle}
    (passes : PhasesPass host config oracle) (phase : StartPhase) :
    phase = .sdos ∨ phase = .fixedCheck ∨
      ∃ call ∈ (startTrail host config oracle).events, call.phase = phase := by
  have happened : ∀ {call : StartCall} {phase : StartPhase},
      call ∈ (phaseTrail host config oracle phase).events →
        ∃ call ∈ (startTrail host config oracle).events, call.phase = phase :=
    fun member => ⟨_, (phaseTrail_sublist passes _).mem member,
      phaseTrail_calls host config oracle _ _ member⟩
  have passed := (each_ok_iff _ _).mp (startTrail_ok_iff.mpr passes)
  cases phase with
  | scan =>
      refine Or.inr (Or.inr (happened (show StartCall.ifaceApply ∈ _ from ?_)))
      rw [phaseTrail, openAndScanTrail, inOrder_events (passed .scan (by decide))]
      simp
  | sdos => exact Or.inl rfl
  | fixedCheck => exact Or.inr (Or.inl rfl)
  | map =>
      refine Or.inr (Or.inr (happened (show StartCall.configDc ∈ _ from ?_)))
      rw [phaseTrail, configureTrail, inOrder_events (passed .map (by decide))]
      simp
  | layout => exact Or.inr (Or.inr (happened (List.mem_singleton.mpr rfl)))
  | buffers => exact Or.inr (Or.inr (happened (List.mem_singleton.mpr rfl)))
  | transition =>
      refine Or.inr (Or.inr (happened (show StartCall.requestOp ∈ _ from ?_)))
      rw [phaseTrail, transitionToOpTrail, inOrder_events (passed .transition (by decide))]
      simp

/-- The check of the fixed PDOs sees every difference but those it misreads. -/
theorem fixedPdos_iff {config : EcatConfig} {oracle : Oracle}
    (passed : (ecatMasterVerifyFixedPdos config oracle).ok = true) :
    (∀ slave ∈ config.slaveList, checkedSlave oracle slave = true →
      ∀ pdo ∈ slave.pdos, pdo.fixed = true → ¬ PdoDiffers pdoIndexValue oracle slave pdo) ↔
        NoneMisread config oracle := by
  have verified := (verifyFixedPdos_ok_iff config oracle).mp passed
  constructor
  · intro same slave listed checked pdo among fixed _
    exact same slave listed checked pdo among fixed
  · intro none slave listed checked pdo among fixed
    by_cases misread : Misread pdo
    · exact none slave listed checked pdo among fixed misread
    · rw [← pdoDiffers_read misread]
      exact verified slave listed checked pdo among fixed

theorem started_passes {host : FloatLayout} {config : EcatConfig} {oracle : Oracle} {m : Master}
    {fresh : Nat} (same : m.inst.config = config.summary)
    (started : (startSingleMaster m fresh (startOutcome host config oracle)).2.1 = true) :
    PhasesPass host config oracle := by
  rw [← bringUp_startOutcome_iff same]
  unfold startSingleMaster at started
  split at started
  · simp at started
  · dsimp only at started
    split at started
    · simp at started
    · rename_i inst reached
      rw [reached]

/-- A validated configuration that a start brings to OPERATIONAL is in force,
except for mappings that differ behind a misread index. -/
theorem started_master_configured_iff (host : FloatLayout) (config : EcatConfig) (oracle : Oracle)
    (m : Master) (fresh : Nat) (valid : ecatConfigValidate config = .ok ())
    (same : m.inst.config = config.summary)
    (started : (startSingleMaster m fresh (startOutcome host config oracle)).2.1 = true) :
    FullyConfigured host config oracle (startTrail host config oracle).events ↔
      NoneMisread config oracle := by
  have passes := started_passes same started
  rw [← fixedPdos_iff passes.fixedPdos]
  refine ⟨fun configured => configured.fixedPdos, fun fixedPdos => ?_⟩
  have topology := passes.topology
  have buffers := passes.buffers
  simp only [buffersReady, Bool.and_eq_true, decide_eq_true_eq] at buffers
  have apart : config.slaveList.Pairwise fun a b => a.position ≠ b.position :=
    ((validateSlaves_ok_iff config.slaveList).mp (ecatConfigValidate_slaves valid)).2
  exact
    { slaveCount := by
        simp only [ecatMasterValidateTopology, Bool.and_eq_true, beq_iff_eq] at topology
        exact topology.1
      identities := fun slave listed => topology_slave passes.topology listed
      sdos := by
        intro slave listed strict
        rw [startTrail_writes passes apart listed]
        exact slaveSdos_complete strict (passes.sdos slave listed)
      watchdogs := by
        intro slave listed strict enabled
        obtain ⟨found, present, _⟩ := topology_slave passes.topology listed
        obtain ⟨written, member⟩ := startTrail_watchdog passes listed present strict enabled
        exact ⟨found, _, present, written, member⟩
      fixedPdos := fixedPdos
      outputs := buffers.1.1
      inputs := buffers.1.2
      mapped := ⟨passes.mapped, passes.fits⟩
      states := ⟨_, startTrail_states passes⟩
      ordered := startTrail_ordered host config oracle
      complete := phases_complete passes }

/-! ## A slave with a fixed input PDO -/

def fixedSlave (index : String) : Json :=
  fakeSlaveJson
    [("sdo_configurations", .array [jsonObject [("index", jsonText "0x8000"),
      ("subindex", jsonInt 1), ("data_type", jsonText "UINT8"), ("value", jsonInt 5)]]),
     ("tx_pdos", .array [jsonObject [("index", jsonText index), ("fixed", .bool true),
      ("entries", .array [fakeEntry "0x6000" 1 8])]])]

def zeroFloats : FloatLayout := ⟨fun _ => zeros 4, fun _ => zeros 8⟩

/-- The device maps `count` entries at 0x1A00, of which the first is 0x6000:1. -/
def fixedOracle (count : UInt8) : Oracle where
  nic := ⟨none, some (some 3, some 0), some (some true, some true, some true)⟩
  init := true
  configInit := 1
  found := [⟨2, 0x0A553052, 0x1001, ectMbxprotCoe, 0, 0, 8, false⟩]
  iomapAllocated := true
  snapshotAllocated := true
  preOpState := fun _ => ecStatePreOp
  sdoWrite := fun _ _ => 1
  sdoRead := fun _ _ index subindex =>
    if index = 0x1A00 ∧ subindex = 0 then ⟨1, [count]⟩
    else if index = 0x1A00 ∧ subindex = 1 then ⟨1, [8, 1, 0, 0x60]⟩
    else ⟨0, []⟩
  readPdoMapCa := fun _ => none
  readPdoMap := fun _ => (0, 8)
  readIdnMap := fun _ => (0, 0)
  siiPdo := fun _ _ => 0
  iomapGrown := true
  ioSize := 1
  group := ⟨none, some 0, 0, 1, 0, 1⟩
  mapping := fun _ => ⟨none, 0, 0, some 0, 0, 8⟩
  fpwr := fun _ _ => 1
  layoutAllocated := true
  buffersAllocated := true
  safeOpState := ecStateSafeOp
  opState := fun _ => ecStateOperational
  inputs := [0]
  monitorCreated := true
  busCreated := true

theorem started_master_configured_fixed :
    FullyConfigured zeroFloats (parsedConfig [fixedSlave "0x1A00"]) (fixedOracle 1)
      (startTrail zeroFloats (parsedConfig [fixedSlave "0x1A00"]) (fixedOracle 1)).events := by
  apply (started_master_configured_iff zeroFloats (parsedConfig [fixedSlave "0x1A00"])
    (fixedOracle 1) (freshMaster (parsedConfig [fixedSlave "0x1A00"]).summary) 0
    (by decide +kernel) rfl (by decide +kernel)).mpr
  have rightly : ∀ slave ∈ (parsedConfig [fixedSlave "0x1A00"]).slaveList, ∀ pdo ∈ slave.pdos,
      strtoulIndex pdo.index = pdoIndexValue pdo.index ∧
        ∀ entry ∈ pdo.entries, strtoulIndex entry.index = pdoIndexValue entry.index := by
    decide +kernel
  intro slave listed _ pdo among _ misread
  obtain ⟨sameIndex, sameEntries⟩ := rightly slave listed pdo among
  rcases misread with wrong | ⟨entry, member, wrong⟩
  · exact absurd sameIndex wrong
  · exact absurd (sameEntries entry member) wrong

/-- Spelled `#x1A00`, the fixed PDO is looked up at index 0 and not compared. -/
theorem hash_index_not_compared :
    ¬ ∀ (host : FloatLayout) (config : EcatConfig) (oracle : Oracle) (m : Master) (fresh : Nat),
        ecatConfigValidate config = .ok () → m.inst.config = config.summary →
        (startSingleMaster m fresh (startOutcome host config oracle)).2.1 = true →
        FullyConfigured host config oracle (startTrail host config oracle).events := by
  intro always
  have configured := always zeroFloats (parsedConfig [fixedSlave "#x1A00"]) (fixedOracle 2)
    (freshMaster (parsedConfig [fixedSlave "#x1A00"]).summary) 0 (by decide +kernel) rfl
    (by decide +kernel)
  have fixed : ∃ slave ∈ (parsedConfig [fixedSlave "#x1A00"]).slaveList,
      checkedSlave (fixedOracle 2) slave = true ∧ ∃ pdo ∈ slave.pdos, pdo.fixed = true ∧
        readCount (mappingObject pdoIndexValue (fixedOracle 2) slave pdo 0) = some 2 ∧
        (expectedMapping pdoIndexValue pdo).length = 1 := by
    decide +kernel
  obtain ⟨slave, listed, checked, pdo, among, isFixed, counted, length⟩ := fixed
  refine configured.fixedPdos slave listed checked pdo among isFixed ⟨2, counted, Or.inl ?_⟩
  rw [length]
  decide

end EtherDog
