import EtherDog.Start.FixedPdo
import EtherDog.Bus.Master

/-!
# The phases of a start (src/bus.c, src/master.c, src/config.c)

`phaseTrail` is what each phase of `start_single_master` does on the answers of
an oracle, `startTrail` all of them in order.  `startOutcome` is the same as
the outcome that `startSingleMaster` takes.
-/

set_option autoImplicit false

namespace EtherDog

open CString Trail

/-! ## Scanning -/

def identityMatches (slave : EcatSlave) (found : EcSlave) : Bool :=
  (!slave.startupChecks.checkVendorId || found.eepMan == slave.vendorId) &&
    (!slave.startupChecks.checkProductCode || found.eepId == slave.productCode)

def ecatMasterValidateTopology (config : EcatConfig) (oracle : Oracle) : Bool :=
  oracle.found.length == config.slaveCount &&
    config.slaveList.all fun slave =>
      (oracle.slave? slave.position).any (identityMatches slave)

/-- The longest timeout in microseconds, or SOEM's own. -/
def longestTimeoutUs (timeoutsMs : List Int) : Int :=
  let longest := timeoutsMs.foldl (fun longest ms => max longest (ms * 1000)) 0
  if longest = 0 then ecTimeoutState * 4 else longest

def ecatIomapMinBytes : Nat := 256
def ecatIomapSlackPerSlave : Nat := 32

def pdoBits (pdos : List EcatPdo) : Nat := Packing.total bitSize (flatEntries pdos)

def computeIomapBytes (config : EcatConfig) : Nat :=
  let totalBits := (config.slaveList.map fun slave =>
    pdoBits slave.rxPdos + pdoBits slave.txPdos).sum
  max ((totalBits + 7) / 8 + config.slaveCount * ecatIomapSlackPerSlave) ecatIomapMinBytes

def preOpStates (oracle : Oracle) : List UInt16 :=
  (List.range oracle.found.length).map fun i => oracle.preOpState (i + 1)

def allPreOp (oracle : Oracle) : Bool := (preOpStates oracle).all (ecStatePreOp ≤ ·)

def openAndScanTrail (config : EcatConfig) (oracle : Oracle) : Trail StartCall :=
  inOrder
    [step .ifaceApply true,
     step (.ecxInit oracle.init) oracle.init,
     step (.configInit oracle.configInit) (0 < oracle.configInit),
     step (.allocIomap (computeIomapBytes config) oracle.iomapAllocated) oracle.iomapAllocated,
     step (.allocSnapshot (max config.slaveCount 1) oracle.snapshotAllocated)
       oracle.snapshotAllocated,
     check (ecatMasterValidateTopology config oracle),
     step (.preOpCheck (longestTimeoutUs
       (config.slaveList.map fun slave => slave.timeouts.initToPreopTimeoutMs))) true,
     step (.preOpRead (preOpStates oracle)) (allPreOp oracle)]

def scanOutcome (config : EcatConfig) (oracle : Oracle) : ScanOutcome :=
  let slavecount := oracle.found.length
  let iomapBytes := computeIomapBytes config
  if oracle.init = false then .initFails
  else if oracle.configInit ≤ 0 then .noSlaves
  else if oracle.iomapAllocated = false then .noIomap slavecount
  else if oracle.snapshotAllocated = false then .noSnapshot slavecount iomapBytes
  else if ecatMasterValidateTopology config oracle && allPreOp oracle then
    .found slavecount iomapBytes
  else .refused slavecount iomapBytes

/-! ## Mapping -/

def slaveMappedBits (oracle : Oracle) (position : Nat) (slave : EcSlave) : UInt32 × UInt32 :=
  let coe :=
    if slave.hasCoe then
      ((if slave.coeDetails &&& ectCoedetSdoca ≠ 0 then oracle.readPdoMapCa position
        else none).getD (oracle.readPdoMap position))
    else (0, 0)
  let soe :=
    if coe = (0, 0) ∧ slave.mbxProto &&& ectMbxprotSoe ≠ 0 then oracle.readIdnMap position
    else coe
  let sizes :=
    if soe = (0, 0) then (oracle.siiPdo position true, oracle.siiPdo position false) else soe
  (max sizes.1 slave.obits.toUInt32, max sizes.2 slave.ibits.toUInt32)

/-- The bytes of one slave, in the 32-bit arithmetic of the sizes. -/
def slaveIomapBytes (oracle : Oracle) (position : Nat) (slave : EcSlave) : Nat :=
  let (obits, ibits) := slaveMappedBits oracle position slave
  ((obits + 7) / 8 + (ibits + 7) / 8 + UInt32.ofNat ecatIomapSlackPerSlave).toNat

def sizeIomapFromSlaves (oracle : Oracle) : Nat :=
  max ((oracle.found.zipIdx 1).map fun item => slaveIomapBytes oracle item.2 item.1).sum
    ecatIomapMinBytes

/-- What the IOmap holds once it has grown. -/
def iomapCapacity (config : EcatConfig) (oracle : Oracle) : Nat :=
  max (computeIomapBytes config) (sizeIomapFromSlaves oracle)

def growIomapTrail (config : EcatConfig) (oracle : Oracle) : Trail StartCall :=
  if sizeIomapFromSlaves oracle ≤ computeIomapBytes config then done
  else step (.growIomap (sizeIomapFromSlaves oracle) oracle.iomapGrown) oracle.iomapGrown

def maxWatchdogMs : Int := 65535 / 16

def watchdogTicks (ms : Int) : UInt16 :=
  if ms > 0 then UInt16.ofInt (min ms maxWatchdogMs * 16) else 0

def smWatchdogRegister : UInt16 := 0x0420
def pdiWatchdogRegister : UInt16 := 0x0402

def ecatMasterConfigureWatchdog (oracle : Oracle) (slave : EcatSlave) : Trail StartCall :=
  match oracle.slave? slave.position with
  | none => done
  | some found =>
      let write := fun register ms => StartCall.fpwr slave.position found.configadr register
        (watchdogTicks ms) (oracle.fpwr slave.position register)
      let sm :=
        if slave.watchdog.smWatchdogEnabled then
          step (write smWatchdogRegister slave.watchdog.smWatchdogMs)
            (0 < oracle.fpwr slave.position smWatchdogRegister || !slave.strictSdo)
        else done
      let pdi :=
        if slave.watchdog.pdiWatchdogEnabled then
          step (write pdiWatchdogRegister slave.watchdog.pdiWatchdogMs) true
        else done
      sm.andThen pdi

def cycleNs (us : Int) (fallback : UInt32) : UInt32 :=
  if us > 0 then UInt32.ofInt (us * 1000) else fallback

/-- The calls for one slave; none where it is out of range or has no DC support. -/
def dcCalls (config : EcatConfig) (oracle : Oracle) (slave : EcatSlave) : List StartCall :=
  if slave.dc.enabled ∧ (oracle.slave? slave.position).any (·.hasdc) then
    let cycle := cycleNs slave.dc.syncUnitCycleUs (UInt32.ofInt (config.master.cycleTimeUs * 1000))
    let shift := slave.dc.sync0ShiftUs * 1000
    if slave.dc.sync0Enabled then
      if slave.dc.sync1Enabled then
        [.dcSync01 slave.position (cycleNs slave.dc.sync0CycleUs cycle)
          (cycleNs slave.dc.sync1CycleUs cycle) shift]
      else [.dcSync0 slave.position (cycleNs slave.dc.sync0CycleUs cycle) shift]
    else []
  else []

def watchdogsTrail (config : EcatConfig) (oracle : Oracle) : Trail StartCall :=
  each (ecatMasterConfigureWatchdog oracle) config.slaveList

def configureTrail (config : EcatConfig) (oracle : Oracle) : Trail StartCall :=
  inOrder
    [growIomapTrail config oracle,
     step (.configMapGroup oracle.ioSize)
       (0 < oracle.ioSize ∧ oracle.ioSize ≤ iomapCapacity config oracle),
     watchdogsTrail config oracle,
     ⟨.configDc :: config.slaveList.flatMap (dcCalls config oracle), true⟩]

/-! ## Layout and buffers -/

def layoutBuilt (config : EcatConfig) (oracle : Oracle) : Bool :=
  (ecatLayoutBuildEntries config oracle.soemMap oracle.layoutAllocated).2

def buffersReady (oracle : Oracle) : Bool :=
  oracle.group.obytes ≤ edogFrameMaxPayload && oracle.group.ibytes ≤ edogFrameMaxPayload &&
    oracle.buffersAllocated

/-! ## The transition to OPERATIONAL -/

/-- The smallest configured SM watchdog in microseconds; 0 where none is set. -/
def minSmWatchdogUs : List EcatSlave → Int
  | [] => 0
  | slave :: rest =>
      let least := minSmWatchdogUs rest
      if slave.watchdog.smWatchdogEnabled ∧ slave.watchdog.smWatchdogMs > 0 then
        if least = 0 then slave.watchdog.smWatchdogMs * 1000
        else min (slave.watchdog.smWatchdogMs * 1000) least
      else least

def pollTimeoutUs (config : EcatConfig) : Int :=
  let least := minSmWatchdogUs config.slaveList
  max ((if least = 0 then 100 * 1000 else least) / 4) ecTimeoutRet

def safeOpTimeoutUs (config : EcatConfig) : Int :=
  longestTimeoutUs (config.slaveList.map fun slave => slave.timeouts.safeopToOpTimeoutMs)

def ecatOpPollRetries : Int := 10

def opRetries (config : EcatConfig) : Nat :=
  (max (safeOpTimeoutUs config / pollTimeoutUs config) ecatOpPollRetries).toNat

/-- The poll from `retry` on. -/
def pollOp (oracle : Oracle) (timeoutUs : Int) : Nat → Nat → Trail StartCall
  | 0, _ => check false
  | remaining + 1, retry =>
      if oracle.opState retry = ecStateOperational then
        ⟨[.exchange, .opCheck timeoutUs (oracle.opState retry)], true⟩
      else
        Trail.andThen ⟨[.exchange, .opCheck timeoutUs (oracle.opState retry)], true⟩
          (pollOp oracle timeoutUs remaining (retry + 1))

def transitionToOpTrail (config : EcatConfig) (oracle : Oracle) : Trail StartCall :=
  inOrder
    [step (.safeOpCheck (safeOpTimeoutUs config)) true,
     step (.safeOpRead oracle.safeOpState) (oracle.safeOpState == ecStateSafeOp),
     ⟨[.exchange, .requestOp], true⟩,
     pollOp oracle (pollTimeoutUs config) (opRetries config) 0]

/-! ## The whole start -/

section Start

variable (host : FloatLayout) (config : EcatConfig) (oracle : Oracle)

def sdosTrail : Trail StartCall := each (slaveSdos host oracle) config.slaveList

def phaseTrail : StartPhase → Trail StartCall
  | .scan => openAndScanTrail config oracle
  | .sdos => sdosTrail host config oracle
  | .fixedCheck => ecatMasterVerifyFixedPdos config oracle
  | .map => configureTrail config oracle
  | .layout => step (.layoutBuild (layoutBuilt config oracle)) (layoutBuilt config oracle)
  | .buffers => step (.allocBuffers (buffersReady oracle)) (buffersReady oracle)
  | .transition => transitionToOpTrail config oracle

def startTrail : Trail StartCall := each (phaseTrail host config oracle) StartPhase.all

/-- What the other modules keep of a configuration. -/
def EcatConfig.summary : Config where
  cycleTimeUs := config.master.cycleTimeUs
  receiveTimeoutUs := config.master.receiveTimeoutUs
  slaves := config.slaveList.map fun slave =>
    ⟨slave.position, slave.sdoConfigs.length, slave.strictSdo⟩

def startOutcome : StartOutcome where
  scan := scanOutcome config oracle
  sdosWritten := (config.slaveList.filter fun slave => slave.sdoConfigs ≠ []).map fun slave =>
    (ecatMasterWriteSdos host oracle slave).ok
  fixedPdosMatch := (ecatMasterVerifyFixedPdos config oracle).ok
  mapping :=
    { bytes := sizeIomapFromSlaves oracle
      grows := oracle.iomapGrown
      group := oracle.group
      ioSize := oracle.ioSize.toNat
      watchdogsSet := (watchdogsTrail config oracle).ok }
  layoutMatches := layoutBuilt config oracle
  buffersAllocated := oracle.buffersAllocated
  reachesOp := (transitionToOpTrail config oracle).ok
  inputs := oracle.inputs
  monitorCreated := oracle.monitorCreated
  busCreated := oracle.busCreated

end Start

end EtherDog
