import EtherDog.Lib.CheckedRun
import EtherDog.Lib.MachineInt
import EtherDog.Bus.Commands
import EtherDog.Start.Phases

/-!
# The int products of a start (src/master.c, src/bus.c)

The other modules compute milliseconds times 1000 exactly.  Here every such product
is one of `int`, and a run is `none` where one overflows: each phase of the start
again, with its products checked.  A run without overflow is the exact one.
-/

set_option autoImplicit false

namespace EtherDog

open CheckedRun MachineInt Trail

/-- The product by 1000 that converts a unit into the next smaller one. -/
def thousandfold (v : Int) : Option Int := checked 32 (v * 1000)

/-- The largest `int` whose product still is one. -/
def unitMax : Int := 2147483

/-! ## The loops and conversions -/

def checkedLongestTimeoutUs (timeoutsMs : List Int) : Option Int :=
  (timeoutsMs.foldlM (fun longest ms => (thousandfold ms).map (max longest)) 0).map fun longest =>
    if longest = 0 then ecTimeoutState * 4 else longest

def checkedMinSmWatchdogUs : List EcatSlave → Option Int
  | [] => some 0
  | slave :: rest =>
      (checkedMinSmWatchdogUs rest).bind fun least =>
        if slave.watchdog.smWatchdogEnabled ∧ slave.watchdog.smWatchdogMs > 0 then
          (thousandfold slave.watchdog.smWatchdogMs).map fun us =>
            if least = 0 then us else min us least
        else some least

def checkedSdoTimeoutUs (slave : EcatSlave) : Option Int :=
  if slave.timeouts.sdoTimeoutMs > 0 then thousandfold slave.timeouts.sdoTimeoutMs
  else some ecTimeoutRxm

def checkedCycleNs (us : Int) (fallback : Option UInt32) : Option UInt32 :=
  if us > 0 then (thousandfold us).map UInt32.ofInt else fallback

/-- The timeout that "scan-modules" gives a stopped master. -/
def checkedPreopTimeoutUs (config : EcatConfig) (position : Int) : Option Int :=
  config.slaveList.foldlM
    (fun us slave =>
      if slave.position = position then thousandfold slave.timeouts.initToPreopTimeoutMs
      else some us) 0

/-! ## The functions of the start -/

def checkedWriteSdosFrom (host : FloatLayout) (oracle : Oracle) (slave : EcatSlave) (k : Nat) :
    List EcatSdoConfig → Option (List StartCall × Nat)
  | [] => some ([], 0)
  | sdo :: rest =>
      (checkedWriteSdosFrom host oracle slave (k + 1) rest).bind fun (calls, written) =>
        match sdoPayload host sdo with
        | none => some (calls, written)
        | some bytes =>
            (checkedSdoTimeoutUs slave).map fun timeoutUs =>
              let wkc := oracle.sdoWrite slave.position k
              (.sdoWrite slave.position (sdoIndex sdo) sdo.subindex sdo.completeAccess bytes
                  timeoutUs wkc :: calls,
                if wkc ≤ 0 then written else written + 1)

def checkedWriteSdos (host : FloatLayout) (oracle : Oracle) (slave : EcatSlave) :
    Option (Trail StartCall) :=
  match oracle.slave? slave.position with
  | none => some ⟨[], false⟩
  | some found =>
      if found.hasCoe = false then some ⟨[], false⟩
      else
        (checkedWriteSdosFrom host oracle slave 0 slave.sdoConfigs).map fun (calls, written) =>
          ⟨calls, slave.sdoConfigs.length ≤ written⟩

def checkedSlaveSdos (host : FloatLayout) (oracle : Oracle) (slave : EcatSlave) :
    Option (Trail StartCall) :=
  if slave.sdoConfigs = [] then some done
  else
    (checkedWriteSdos host oracle slave).map fun written =>
      ⟨written.events, written.ok || !slave.strictSdo⟩

/-- The timeout is converted before the loop over the PDOs. -/
def checkedFixedDirection (oracle : Oracle) (slave : EcatSlave) (pdos : List EcatPdo) :
    Option (Trail StartCall) :=
  (checkedSdoTimeoutUs slave).map fun timeoutUs =>
    each (fun pdo =>
      if pdo.fixed = false then done
      else
        verifyMapping (mappingObject strtoulIndex oracle slave pdo)
          (fun subindex answer => .sdoRead slave.position (strtoulIndex pdo.index).toUInt16 subindex
            timeoutUs answer)
          (expectedMapping strtoulIndex pdo)) pdos

def checkedFixedSlave (oracle : Oracle) (slave : EcatSlave) : Option (Trail StartCall) :=
  if checkedSlave oracle slave = false then some done
  else
    andThenChecked (checkedFixedDirection oracle slave slave.rxPdos)
      (checkedFixedDirection oracle slave slave.txPdos)

def checkedDcCalls (config : EcatConfig) (oracle : Oracle) (slave : EcatSlave) :
    Option (List StartCall) :=
  if slave.dc.enabled ∧ (oracle.slave? slave.position).any (·.hasdc) then do
    let cycle ← checkedCycleNs slave.dc.syncUnitCycleUs
      ((thousandfold config.master.cycleTimeUs).map UInt32.ofInt)
    if slave.dc.sync0Enabled then
      if slave.dc.sync1Enabled then
        let cycle0 ← checkedCycleNs slave.dc.sync0CycleUs (some cycle)
        let cycle1 ← checkedCycleNs slave.dc.sync1CycleUs (some cycle)
        let shift ← thousandfold slave.dc.sync0ShiftUs
        return [.dcSync01 slave.position cycle0 cycle1 shift]
      else
        let cycle0 ← checkedCycleNs slave.dc.sync0CycleUs (some cycle)
        let shift ← thousandfold slave.dc.sync0ShiftUs
        return [.dcSync0 slave.position cycle0 shift]
    else return []
  else return []

section Start
variable (host : FloatLayout) (config : EcatConfig) (oracle : Oracle)

/-- What `ecat_master_open_and_scan` does before its loop over the timeouts. -/
def openTrail : Trail StartCall :=
  inOrder
    [step .ifaceApply true,
     step (.ecxInit oracle.init) oracle.init,
     step (.configInit oracle.configInit) (0 < oracle.configInit),
     step (.allocIomap (computeIomapBytes config) oracle.iomapAllocated) oracle.iomapAllocated,
     step (.allocSnapshot (max config.slaveCount 1) oracle.snapshotAllocated)
       oracle.snapshotAllocated,
     check (ecatMasterValidateTopology config oracle)]

def checkedOpenAndScan : Option (Trail StartCall) :=
  andThenChecked (some (openTrail config oracle))
    ((checkedLongestTimeoutUs
        (config.slaveList.map fun slave => slave.timeouts.initToPreopTimeoutMs)).map fun us =>
      inOrder [step (.preOpCheck us) true, step (.preOpRead (preOpStates oracle)) (allPreOp oracle)])

/-- What `ecat_master_configure` does before `ecat_master_configure_dc`. -/
def mapTrail : Trail StartCall :=
  inOrder
    [growIomapTrail config oracle,
     step (.configMapGroup oracle.ioSize)
       (0 < oracle.ioSize ∧ oracle.ioSize ≤ iomapCapacity config oracle),
     watchdogsTrail config oracle]

def checkedConfigure : Option (Trail StartCall) :=
  andThenChecked (some (mapTrail config oracle))
    (andThenChecked (some ⟨[.configDc], true⟩)
      (eachChecked (fun slave =>
        (checkedDcCalls config oracle slave).map fun calls => ⟨calls, true⟩) config.slaveList))

/-- The poll of `ecat_master_transition_to_op` for the smallest watchdog found. -/
def pollForLeastUs (least : Int) : Int :=
  max ((if least = 0 then 100 * 1000 else least) / 4) ecTimeoutRet

def checkedPollTimeoutUs : Option Int :=
  (checkedMinSmWatchdogUs config.slaveList).map pollForLeastUs

/-- `ecat_master_transition_to_op` up to the request of OPERATIONAL. -/
def requestTrail (safeOpUs : Int) : Trail StartCall :=
  inOrder
    [step (.safeOpCheck safeOpUs) true,
     step (.safeOpRead oracle.safeOpState) (oracle.safeOpState == ecStateSafeOp),
     ⟨[.exchange, .requestOp], true⟩]

def checkedTransitionToOp : Option (Trail StartCall) :=
  (checkedLongestTimeoutUs
      (config.slaveList.map fun slave => slave.timeouts.safeopToOpTimeoutMs)).bind fun safeOpUs =>
    andThenChecked (some (requestTrail oracle safeOpUs))
      ((checkedPollTimeoutUs config).map fun pollUs =>
        pollOp oracle pollUs (max (safeOpUs / pollUs) ecatOpPollRetries).toNat 0)

def checkedPhase : StartPhase → Option (Trail StartCall)
  | .scan => checkedOpenAndScan config oracle
  | .sdos => eachChecked (checkedSlaveSdos host oracle) config.slaveList
  | .fixedCheck => eachChecked (checkedFixedSlave oracle) config.slaveList
  | .map => checkedConfigure config oracle
  | .layout => some (phaseTrail host config oracle .layout)
  | .buffers => some (phaseTrail host config oracle .buffers)
  | .transition => checkedTransitionToOp config oracle

def checkedStart : Option (Trail StartCall) :=
  eachChecked (checkedPhase host config oracle) StartPhase.all

end Start

end EtherDog
