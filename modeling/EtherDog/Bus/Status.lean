import EtherDog.Bus.Nodes
import EtherDog.Bus.Configure
import EtherDog.Layout.Build

/-!
# The trees of status, diagnostics and layout (src/bus.c)

`Published` is what a master publishes besides `Slot`: the averaging window, the
copy of the slave snapshot (empty where there is none, or no memory for it) and
the entries of the layout.  Every value is as the handler reads it.
-/

set_option autoImplicit false

namespace EtherDog

open CString

structure SlaveStatus where
  position : Int
  name : Text
  alState : UInt16
  alStatusCode : UInt16
  errorCount : UInt32
  deriving DecidableEq, Repr

structure Published where
  avgWindow : Int
  slaves : List SlaveStatus
  entries : List EcatLayoutEntry

/-! ## Names of states and types -/

def alStateToString (state : UInt16) : Text :=
  let base := state &&& 0x0F
  if state &&& ecStateError = 0 then
    if base = 0x00 then text "NONE"
    else if base = 0x01 then text "INIT"
    else if base = 0x02 then text "PRE-OP"
    else if base = 0x03 then text "BOOT"
    else if base = 0x04 then text "SAFE-OP"
    else if base = 0x08 then text "OP"
    else text "UNKNOWN"
  else if base = 0x01 then text "INIT+ERR"
  else if base = 0x02 then text "PRE-OP+ERR"
  else if base = 0x04 then text "SAFE-OP+ERR"
  else text "UNKNOWN+ERR"

def ecatStateToString : BusState → Text
  | .idle => text "IDLE"
  | .scanning => text "SCANNING"
  | .configuring => text "CONFIGURING"
  | .transitioning => text "TRANSITIONING"
  | .operational => text "OPERATIONAL"
  | .recovering => text "RECOVERING"
  | .error => text "ERROR"
  | .stopped => text "STOPPED"

def ecatDataTypeToString : EcatDataType → Text
  | .unknown => text "UNKNOWN"
  | .bool => text "BOOL"
  | .int8 => text "INT8"
  | .uint8 => text "UINT8"
  | .int16 => text "INT16"
  | .uint16 => text "UINT16"
  | .int32 => text "INT32"
  | .uint32 => text "UINT32"
  | .int64 => text "INT64"
  | .uint64 => text "UINT64"
  | .real32 => text "REAL32"
  | .real64 => text "REAL64"
  | .pad => text "PAD"
  | .bytestring => text "BYTESTRING"

/-! ## Timing -/

/-- `ecat_diag_view_t`; the exchange times are the cycle times. -/
structure DiagView where
  cycleCount : Nat
  wkcErrorCount : Nat
  noframeCount : Nat
  avgCycleUs : Nat
  minCycleUs : Nat
  maxCycleUs : Nat
  avgPeriodUs : Int
  maxPeriodUs : Nat
  minPeriodUs : Nat
  avgLatencyUs : Int
  maxLatencyUs : Int
  minLatencyUs : Int
  deriving DecidableEq, Repr

/-- Microseconds of a minimum that starts at the maximum. -/
def minimumUs (ns : UInt64) : Nat := if ns.toNat = 2 ^ 64 - 1 then 0 else ns.toNat / 1000

def loadDiagView (diag : CycleDiag) (avgWindow : Int) : DiagView :=
  let window := if 0 < avgWindow then avgWindow else 1
  let average := fun sum : Int => (sum.tdiv window).tdiv 1000
  { cycleCount := diag.cycleCount.toNat
    wkcErrorCount := diag.wkcErrorCount.toNat
    noframeCount := diag.noframeCount.toNat
    avgCycleUs := (average diag.avgBusCycleNsSum % 2 ^ 64).toNat
    minCycleUs := minimumUs diag.minBusCycleNs
    maxCycleUs := diag.maxBusCycleNs.toNat / 1000
    avgPeriodUs := average diag.avgPeriodNsSum
    maxPeriodUs := diag.maxPeriodNs.toNat / 1000
    minPeriodUs := minimumUs diag.minPeriodNs
    avgLatencyUs := average diag.avgLatencyNsSum
    maxLatencyUs := diag.maxLatencyNs.tdiv 1000
    minLatencyUs := if diag.minLatencyNs = 2 ^ 63 - 1 then 0 else diag.minLatencyNs.tdiv 1000 }

/-- The members that `metrics` and `timing` share. -/
def DiagView.members (view : DiagView) : List Member :=
  [natMember "cycle_count" view.cycleCount,
    natMember "wkc_error_count" view.wkcErrorCount,
    natMember "noframe_count" view.noframeCount,
    natMember "avg_cycle_us" view.avgCycleUs,
    natMember "min_cycle_us" view.minCycleUs,
    natMember "max_cycle_us" view.maxCycleUs,
    natMember "min_exchange_us" view.minCycleUs,
    natMember "max_exchange_us" view.maxCycleUs,
    intMember "avg_period_us" view.avgPeriodUs,
    natMember "max_period_us" view.maxPeriodUs,
    natMember "min_period_us" view.minPeriodUs,
    intMember "avg_latency_us" view.avgLatencyUs,
    intMember "max_latency_us" view.maxLatencyUs,
    intMember "min_latency_us" view.minLatencyUs]

/-! ## Slaves -/

def slaveHasError (status : SlaveStatus) : Bool :=
  decide (status.alState &&& ecStateError ≠ 0 ∨ status.alState ≠ ecStateOperational)

def slaveJson (diagnostics : Bool) (status : SlaveStatus) : Json :=
  .object
    ([intMember "position" status.position,
      textMember "name" status.name,
      textMember "state" (alStateToString status.alState)] ++
      (if diagnostics then [natMember "al_state_raw" status.alState.toNat] else []) ++
      [natMember "al_status_code" status.alStatusCode.toNat,
      natMember "error_count" status.errorCount.toNat,
      boolMember "has_error" (slaveHasError status)])

/-- The members both trees start with. -/
def masterMembers (diagnostics : Bool) (slot : Slot) (published : Published) : List Member :=
  [textMember "name" slot.name,
    textMember "state" (ecatStateToString slot.master.inst.busState),
    intMember "expected_wkc" slot.master.inst.expectedWkc,
    arrayMember "slaves" (published.slaves.map (slaveJson diagnostics)),
    natMember "slave_count" published.slaves.length]

/-! ## Status -/

def buildMasterStatusJson (slot : Slot) (published : Published) : Json :=
  .object
    (masterMembers false slot published ++
      [objectMember "metrics"
        ((loadDiagView slot.diag published.avgWindow).members ++
          [natMember "consecutive_wkc_errors" slot.master.inst.consecutiveWkcErrors,
            natMember "recovery_attempts" slot.master.inst.recoveryAttempts,
            natMember "overruns" slot.overruns.toNat])])

/-! ## Diagnostics -/

def timingMembers (slot : Slot) (published : Published) : List Member :=
  (loadDiagView slot.diag published.avgWindow).members ++
    [intMember "configured_cycle_us" slot.config.master.cycleTimeUs,
      intMember "receive_timeout_us" slot.master.inst.receiveTimeoutUs,
      natMember "overruns" slot.overruns.toNat]

def recoveryMembers (inst : Instance) : List Member :=
  [natMember "consecutive_wkc_errors" inst.consecutiveWkcErrors,
    natMember "recovery_attempts" inst.recoveryAttempts,
    natMember "max_recovery_attempts" ecatMaxRecoveryAttempts,
    natMember "wkc_error_threshold" ecatWkcErrorThreshold,
    natMember "writestate_failures" inst.recoveryWritestateFailures.toNat]

def alPollMembers (inst : Instance) : List Member :=
  [textMember "status" (snprintf 8 (text "0x" ++ upperHex 4 inst.alStatus.toNat)),
    intMember "responding" inst.alWkc,
    natMember "replies" inst.alReplies.toNat,
    natMember "misses" inst.alMisses.toNat,
    natMember "faults" inst.alFaults.toNat]

def dataMembers (inst : Instance) : List Member :=
  [boolMember "open" inst.data.isOpen,
    natMember "frames_rx" inst.data.framesRx.toNat,
    natMember "frames_tx" inst.data.framesTx.toNat,
    natMember "frames_dropped" inst.data.framesDropped.toNat,
    natMember "watchdog_trips" inst.data.watchdogTrips.toNat]

/-- The first 64 bytes of a region in hex; zeros where it is not mapped. -/
def regionHex (inst : Instance) (region : Option Nat) (bytes : Nat) : Text :=
  (List.range (min bytes 64)).flatMap fun b =>
    lowerHex 2 (match region with
      | none => 0
      | some start => ((inst.iomap.getD []).getD (start + b) 0).toNat)

def processImageMembers (inst : Instance) : List Member :=
  [textMember "outputs" (regionHex inst (ecatLayoutOutputRegion inst) inst.layout.outputBytes),
    textMember "inputs" (regionHex inst (ecatLayoutInputRegion inst) inst.layout.inputBytes)]

def masterConfigMembers (config : EcatMasterConfig) : List Member :=
  [textMember "interface" config.interface,
    intMember "cycle_time_us" config.cycleTimeUs,
    intMember "watchdog_timeout_cycles" config.watchdogTimeoutCycles]

def buildMasterDiagnosticsJson (masterHasLayout : Bool) (slot : Slot) (published : Published) :
    Json :=
  let inst := slot.master.inst
  .object
    (masterMembers true slot published ++
      [objectMember "timing" (timingMembers slot published),
        objectMember "recovery" (recoveryMembers inst),
        objectMember "al_poll" (alPollMembers inst),
        objectMember "data" (dataMembers inst)] ++
      (if masterHasLayout then [objectMember "process_image" (processImageMembers inst)] else []) ++
      [objectMember "master_config" (masterConfigMembers slot.config.master)])

/-! ## Layout -/

def layoutEntryJson (entry : EcatLayoutEntry) : Json :=
  .object
    [intMember "slave" entry.slavePosition,
      textMember "pdo" entry.pdoIndex,
      textMember "index" entry.entryIndex,
      natMember "subindex" entry.entrySubindex.toNat,
      textMember "direction" (if entry.isOutput then text "output" else text "input"),
      natMember "bit_offset" entry.bitOffset.toNat,
      natMember "bit_length" entry.bitLength.toNat,
      textMember "data_type" (ecatDataTypeToString entry.dataType),
      textMember "name" entry.name]

def layoutMasterJson (index : Nat) (ready : Bool) (slot : Slot) (published : Published) : Json :=
  .object
    [natMember "index" index,
      textMember "name" slot.name,
      textMember "state" (ecatStateToString slot.master.inst.busState),
      boolMember "ready" ready,
      natMember "output_bytes" (if ready then slot.master.inst.layout.outputBytes else 0),
      natMember "input_bytes" (if ready then slot.master.inst.layout.inputBytes else 0),
      arrayMember "entries" (if ready then published.entries.map layoutEntryJson else [])]

end EtherDog
