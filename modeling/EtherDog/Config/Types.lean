import EtherDog.Lib.CString

/-!
# The parsed configuration (src/config.h)

The records of a bus configuration with the fields the parser fills.  A heap
array is the list of its counted elements.  Only `slaves` keeps the
difference between NULL (`none`) and an empty array, because the parser's
clean-up is about that pointer.  Texts are already cut to their fields.  A
`double` is its exact value; -0.0 is not told from 0.0.
-/

set_option autoImplicit false

namespace EtherDog

open CString

def ecatMaxNameLen : Nat := 64
def ecatIfnameMax : Nat := 128
def indexFieldSize : Nat := 12

inductive EcatDataType where
  | unknown
  | bool
  | int8
  | uint8
  | int16
  | uint16
  | int32
  | uint32
  | int64
  | uint64
  | real32
  | real64
  | pad
  | bytestring
  deriving DecidableEq, Repr

/-- The negative codes of `ecat_config_parse_all`; OK is the absence of one. -/
inductive ConfigError where
  | file
  | parse
  | memory
  | invalid
  | missing
  deriving DecidableEq, Repr

inductive Double where
  | finite (value : Rat)
  | infinite (negative : Bool)
  | nan
  deriving DecidableEq, Repr

structure EcatPdoEntry where
  index : Text
  subindex : UInt8
  bitLength : UInt8
  name : Text
  parsedType : EcatDataType
  deriving DecidableEq, Repr

structure EcatPdo where
  index : Text
  name : Text
  entries : List EcatPdoEntry
  fixed : Bool
  deriving DecidableEq, Repr

structure EcatSdoConfig where
  index : Text
  subindex : UInt8
  value : Double
  valueBytes : Option (List UInt8)
  parsedType : EcatDataType
  completeAccess : Bool
  name : Text
  deriving DecidableEq, Repr

structure EcatChannel where
  index : Int
  name : Text
  type : Text
  bitLength : UInt8
  pdoIndex : Text
  pdoEntryIndex : Text
  pdoEntrySubindex : UInt8
  deriving DecidableEq, Repr

structure EcatStartupChecks where
  checkVendorId : Bool
  checkProductCode : Bool
  deriving DecidableEq, Repr

structure EcatTimeouts where
  sdoTimeoutMs : Int
  initToPreopTimeoutMs : Int
  safeopToOpTimeoutMs : Int
  deriving DecidableEq, Repr

structure EcatWatchdog where
  smWatchdogEnabled : Bool
  smWatchdogMs : Int
  pdiWatchdogEnabled : Bool
  pdiWatchdogMs : Int
  deriving DecidableEq, Repr

structure EcatDcConfig where
  enabled : Bool
  syncUnitCycleUs : Int
  sync0Enabled : Bool
  sync0CycleUs : Int
  sync0ShiftUs : Int
  sync1Enabled : Bool
  sync1CycleUs : Int
  sync1ShiftUs : Int
  deriving DecidableEq, Repr

structure EcatSlotDef where
  minInstances : Int
  maxInstances : Int
  classes : List Text
  idents : List UInt32
  deriving DecidableEq, Repr

structure EcatModule where
  slot : Int
  ident : UInt32
  className : Text
  deriving DecidableEq, Repr

structure EcatModular where
  present : Bool
  slotIndexIncrement : Int
  slots : List EcatSlotDef
  modules : List EcatModule
  deriving DecidableEq, Repr

structure EcatSlave where
  position : Int
  name : Text
  type : Text
  vendorId : UInt32
  productCode : UInt32
  revision : UInt32
  channels : List EcatChannel
  sdoConfigs : List EcatSdoConfig
  rxPdos : List EcatPdo
  txPdos : List EcatPdo
  startupChecks : EcatStartupChecks
  ethercatAddress : UInt16
  timeouts : EcatTimeouts
  watchdog : EcatWatchdog
  dc : EcatDcConfig
  strictSdo : Bool
  mandatoryPdos : List Text
  modular : EcatModular
  deriving DecidableEq, Repr

structure EcatMasterConfig where
  interface : Text
  cycleTimeUs : Int
  receiveTimeoutUs : Int
  watchdogTimeoutCycles : Int
  logLevel : Text
  taskPriority : Int
  safeClose : Bool
  deriving DecidableEq, Repr

structure EcatDiagnosticsConfig where
  logConnections : Bool
  logDataAccess : Bool
  logErrors : Bool
  maxLogEntries : Int
  statusUpdateIntervalMs : Int
  deriving DecidableEq, Repr

structure EcatConfig where
  master : EcatMasterConfig
  slaves : Option (List EcatSlave)
  diagnostics : EcatDiagnosticsConfig
  deriving DecidableEq, Repr

def EcatConfig.slaveList (config : EcatConfig) : List EcatSlave := config.slaves.getD []

def EcatConfig.slaveCount (config : EcatConfig) : Nat := config.slaveList.length

/-- All PDOs of a slave, as `validate_pdos` walks them. -/
def EcatSlave.pdos (slave : EcatSlave) : List EcatPdo := slave.rxPdos ++ slave.txPdos

def ecatConfigInitDefaults : EcatConfig where
  master :=
    { interface := text "eth0"
      cycleTimeUs := 1000
      receiveTimeoutUs := 2000
      watchdogTimeoutCycles := 3
      logLevel := text "info"
      taskPriority := 90
      safeClose := true }
  slaves := none
  diagnostics :=
    { logConnections := true
      logDataAccess := false
      logErrors := true
      maxLogEntries := 10000
      statusUpdateIntervalMs := 500 }

def ecatConfigDestroy (config : EcatConfig) : EcatConfig := { config with slaves := none }

end EtherDog
