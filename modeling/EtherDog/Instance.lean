import EtherDog.Lib.Memory
import EtherDog.Data.Frame

/-!
# One master instance (src/config.h, src/dgram.h)

`Instance` is `ecat_master_instance_t` with the fields the modelled functions
read or write.  Heap buffers are options (`none` is NULL) of their bytes; of the
receive buffer only the allocated size is kept, because nothing reads it beyond
the bytes of the datagram just received.  Pointers into the IOmap are offsets
from its start.  Sizes that SOEM reports are
natural numbers.  The two streak counters are `int` in the source, where an
overflow is undefined, so every defined run keeps them natural numbers.
-/

set_option autoImplicit false

namespace EtherDog

def ecatMaxMasters : Nat := 4
def ecatMaxRecoveryAttempts : Nat := 5
def ecatWkcErrorThreshold : Nat := 3
def ecatAlFaultThreshold : Nat := 3

inductive BusState where
  | idle
  | scanning
  | configuring
  | transitioning
  | operational
  | recovering
  | error
  | stopped
  deriving DecidableEq, Repr

/-- What `recvfrom` reports as the sender, and what a parsed endpoint holds.
A unix path is the bytes before its terminator. -/
inductive SockAddr where
  | inet (address : UInt32) (port : UInt16)
  | unix (path : List UInt8)
  | unixUnbound
  | otherFamily
  deriving DecidableEq, Repr

structure Session where
  isOpen : Bool
  fd : Int
  peer : SockAddr
  session : UInt64
  txSeq : UInt32
  rxLastSeq : UInt32
  rxSeen : Bool
  cyclesSinceOutput : UInt32
  outputsZeroed : Bool
  rxBuf : Option Nat
  rxBufSize : Nat
  rxLatest : Option (List UInt8)
  txBuf : Option (List UInt8)
  txBufSize : Nat
  framesRx : UInt64
  framesTx : UInt64
  framesDropped : UInt64
  watchdogTrips : UInt64
  deriving DecidableEq, Repr

structure Layout where
  outputBytes : Nat
  inputBytes : Nat
  deriving DecidableEq, Repr

structure SlaveConfig where
  position : Int
  sdoCount : Nat
  strictSdo : Bool
  deriving DecidableEq, Repr

structure Config where
  cycleTimeUs : Int
  receiveTimeoutUs : Int
  slaves : List SlaveConfig
  deriving DecidableEq, Repr

/-- Group 0 of SOEM's context: where the two regions start in the IOmap. -/
structure Group where
  outputs : Option Nat
  inputs : Option Nat
  obytes : Nat
  ibytes : Nat
  outputsWkc : Nat
  inputsWkc : Nat
  deriving DecidableEq, Repr

structure EcxContext where
  slavecount : Nat
  group : Group
  deriving DecidableEq, Repr

structure Instance where
  config : Config
  ecxContext : EcxContext
  iomap : Option (List UInt8)
  iomapUsedSize : Nat
  soemInitialized : Bool
  layout : Layout
  data : Session
  busState : BusState
  expectedWkc : Int
  receiveTimeoutUs : Int
  consecutiveWkcErrors : Nat
  recoveryAttempts : Nat
  recoveryWritestateFailures : UInt32
  consecutiveAlFaults : Nat
  alStatus : UInt16
  alWkc : Int
  alReplies : UInt64
  alMisses : UInt64
  alFaults : UInt64
  recoveryAlTrigger : UInt32
  slavesSnapshot : Option Nat
  monitorThread : Nat
  monitorRunning : Bool
  busThread : Nat
  busRunning : Bool
  deriving DecidableEq, Repr

/-! ## The zeroed memory of calloc and memset -/

def zeroSession : Session where
  isOpen := false
  fd := 0
  peer := .otherFamily
  session := 0
  txSeq := 0
  rxLastSeq := 0
  rxSeen := false
  cyclesSinceOutput := 0
  outputsZeroed := false
  rxBuf := none
  rxBufSize := 0
  rxLatest := none
  txBuf := none
  txBufSize := 0
  framesRx := 0
  framesTx := 0
  framesDropped := 0
  watchdogTrips := 0

def zeroLayout : Layout := ⟨0, 0⟩

def zeroContext : EcxContext := ⟨0, ⟨none, none, 0, 0, 0, 0⟩⟩

def zeroInstance (config : Config) : Instance where
  config := config
  ecxContext := zeroContext
  iomap := none
  iomapUsedSize := 0
  soemInitialized := false
  layout := zeroLayout
  data := zeroSession
  busState := .idle
  expectedWkc := 0
  receiveTimeoutUs := 0
  consecutiveWkcErrors := 0
  recoveryAttempts := 0
  recoveryWritestateFailures := 0
  consecutiveAlFaults := 0
  alStatus := 0
  alWkc := 0
  alReplies := 0
  alMisses := 0
  alFaults := 0
  recoveryAlTrigger := 0
  slavesSnapshot := none
  monitorThread := 0
  monitorRunning := false
  busThread := 0
  busRunning := false

/-! ## The regions of the process image (src/layout.c) -/

def ecatLayoutOutputRegion (inst : Instance) : Option Nat :=
  if inst.soemInitialized then inst.ecxContext.group.outputs else none

def ecatLayoutInputRegion (inst : Instance) : Option Nat :=
  if inst.soemInitialized then inst.ecxContext.group.inputs else none

def outputRegion (inst : Instance) : List UInt8 :=
  Memory.slice (inst.iomap.getD []) ((ecatLayoutOutputRegion inst).getD 0) inst.layout.outputBytes

/-- `memcpy` or `memset` of `bytes` at offset `region` of the IOmap. -/
def writeIomap (inst : Instance) (region : Nat) (bytes : List UInt8) : Instance :=
  { inst with iomap := inst.iomap.map fun memory => Memory.overwrite memory region bytes }

/-- A mapped master: its output region lies inside the allocated IOmap. -/
def Mapped (inst : Instance) : Prop :=
  ∃ memory region, inst.iomap = some memory ∧ ecatLayoutOutputRegion inst = some region ∧
    region + inst.layout.outputBytes ≤ memory.length

def zeros (count : Nat) : List UInt8 := List.replicate count 0

end EtherDog
