import EtherDog.Lib.Trail
import EtherDog.Lib.LittleEndian
import EtherDog.Layout.Build
import EtherDog.Start.Iface
import EtherDog.Bus.Cycle

/-!
# What a start asks and is answered (src/bus.c, src/master.c)

An `Oracle` holds the answers of SOEM, the allocator and `pthread_create` to
one start.  Every answer is indexed by the place of the question, so that each
question of a start has an answer of its own.  `StartCall` is a question with
its answer.  Calls whose answers only reach the log are left out: the socket
options and the states read after a failed transition.  Texts are left out too.
-/

set_option autoImplicit false

namespace EtherDog

open CString

/-! ## Constants of SOEM -/

def ecTimeoutRet : Int := 2000
def ecTimeoutRxm : Int := 700000
def ecTimeoutState : Int := 2000000

def ecStatePreOp : UInt16 := 0x02
def ecStateSafeOp : UInt16 := 0x04

def ectMbxprotCoe : UInt16 := 0x04
def ectMbxprotSoe : UInt16 := 0x10
def ectCoedetSdoca : UInt8 := 0x20

/-- What the scan found at one position (`ec_slavet`). -/
structure EcSlave where
  eepMan : UInt32
  eepId : UInt32
  configadr : UInt16
  mbxProto : UInt16
  coeDetails : UInt8
  obits : UInt16
  ibits : UInt16
  hasdc : Bool
  deriving DecidableEq, Repr

/-- `ecx_SDOread`: the working counter and as many bytes as `size` says. -/
structure SdoAnswer where
  wkc : Int
  bytes : List UInt8
  deriving DecidableEq, Repr

/-! ## The oracle -/

structure Oracle where
  nic : NicReport
  init : Bool
  configInit : Int
  found : List EcSlave
  iomapAllocated : Bool
  snapshotAllocated : Bool
  preOpState : Nat → UInt16
  /-- by position and place in the slave's list of SDOs -/
  sdoWrite : Int → Nat → Int
  /-- by position and fixed PDO, for any object of the device -/
  sdoRead : Int → EcatPdo → UInt16 → UInt8 → SdoAnswer
  /-- output and input bits; `none` where the call fails -/
  readPdoMapCa : Nat → Option (UInt32 × UInt32)
  readPdoMap : Nat → UInt32 × UInt32
  readIdnMap : Nat → UInt32 × UInt32
  siiPdo : Nat → Bool → UInt32
  iomapGrown : Bool
  ioSize : Int
  group : Group
  mapping : Nat → EcMapping
  /-- by position and register -/
  fpwr : Int → UInt16 → Int
  layoutAllocated : Bool
  buffersAllocated : Bool
  safeOpState : UInt16
  opState : Nat → UInt16
  inputs : List UInt8
  monitorCreated : Bool
  busCreated : Bool

def Oracle.slave? (oracle : Oracle) (position : Int) : Option EcSlave :=
  if position < 1 ∨ oracle.found.length < position then none
  else oracle.found[position.toNat - 1]?

def Oracle.soemMap (oracle : Oracle) : SoemMap where
  initialized := true
  slaves := (List.range oracle.found.length).map fun i => oracle.mapping (i + 1)
  group := oracle.group

def EcSlave.hasCoe (slave : EcSlave) : Bool := slave.mbxProto &&& ectMbxprotCoe != 0

/-! ## The calls -/

inductive StartPhase where
  | scan
  | sdos
  | fixedCheck
  | map
  | layout
  | buffers
  | transition
  deriving DecidableEq, Repr

/-- In the order of `start_single_master`. -/
def StartPhase.all : List StartPhase :=
  [.scan, .sdos, .fixedCheck, .map, .layout, .buffers, .transition]

def StartPhase.rank : StartPhase → Nat
  | .scan => 0
  | .sdos => 1
  | .fixedCheck => 2
  | .map => 3
  | .layout => 4
  | .buffers => 5
  | .transition => 6

inductive StartCall where
  | ifaceApply
  | ecxInit (opened : Bool)
  | configInit (slaves : Int)
  | allocIomap (bytes : Nat) (allocated : Bool)
  | allocSnapshot (slots : Nat) (allocated : Bool)
  | preOpCheck (timeoutUs : Int)
  | preOpRead (states : List UInt16)
  | sdoWrite (position : Int) (index : UInt16) (subindex : UInt8) (completeAccess : Bool)
      (bytes : List UInt8) (timeoutUs wkc : Int)
  | sdoRead (position : Int) (index : UInt16) (subindex : UInt8) (timeoutUs : Int)
      (answer : SdoAnswer)
  | growIomap (bytes : Nat) (grown : Bool)
  | configMapGroup (ioSize : Int)
  | fpwr (position : Int) (configadr register ticks : UInt16) (wkc : Int)
  | configDc
  | dcSync0 (position : Int) (cycleNs : UInt32) (shiftNs : Int)
  | dcSync01 (position : Int) (cycle0Ns cycle1Ns : UInt32) (shiftNs : Int)
  | layoutBuild (built : Bool)
  | allocBuffers (allocated : Bool)
  | safeOpCheck (timeoutUs : Int)
  /-- the state of slave 0, which stands for the master -/
  | safeOpRead (state : UInt16)
  | exchange
  | requestOp
  | opCheck (timeoutUs : Int) (state : UInt16)
  deriving DecidableEq, Repr

def StartCall.phase : StartCall → StartPhase
  | .ifaceApply => .scan
  | .ecxInit _ => .scan
  | .configInit _ => .scan
  | .allocIomap _ _ => .scan
  | .allocSnapshot _ _ => .scan
  | .preOpCheck _ => .scan
  | .preOpRead _ => .scan
  | .sdoWrite _ _ _ _ _ _ _ => .sdos
  | .sdoRead _ _ _ _ _ => .fixedCheck
  | .growIomap _ _ => .map
  | .configMapGroup _ => .map
  | .fpwr _ _ _ _ _ => .map
  | .configDc => .map
  | .dcSync0 _ _ _ => .map
  | .dcSync01 _ _ _ _ => .map
  | .layoutBuild _ => .layout
  | .allocBuffers _ => .buffers
  | .safeOpCheck _ => .transition
  | .safeOpRead _ => .transition
  | .exchange => .transition
  | .requestOp => .transition
  | .opCheck _ _ => .transition

end EtherDog
