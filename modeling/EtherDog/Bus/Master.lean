import EtherDog.Bus.Threads

/-!
# Bringing one master up and down (src/bus.c, src/master.c, src/layout.c)

A `StartOutcome` holds what SOEM, the allocator and `pthread_create` answer
during one start.  A `Master` is an instance with the threads that are alive on
it, which the C code does not record: `bus_thread` and `monitor_thread` only
name the threads created last.  Interface tuning, distributed clocks and log
texts are left out.
-/

set_option autoImplicit false

namespace EtherDog

def ecatMinReceiveTimeoutUs : Int := 200

/-- How far `ecat_master_open_and_scan` gets. -/
inductive ScanOutcome where
  | initFails
  | noSlaves
  | noIomap (slavecount : Nat)
  | noSnapshot (slavecount iomapBytes : Nat)
  /-- the topology differs, or a slave does not reach PRE-OP -/
  | refused (slavecount iomapBytes : Nat)
  | found (slavecount iomapBytes : Nat)
  deriving DecidableEq, Repr

/-- What `ecat_master_configure` meets: the bytes the slaves report, whether
growing the IOmap succeeds, what SOEM maps and whether the watchdogs are set. -/
structure MapOutcome where
  bytes : Nat
  grows : Bool
  group : Group
  ioSize : Nat
  watchdogsSet : Bool
  deriving DecidableEq, Repr

structure StartOutcome where
  scan : ScanOutcome
  /-- for each slave with SDOs, whether they were written -/
  sdosWritten : List Bool
  fixedPdosMatch : Bool
  mapping : MapOutcome
  /-- whether every configured entry was found in the mapping -/
  layoutMatches : Bool
  buffersAllocated : Bool
  reachesOp : Bool
  inputs : List UInt8
  monitorCreated : Bool
  busCreated : Bool
  deriving DecidableEq, Repr

/-! ## The SOEM context -/

def ecatMasterOpenAndScan (inst : Instance) (scan : ScanOutcome) : Instance × Bool :=
  let released := { inst with
    ecxContext := zeroContext, iomap := none, iomapUsedSize := 0, slavesSnapshot := none }
  let snapshot := max inst.config.slaves.length 1
  match scan with
  | .initFails => (released, false)
  | .noSlaves => ({ released with soemInitialized := false }, false)
  | .noIomap slavecount =>
      ({ released with
        soemInitialized := false
        ecxContext := { zeroContext with slavecount := slavecount } }, false)
  | .noSnapshot slavecount iomapBytes =>
      ({ released with
        soemInitialized := false
        ecxContext := { zeroContext with slavecount := slavecount }
        iomap := some (zeros iomapBytes) }, false)
  | .refused slavecount iomapBytes =>
      ({ released with
        soemInitialized := false
        ecxContext := { zeroContext with slavecount := slavecount }
        iomap := some (zeros iomapBytes)
        slavesSnapshot := some snapshot }, false)
  | .found slavecount iomapBytes =>
      ({ released with
        soemInitialized := true
        ecxContext := { zeroContext with slavecount := slavecount }
        iomap := some (zeros iomapBytes)
        slavesSnapshot := some snapshot }, true)

def ecatMasterInstanceGrowIomap (inst : Instance) (bytes : Nat) (grows : Bool) :
    Option Instance :=
  if inst.iomap ≠ none ∧ (inst.iomap.getD []).length ≥ bytes then some inst
  else if grows = false then none
  else some { inst with iomap := some (zeros bytes), iomapUsedSize := 0 }

def ecatMasterConfigure (inst : Instance) (outcome : MapOutcome) : Instance × Bool :=
  if inst.soemInitialized = false then (inst, false)
  else
    match ecatMasterInstanceGrowIomap inst outcome.bytes outcome.grows with
    | none => (inst, false)
    | some grown =>
        let mapped := { grown with
          ecxContext := { grown.ecxContext with group := outcome.group } }
        if outcome.ioSize = 0 then (mapped, false)
        else if (grown.iomap.getD []).length < outcome.ioSize then (mapped, false)
        else ({ mapped with iomapUsedSize := outcome.ioSize }, outcome.watchdogsSet)

/-- What closing a master puts on the wire. -/
inductive WireAction where
  | zeroedOutputs
  | requestedInit
  deriving DecidableEq, Repr

/-- The wire actions come newest first. -/
def ecatMasterClose (inst : Instance) : Instance × List WireAction :=
  let wire := if inst.soemInitialized then
      if inst.iomapUsedSize > 0 then [WireAction.requestedInit, .zeroedOutputs]
      else [.requestedInit]
    else []
  ({ inst with
    soemInitialized := false, iomap := none, iomapUsedSize := 0, slavesSnapshot := none }, wire)

def ecatMasterGetExpectedWkc (inst : Instance) : Int :=
  inst.ecxContext.group.outputsWkc * 2 + inst.ecxContext.group.inputsWkc

/-! ## The layout -/

def ecatLayoutDestroy (inst : Instance) : Instance := { inst with layout := zeroLayout }

def ecatLayoutBuild (inst : Instance) (entriesMatch : Bool) : Instance × Bool :=
  if inst.soemInitialized = false then (ecatLayoutDestroy inst, false)
  else
    let group := inst.ecxContext.group
    let built := { inst with layout := ⟨group.obytes, group.ibytes⟩ }
    if group.obytes > edogFrameMaxPayload ∨ group.ibytes > edogFrameMaxPayload then (built, false)
    else (built, entriesMatch)

/-! ## Start -/

/-- The SDO loop: a failed write counts where the slave is strict. -/
def sdosAccepted : List SlaveConfig → List Bool → Bool
  | [], _ => true
  | slave :: rest, written =>
      if slave.sdoCount = 0 then sdosAccepted rest written
      else if written.headD true = false ∧ slave.strictSdo = true then false
      else sdosAccepted rest written.tail

def abortStart (inst : Instance) : Instance :=
  { (ecatMasterClose inst).1 with busState := .error }

/-- Phase 4 up to the state store and the first exchange. -/
def enterOperational (inst : Instance) (inputs : List UInt8) : Instance :=
  ecatMasterExchangeProcessdata
    { inst with
      consecutiveWkcErrors := 0
      recoveryAttempts := 0
      recoveryWritestateFailures := 0
      consecutiveAlFaults := 0
      alStatus := 0
      alWkc := 0
      alReplies := 0
      alMisses := 0
      alFaults := 0
      recoveryAlTrigger := 0
      busState := .operational } inputs

/-- `start_single_master` from the scan to OPERATIONAL, before its threads. -/
def bringUp (inst : Instance) (o : StartOutcome) : Instance × Bool :=
  match ecatMasterOpenAndScan { inst with busState := .scanning } o.scan with
  | (opened, false) => (abortStart opened, false)
  | (opened, true) =>
      let configuring := { opened with busState := .configuring }
      if sdosAccepted inst.config.slaves o.sdosWritten = false then (abortStart configuring, false)
      else if o.fixedPdosMatch = false then (abortStart configuring, false)
      else
        match ecatMasterConfigure configuring o.mapping with
        | (mapped, false) => (abortStart mapped, false)
        | (mapped, true) =>
            match ecatLayoutBuild mapped o.layoutMatches with
            | (built, false) => (abortStart (ecatLayoutDestroy built), false)
            | (built, true) =>
                match ecatDataAllocBuffers built o.buffersAllocated with
                | none => (abortStart (ecatLayoutDestroy built), false)
                | some ready =>
                    let transitioning := { ready with
                      expectedWkc := ecatMasterGetExpectedWkc ready
                      receiveTimeoutUs :=
                        max ready.config.receiveTimeoutUs ecatMinReceiveTimeoutUs
                      busState := .transitioning }
                    if o.reachesOp = false then (abortStart transitioning, false)
                    else (enterOperational transitioning o.inputs, true)

structure Master where
  inst : Instance
  busThreads : List Nat
  monitorThreads : List Nat
  deriving DecidableEq, Repr

inductive MasterEvent where
  /-- the start reached `ecat_master_open_and_scan`: was a thread alive, the context open -/
  | opened (alive initialized : Bool)
  | createFailed
  | gaveUp
  | zeroedOutputs
  | requestedInit
  deriving DecidableEq, Repr

def Master.alive (m : Master) : Bool := !(m.busThreads.isEmpty && m.monitorThreads.isEmpty)

/-- The new threads are called `fresh` and `fresh + 1`. -/
def startSingleMaster (m : Master) (fresh : Nat) (o : StartOutcome) :
    Master × Bool × List MasterEvent :=
  if m.inst.config.slaves = [] then (m, false, [])
  else
    let opened := MasterEvent.opened m.alive m.inst.soemInitialized
    match bringUp m.inst o with
    | (inst, false) => ({ m with inst := inst }, false, [opened])
    | (inst, true) =>
        if o.monitorCreated = false then
          ({ m with inst := { inst with monitorRunning := false, busState := .error } }, false,
            [.createFailed, opened])
        else
          let monitored := { inst with monitorRunning := true, monitorThread := fresh }
          if o.busCreated = false then
            (⟨{ monitored with busRunning := false, busState := .error }, m.busThreads,
              fresh :: m.monitorThreads⟩, false, [.createFailed, opened])
          else
            (⟨{ monitored with busRunning := true, busThread := fresh + 1 },
              (fresh + 1) :: m.busThreads, fresh :: m.monitorThreads⟩, true, [opened])

/-! ## Stop -/

def joinBus (m : Master) : Master :=
  if m.inst.busRunning then
    { m with
      inst := { m.inst with busRunning := false }
      busThreads := m.busThreads.erase m.inst.busThread }
  else m

def joinMonitor (m : Master) : Master :=
  if m.inst.monitorRunning then
    { m with
      inst := { m.inst with monitorRunning := false }
      monitorThreads := m.monitorThreads.erase m.inst.monitorThread }
  else m

def WireAction.event : WireAction → MasterEvent
  | .zeroedOutputs => .zeroedOutputs
  | .requestedInit => .requestedInit

def stopSingleMaster (m : Master) : Master × List MasterEvent :=
  if m.inst.busState = .stopped ∨ m.inst.busState = .idle then (m, [])
  else
    let joined := joinMonitor (joinBus m)
    let cleared := { ecatLayoutDestroy (ecatDataFreeBuffers (ecatDataClose joined.inst)) with
      consecutiveWkcErrors := 0
      recoveryAttempts := 0
      recoveryWritestateFailures := 0
      expectedWkc := 0 }
    let (closed, wire) := ecatMasterClose cleared
    ({ joined with inst := { closed with busState := .stopped } }, wire.map WireAction.event)

/-! ## The live threads -/

/-- One turn of the bus thread `thread`: it leaves when it is told to stop. -/
def busThreadTurn (m : Master) (masterIndex thread : Nat) (input : CycleInput) : Option Master :=
  if thread ∉ m.busThreads then none
  else if m.inst.busRunning = false then
    some { m with busThreads := m.busThreads.erase thread }
  else some { m with inst := (ecatRunOneCycle m.inst masterIndex input).1 }

/-- One turn of the monitor thread `thread` with the counters it saw last. -/
def monitorThreadTurn (m : Master) (thread : Nat) (seen : SeenCounters) (states : List UInt16)
    (failures : UInt32) : Option (Master × List MasterEvent) :=
  if thread ∉ m.monitorThreads then none
  else if m.inst.monitorRunning = false then
    some ({ m with monitorThreads := m.monitorThreads.erase thread }, [])
  else
    let after := (monitorPass m.inst seen states failures).1
    some ({ m with inst := after },
      if m.inst.busState = .recovering ∧ after.busState = .error then [.gaveUp] else [])

/-! ## A start of the fake master -/

def fakeConfig : Config := ⟨1000, 0, [⟨1, 0, false⟩]⟩

def fakeStart : StartOutcome :=
  { scan := .found 1 16
    sdosWritten := []
    fixedPdosMatch := true
    mapping := ⟨3, true, ⟨some 0, some 1, 1, 2, 1, 1⟩, 3, true⟩
    layoutMatches := true
    buffersAllocated := true
    reachesOp := true
    inputs := []
    monitorCreated := true
    busCreated := true }

end EtherDog
