import EtherDog.Data.Session

/-!
# One bus cycle and one monitor pass (src/bus.c)

What the wire, the sockets and the scheduler decide in a cycle is a
`CycleInput`; what they decide in a recovery attempt is the list of slave
states it found.  `ecat_run_one_cycle` and the body of `ecat_monitor_thread`
are written here as whole functions over the pieces that `EtherDog.Bus.Threads`
interleaves.  Cycle statistics, the slave snapshot and logging are left out.
-/

set_option autoImplicit false

namespace EtherDog

def ecStateOperational : UInt16 := 0x08
def ecStateError : UInt16 := 0x10

def ecatAlPollHealthy (alStatus : UInt16) (wkc : Int) (slaveCount : Nat) : Bool :=
  decide (slaveCount > 0) && decide (wkc ≥ slaveCount) &&
    (alStatus &&& (0x0F ||| ecStateError)) == ecStateOperational

/-- The reply to the AL status poll: the ORed status and its working counter. -/
structure AlReply where
  alStatus : UInt16
  alWkc : Int
  deriving DecidableEq, Repr

structure CycleInput where
  /-- whether `ecat_data_apply_outputs` found the session lock free -/
  lockFree : Bool
  queue : List Datagram
  /-- the bytes the exchange put into the input region -/
  inputs : List UInt8
  wkc : Int
  /-- `none` when the poll was not sent or not answered -/
  poll : Option AlReply
  publishFree : Bool
  sent : Bool
  deriving DecidableEq, Repr

def ecatMasterGetIomap (inst : Instance) : Option (List UInt8) :=
  if inst.soemInitialized then inst.iomap else none

def ecatMasterExchangeProcessdata (inst : Instance) (inputs : List UInt8) : Instance :=
  match inst.ecxContext.group.inputs with
  | none => inst
  | some region => writeIomap inst region (inputs.take inst.ecxContext.group.ibytes)

/-! ## The AL poll -/

def replyHealthy (inst : Instance) (reply : AlReply) : Bool :=
  ecatAlPollHealthy reply.alStatus reply.alWkc inst.ecxContext.slavecount

/-- The first half of `collect_al_poll`: the reply is stored and a fault counted. -/
def recordAlReply (inst : Instance) (reply : AlReply) : Instance :=
  let stored := { inst with alStatus := reply.alStatus, alWkc := reply.alWkc }
  if replyHealthy inst reply then { stored with consecutiveAlFaults := 0 }
  else { stored with
    consecutiveAlFaults := inst.consecutiveAlFaults + 1
    alFaults := inst.alFaults + 1 }

/-- The second half, counted after the faults: the monitor reads replies first. -/
def countAlReply (inst : Instance) : Instance := { inst with alReplies := inst.alReplies + 1 }

def missAlPoll (inst : Instance) : Instance := { inst with alMisses := inst.alMisses + 1 }

def collectAlPoll (inst : Instance) (poll : Option AlReply) : Instance :=
  match poll with
  | none => missAlPoll inst
  | some reply => countAlReply (recordAlReply inst reply)

/-! ## The working counter -/

def wkcError (inst : Instance) (input : CycleInput) : Bool := decide (input.wkc < inst.expectedWkc)

/-- The streak after this cycle. -/
def consecAfter (inst : Instance) (input : CycleInput) : Nat :=
  if wkcError inst input then inst.consecutiveWkcErrors + 1 else 0

def countWkc (inst : Instance) (input : CycleInput) : Instance :=
  { inst with consecutiveWkcErrors := consecAfter inst input }

/-- What a cycle that read `state` stores in `recovery_al_trigger` before
RECOVERING, or `none` when it triggers no recovery. -/
def recoveryTrigger (inst : Instance) (state : BusState) (consec : Nat) : Option UInt32 :=
  if state = .operational ∧ consec ≥ ecatWkcErrorThreshold then some 0
  else if state = .operational ∧ inst.consecutiveAlFaults ≥ ecatAlFaultThreshold then
    some (0x10000 ||| inst.alStatus.toUInt32)
  else none

def beforeCollect (inst : Instance) (masterIndex : Nat) (input : CycleInput) : Instance :=
  ecatMasterExchangeProcessdata
    (ecatDataApplyOutputs inst masterIndex input.lockFree input.queue) input.inputs

def publishInputs (inst : Instance) (masterIndex : Nat) (state : BusState)
    (input : CycleInput) : Instance :=
  (ecatDataPublishInputs inst masterIndex input.publishFree input.wkc
    (decide (state = .operational)) (decide (input.wkc ≥ inst.expectedWkc)) input.sent).1

/-- Returns whether the master exchanged. -/
def ecatRunOneCycle (inst : Instance) (masterIndex : Nat) (input : CycleInput) :
    Instance × Bool :=
  let state := inst.busState
  if state ≠ .operational ∧ state ≠ .recovering then (inst, false)
  else if ecatMasterGetIomap inst = none then (inst, false)
  else
    let exchanged := collectAlPoll (beforeCollect inst masterIndex input) input.poll
    let published := publishInputs exchanged masterIndex state input
    let consec := consecAfter published input
    let counted := countWkc published input
    match recoveryTrigger counted state consec with
    | none => (counted, true)
    | some trigger =>
        ({ counted with recoveryAlTrigger := trigger, busState := .recovering }, true)

/-! ## The monitor -/

/-- `attempt_recovery` finds every configured slave in OP. -/
def allOperational (states : List UInt16) : Bool := states.all (· == ecStateOperational)

inductive RecoveryResult where
  | recovered
  | stillRecovering
  | maxAttempts
  deriving DecidableEq, Repr

/-- `states` are the configured slaves' AL states, `failures` the failed state
writes that `ecat_master_recover_slave` counts. -/
def attemptRecovery (inst : Instance) (states : List UInt16) (failures : UInt32) :
    Instance × RecoveryResult :=
  if allOperational states then
    ({ inst with
      recoveryAttempts := 0
      recoveryWritestateFailures := 0
      consecutiveWkcErrors := 0 }, .recovered)
  else
    let attempts := inst.recoveryAttempts + 1
    let counted := { inst with
      recoveryWritestateFailures := inst.recoveryWritestateFailures + failures
      recoveryAttempts := attempts }
    if attempts ≥ ecatMaxRecoveryAttempts then (counted, .maxAttempts)
    else (counted, .stillRecovering)

structure SeenCounters where
  alReplies : UInt64
  alFaults : UInt64
  deriving DecidableEq, Repr

/-- `ecat_master_mark_all_operational` is called instead of reading the states. -/
def marksAllOperational (seen : SeenCounters) (replies faults : UInt64) : Bool :=
  replies != seen.alReplies && faults == seen.alFaults

/-- One turn of the monitor loop; also returns whether it marked all slaves operational. -/
def monitorPass (inst : Instance) (seen : SeenCounters) (states : List UInt16)
    (failures : UInt32) : Instance × SeenCounters × Bool :=
  match inst.busState with
  | .operational =>
      (inst, ⟨inst.alReplies, inst.alFaults⟩,
        marksAllOperational seen inst.alReplies inst.alFaults)
  | .recovering =>
      match attemptRecovery inst states failures with
      | (after, .recovered) => ({ after with busState := .operational }, seen, false)
      | (after, .stillRecovering) => (after, seen, false)
      | (after, .maxAttempts) => ({ after with busState := .error }, seen, false)
  | _ => (inst, seen, false)

end EtherDog
