import EtherDog.Lib.Transition
import EtherDog.Bus.Cycle

/-!
# The bus thread and the monitor thread, interleaved

Each step makes one access to a variable that the other thread uses; thread
local work goes with the access before it, so a cycle returns with its last
store.  `BusPc` and `MonitorPc` hold where a thread stands and its locals, and
the shared variables are the fields of `Instance`.  Atomics are sequentially
consistent.  `BusMove` and `MonitorMove` say once what each step can do;
every invariant of the two threads is proved over them.

Histories list the events newest first.
-/

set_option autoImplicit false

namespace EtherDog

/-- What a finished cycle was: the state it read, its outcome and its trigger store. -/
structure CycleRecord where
  began : BusState
  wkcError : Bool
  /-- `none` for a missed poll, otherwise whether the reply was healthy -/
  poll : Option Bool
  trigger : Option UInt32
  deriving DecidableEq, Repr

inductive BusPc where
  | idle
  | exchange (state : BusState)
  | collect (state : BusState) (input : CycleInput)
  | countReply (state : BusState) (input : CycleInput) (healthy : Bool)
  | countWkc (state : BusState) (input : CycleInput)
  | storeTrigger (record : CycleRecord) (trigger : UInt32)
  | storeRecovering (record : CycleRecord)
  deriving DecidableEq, Repr

inductive MonitorPc where
  | start
  | top (seen : SeenCounters)
  | loadReplies (seen : SeenCounters)
  | loadFaults (seen : SeenCounters) (replies : UInt64)
  | attempt (seen : SeenCounters)
  | resetAttempts (seen : SeenCounters)
  | resetFailures (seen : SeenCounters)
  | resetWkc (seen : SeenCounters)
  | storeOperational (seen : SeenCounters)
  | countAttempt (seen : SeenCounters)
  | storeError (seen : SeenCounters)
  deriving DecidableEq, Repr

structure Threads where
  inst : Instance
  bus : BusPc
  monitor : MonitorPc
  deriving DecidableEq, Repr

inductive ThreadEvent where
  | cycleBegan (state : BusState)
  | replyCounted (healthy : Bool)
  | cycleEnded (record : CycleRecord)
  | repliesLoaded
  | markedAllOperational
  | attempted (allOk : Bool)
  | storedOperational
  | storedError
  deriving DecidableEq, Repr

/-- Which thread moves, with what the outside decides for it. -/
inductive ThreadAction where
  | bus (input : CycleInput)
  | monitor (states : List UInt16) (failures : UInt32)
  deriving DecidableEq, Repr

def cycleRecord (inst : Instance) (state : BusState) (input : CycleInput)
    (trigger : Option UInt32) : CycleRecord :=
  ⟨state, wkcError inst input, input.poll.map (replyHealthy inst), trigger⟩

def busStep (masterIndex : Nat) (s : Threads) (input : CycleInput) :
    Threads × List ThreadEvent :=
  match s.bus with
  | .idle =>
      let state := s.inst.busState
      if state ≠ .operational ∧ state ≠ .recovering then (s, [])
      else if ecatMasterGetIomap s.inst = none then (s, [])
      else ({ s with bus := .exchange state }, [.cycleBegan state])
  | .exchange state =>
      ({ s with inst := beforeCollect s.inst masterIndex input, bus := .collect state input }, [])
  | .collect state input =>
      match input.poll with
      | none => ({ s with inst := missAlPoll s.inst, bus := .countWkc state input }, [])
      | some reply =>
          ({ s with
            inst := recordAlReply s.inst reply
            bus := .countReply state input (replyHealthy s.inst reply) }, [])
  | .countReply state input healthy =>
      ({ s with inst := countAlReply s.inst, bus := .countWkc state input },
        [.replyCounted healthy])
  | .countWkc state input =>
      let published := publishInputs s.inst masterIndex state input
      let counted := countWkc published input
      match recoveryTrigger counted state (consecAfter published input) with
      | none =>
          ({ s with inst := counted, bus := .idle },
            [.cycleEnded (cycleRecord published state input none)])
      | some trigger =>
          ({ s with
            inst := counted
            bus := .storeTrigger (cycleRecord published state input (some trigger)) trigger }, [])
  | .storeTrigger record trigger =>
      ({ s with
        inst := { s.inst with recoveryAlTrigger := trigger }
        bus := .storeRecovering record }, [])
  | .storeRecovering record =>
      ({ s with inst := { s.inst with busState := .recovering }, bus := .idle },
        [.cycleEnded record])

def monitorStep (s : Threads) (states : List UInt16) (failures : UInt32) :
    Threads × List ThreadEvent :=
  match s.monitor with
  | .start => ({ s with monitor := .top ⟨0, s.inst.alFaults⟩ }, [])
  | .top seen =>
      match s.inst.busState with
      | .operational => ({ s with monitor := .loadReplies seen }, [])
      | .recovering => ({ s with monitor := .attempt seen }, [])
      | _ => (s, [])
  | .loadReplies seen =>
      ({ s with monitor := .loadFaults seen s.inst.alReplies }, [.repliesLoaded])
  | .loadFaults seen replies =>
      ({ s with monitor := .top ⟨replies, s.inst.alFaults⟩ },
        if marksAllOperational seen replies s.inst.alFaults then [.markedAllOperational] else [])
  | .attempt seen =>
      if allOperational states then
        ({ s with monitor := .resetAttempts seen }, [.attempted true])
      else
        ({ s with
          inst := { s.inst with
            recoveryWritestateFailures := s.inst.recoveryWritestateFailures + failures }
          monitor := .countAttempt seen }, [.attempted false])
  | .resetAttempts seen =>
      ({ s with inst := { s.inst with recoveryAttempts := 0 }, monitor := .resetFailures seen }, [])
  | .resetFailures seen =>
      ({ s with
        inst := { s.inst with recoveryWritestateFailures := 0 }
        monitor := .resetWkc seen }, [])
  | .resetWkc seen =>
      ({ s with
        inst := { s.inst with consecutiveWkcErrors := 0 }
        monitor := .storeOperational seen }, [])
  | .storeOperational seen =>
      ({ s with inst := { s.inst with busState := .operational }, monitor := .top seen },
        [.storedOperational])
  | .countAttempt seen =>
      let attempts := s.inst.recoveryAttempts + 1
      ({ s with
        inst := { s.inst with recoveryAttempts := attempts }
        monitor := if attempts ≥ ecatMaxRecoveryAttempts then .storeError seen else .top seen }, [])
  | .storeError seen =>
      ({ s with inst := { s.inst with busState := .error }, monitor := .top seen },
        [.storedError])

def threadStep (masterIndex : Nat) : Transition.Step Threads ThreadAction ThreadEvent
  | s, .bus input => some (busStep masterIndex s input)
  | s, .monitor states failures => some (monitorStep s states failures)

/-- A master as `start_single_master` hands it to its threads. -/
structure Started (inst : Instance) : Prop where
  busState : inst.busState = .operational
  consecutiveWkcErrors : inst.consecutiveWkcErrors = 0
  recoveryAttempts : inst.recoveryAttempts = 0
  consecutiveAlFaults : inst.consecutiveAlFaults = 0
  alReplies : inst.alReplies = 0
  alFaults : inst.alFaults = 0

def threadsOf (inst : Instance) : Threads := ⟨inst, .idle, .start⟩

/-- The fake master in operation, expecting a working counter of 3. -/
def fakeStarted : Instance :=
  { fakeOpen 1000 with busState := .operational, expectedWkc := 3 }

theorem fakeStarted_started : Started fakeStarted := ⟨rfl, rfl, rfl, rfl, rfl, rfl⟩

/-- A cycle with no client traffic. -/
def quietCycle (wkc : Int) (poll : Option AlReply) : CycleInput :=
  ⟨true, [], [], wkc, poll, true, true⟩

def healthyReply : AlReply := ⟨0x08, 1⟩
def faultyReply : AlReply := ⟨0x04, 1⟩

/-! ## What a step can do -/

inductive BusMove : Threads → Threads → List ThreadEvent → Prop where
  | rest {inst : Instance} {monitor : MonitorPc} :
      BusMove ⟨inst, .idle, monitor⟩ ⟨inst, .idle, monitor⟩ []
  | begin {inst : Instance} {monitor : MonitorPc}
      (exchanging : inst.busState = .operational ∨ inst.busState = .recovering) :
      BusMove ⟨inst, .idle, monitor⟩ ⟨inst, .exchange inst.busState, monitor⟩
        [.cycleBegan inst.busState]
  | exchange {inst : Instance} {monitor : MonitorPc} {state : BusState}
      (iomap : Option (List UInt8)) (data : Session) (input : CycleInput) :
      BusMove ⟨inst, .exchange state, monitor⟩
        ⟨{ inst with iomap := iomap, data := data }, .collect state input, monitor⟩ []
  | miss {inst : Instance} {monitor : MonitorPc} {state : BusState} {input : CycleInput}
      (missed : input.poll = none) :
      BusMove ⟨inst, .collect state input, monitor⟩
        ⟨missAlPoll inst, .countWkc state input, monitor⟩ []
  | record {inst : Instance} {monitor : MonitorPc} {state : BusState} {input : CycleInput}
      (reply : AlReply) (answered : input.poll = some reply) :
      BusMove ⟨inst, .collect state input, monitor⟩
        ⟨recordAlReply inst reply, .countReply state input (replyHealthy inst reply), monitor⟩ []
  | countReply {inst : Instance} {monitor : MonitorPc} {state : BusState} {input : CycleInput}
      {healthy : Bool} :
      BusMove ⟨inst, .countReply state input healthy, monitor⟩
        ⟨countAlReply inst, .countWkc state input, monitor⟩ [.replyCounted healthy]
  | finish {inst : Instance} {monitor : MonitorPc} {state : BusState} {input : CycleInput}
      (data : Session)
      (calm : recoveryTrigger inst state (consecAfter inst input) = none) :
      BusMove ⟨inst, .countWkc state input, monitor⟩
        ⟨countWkc { inst with data := data } input, .idle, monitor⟩
        [.cycleEnded (cycleRecord inst state input none)]
  | trigger {inst : Instance} {monitor : MonitorPc} {state : BusState} {input : CycleInput}
      (data : Session) (value : UInt32)
      (triggered : recoveryTrigger inst state (consecAfter inst input) = some value) :
      BusMove ⟨inst, .countWkc state input, monitor⟩
        ⟨countWkc { inst with data := data } input,
          .storeTrigger (cycleRecord inst state input (some value)) value, monitor⟩ []
  | storeTrigger {inst : Instance} {monitor : MonitorPc} {record : CycleRecord} {value : UInt32} :
      BusMove ⟨inst, .storeTrigger record value, monitor⟩
        ⟨{ inst with recoveryAlTrigger := value }, .storeRecovering record, monitor⟩ []
  | storeRecovering {inst : Instance} {monitor : MonitorPc} {record : CycleRecord} :
      BusMove ⟨inst, .storeRecovering record, monitor⟩
        ⟨{ inst with busState := .recovering }, .idle, monitor⟩ [.cycleEnded record]

inductive MonitorMove : Threads → Threads → List ThreadEvent → Prop where
  | start {inst : Instance} {bus : BusPc} :
      MonitorMove ⟨inst, bus, .start⟩ ⟨inst, bus, .top ⟨0, inst.alFaults⟩⟩ []
  | rest {inst : Instance} {bus : BusPc} {seen : SeenCounters} :
      MonitorMove ⟨inst, bus, .top seen⟩ ⟨inst, bus, .top seen⟩ []
  | watch {inst : Instance} {bus : BusPc} {seen : SeenCounters}
      (healthy : inst.busState = .operational) :
      MonitorMove ⟨inst, bus, .top seen⟩ ⟨inst, bus, .loadReplies seen⟩ []
  | recover {inst : Instance} {bus : BusPc} {seen : SeenCounters}
      (recovering : inst.busState = .recovering) :
      MonitorMove ⟨inst, bus, .top seen⟩ ⟨inst, bus, .attempt seen⟩ []
  | loadReplies {inst : Instance} {bus : BusPc} {seen : SeenCounters} :
      MonitorMove ⟨inst, bus, .loadReplies seen⟩ ⟨inst, bus, .loadFaults seen inst.alReplies⟩
        [.repliesLoaded]
  | mark {inst : Instance} {bus : BusPc} {seen : SeenCounters} {replies : UInt64}
      (marks : marksAllOperational seen replies inst.alFaults = true) :
      MonitorMove ⟨inst, bus, .loadFaults seen replies⟩
        ⟨inst, bus, .top ⟨replies, inst.alFaults⟩⟩ [.markedAllOperational]
  | readStates {inst : Instance} {bus : BusPc} {seen : SeenCounters} {replies : UInt64}
      (reads : marksAllOperational seen replies inst.alFaults = false) :
      MonitorMove ⟨inst, bus, .loadFaults seen replies⟩
        ⟨inst, bus, .top ⟨replies, inst.alFaults⟩⟩ []
  | attemptOk {inst : Instance} {bus : BusPc} {seen : SeenCounters} :
      MonitorMove ⟨inst, bus, .attempt seen⟩ ⟨inst, bus, .resetAttempts seen⟩ [.attempted true]
  | attemptFailed {inst : Instance} {bus : BusPc} {seen : SeenCounters} (failures : UInt32) :
      MonitorMove ⟨inst, bus, .attempt seen⟩
        ⟨{ inst with recoveryWritestateFailures := failures }, bus, .countAttempt seen⟩
        [.attempted false]
  | resetAttempts {inst : Instance} {bus : BusPc} {seen : SeenCounters} :
      MonitorMove ⟨inst, bus, .resetAttempts seen⟩
        ⟨{ inst with recoveryAttempts := 0 }, bus, .resetFailures seen⟩ []
  | resetFailures {inst : Instance} {bus : BusPc} {seen : SeenCounters} :
      MonitorMove ⟨inst, bus, .resetFailures seen⟩
        ⟨{ inst with recoveryWritestateFailures := 0 }, bus, .resetWkc seen⟩ []
  | resetWkc {inst : Instance} {bus : BusPc} {seen : SeenCounters} :
      MonitorMove ⟨inst, bus, .resetWkc seen⟩
        ⟨{ inst with consecutiveWkcErrors := 0 }, bus, .storeOperational seen⟩ []
  | storeOperational {inst : Instance} {bus : BusPc} {seen : SeenCounters} :
      MonitorMove ⟨inst, bus, .storeOperational seen⟩
        ⟨{ inst with busState := .operational }, bus, .top seen⟩ [.storedOperational]
  | countAttempt {inst : Instance} {bus : BusPc} {seen : SeenCounters}
      (again : inst.recoveryAttempts + 1 < ecatMaxRecoveryAttempts) :
      MonitorMove ⟨inst, bus, .countAttempt seen⟩
        ⟨{ inst with recoveryAttempts := inst.recoveryAttempts + 1 }, bus, .top seen⟩ []
  | giveUp {inst : Instance} {bus : BusPc} {seen : SeenCounters}
      (exhausted : ecatMaxRecoveryAttempts ≤ inst.recoveryAttempts + 1) :
      MonitorMove ⟨inst, bus, .countAttempt seen⟩
        ⟨{ inst with recoveryAttempts := inst.recoveryAttempts + 1 }, bus, .storeError seen⟩ []
  | storeError {inst : Instance} {bus : BusPc} {seen : SeenCounters} :
      MonitorMove ⟨inst, bus, .storeError seen⟩
        ⟨{ inst with busState := .error }, bus, .top seen⟩ [.storedError]

/-- The data functions write the IOmap and the session only. -/
theorem applyOutputs_frame (inst : Instance) (masterIndex : Nat) (lockFree : Bool)
    (queue : List Datagram) :
    ∃ iomap data, ecatDataApplyOutputs inst masterIndex lockFree queue =
      { inst with iomap := iomap, data := data } := by
  unfold ecatDataApplyOutputs settleOutputs
  split
  · exact ⟨inst.iomap, inst.data, rfl⟩
  · simp only [writeIomap]
    split_ifs
    all_goals exact ⟨_, _, rfl⟩

theorem beforeCollect_frame (inst : Instance) (masterIndex : Nat) (input : CycleInput) :
    ∃ iomap data, beforeCollect inst masterIndex input =
      { inst with iomap := iomap, data := data } := by
  obtain ⟨iomap, data, applied⟩ :=
    applyOutputs_frame inst masterIndex input.lockFree input.queue
  unfold beforeCollect ecatMasterExchangeProcessdata
  rw [applied]
  split
  · exact ⟨iomap, data, rfl⟩
  · exact ⟨_, data, rfl⟩

theorem publishInputs_frame (inst : Instance) (masterIndex : Nat) (state : BusState)
    (input : CycleInput) :
    ∃ data, publishInputs inst masterIndex state input = { inst with data := data } := by
  unfold publishInputs ecatDataPublishInputs
  dsimp only
  split
  · exact ⟨inst.data, rfl⟩
  · split
    · exact ⟨inst.data, rfl⟩
    · split
      · exact ⟨inst.data, rfl⟩
      · exact ⟨_, rfl⟩

theorem recordAlReply_control (inst : Instance) (reply : AlReply) :
    (recordAlReply inst reply).busState = inst.busState ∧
      (recordAlReply inst reply).recoveryAttempts = inst.recoveryAttempts ∧
      (recordAlReply inst reply).consecutiveWkcErrors = inst.consecutiveWkcErrors ∧
      (recordAlReply inst reply).alReplies = inst.alReplies ∧
      (recordAlReply inst reply).ecxContext = inst.ecxContext := by
  unfold recordAlReply
  dsimp only
  split <;> exact ⟨rfl, rfl, rfl, rfl, rfl⟩

theorem recordAlReply_cases (inst : Instance) (reply : AlReply) :
    (replyHealthy inst reply = true ∧ (recordAlReply inst reply).consecutiveAlFaults = 0 ∧
      (recordAlReply inst reply).alFaults = inst.alFaults) ∨
    (replyHealthy inst reply = false ∧
      (recordAlReply inst reply).consecutiveAlFaults = inst.consecutiveAlFaults + 1 ∧
      (recordAlReply inst reply).alFaults = inst.alFaults + 1) := by
  unfold recordAlReply
  dsimp only
  split
  · rename_i healthy
    exact Or.inl ⟨healthy, rfl, rfl⟩
  · rename_i faulty
    exact Or.inr ⟨by simpa using faulty, rfl, rfl⟩

theorem busStep_move (masterIndex : Nat) (s next : Threads) (input : CycleInput)
    (events : List ThreadEvent) (move : busStep masterIndex s input = (next, events)) :
    BusMove s next events := by
  obtain ⟨inst, bus, monitor⟩ := s
  cases bus with
  | idle =>
      simp only [busStep] at move
      split_ifs at move with resting unmapped
      · cases move
        exact .rest
      · cases move
        exact .rest
      · cases move
        apply BusMove.begin
        by_contra neither
        exact resting (not_or.mp neither)
  | exchange state =>
      obtain ⟨iomap, data, exchanged⟩ := beforeCollect_frame inst masterIndex input
      simp only [busStep, exchanged] at move
      cases move
      exact .exchange iomap data input
  | collect state collected =>
      cases poll : collected.poll with
      | none =>
          simp only [busStep, poll] at move
          cases move
          exact .miss poll
      | some reply =>
          simp only [busStep, poll] at move
          cases move
          exact .record reply poll
  | countReply state collected healthy =>
      cases move
      exact .countReply
  | countWkc state collected =>
      obtain ⟨data, published⟩ := publishInputs_frame inst masterIndex state collected
      simp only [busStep, published] at move
      cases triggered : recoveryTrigger inst state (consecAfter inst collected) with
      | none =>
          have calm : recoveryTrigger (countWkc { inst with data := data } collected) state
              (consecAfter { inst with data := data } collected) = none := triggered
          rw [calm] at move
          cases move
          exact .finish data triggered
      | some value =>
          have stored : recoveryTrigger (countWkc { inst with data := data } collected) state
              (consecAfter { inst with data := data } collected) = some value := triggered
          rw [stored] at move
          cases move
          exact .trigger data value triggered
  | storeTrigger record trigger =>
      cases move
      exact .storeTrigger
  | storeRecovering record =>
      cases move
      exact .storeRecovering

theorem monitorStep_move (s next : Threads) (states : List UInt16) (failures : UInt32)
    (events : List ThreadEvent) (move : monitorStep s states failures = (next, events)) :
    MonitorMove s next events := by
  obtain ⟨inst, bus, monitor⟩ := s
  cases monitor with
  | start =>
      cases move
      exact .start
  | top seen =>
      cases state : inst.busState with
      | operational =>
          simp only [monitorStep, state] at move
          cases move
          exact .watch state
      | recovering =>
          simp only [monitorStep, state] at move
          cases move
          exact .recover state
      | _ =>
          simp only [monitorStep, state] at move
          cases move
          exact .rest
  | loadReplies seen =>
      cases move
      exact .loadReplies
  | loadFaults seen replies =>
      simp only [monitorStep] at move
      split_ifs at move with marks
      · cases move
        exact .mark marks
      · cases move
        exact .readStates (by simpa using marks)
  | attempt seen =>
      simp only [monitorStep] at move
      split_ifs at move
      · cases move
        exact .attemptOk
      · cases move
        exact .attemptFailed _
  | resetAttempts seen =>
      cases move
      exact .resetAttempts
  | resetFailures seen =>
      cases move
      exact .resetFailures
  | resetWkc seen =>
      cases move
      exact .resetWkc
  | storeOperational seen =>
      cases move
      exact .storeOperational
  | countAttempt seen =>
      simp only [monitorStep] at move
      split_ifs at move with exhausted
      · cases move
        exact .giveUp exhausted
      · cases move
        exact .countAttempt (by omega)
  | storeError seen =>
      cases move
      exact .storeError

/-- Every step is a move of one of the two threads. -/
theorem threadStep_move {masterIndex : Nat} {s next : Threads} {action : ThreadAction}
    {events : List ThreadEvent} (move : threadStep masterIndex s action = some (next, events)) :
    BusMove s next events ∨ MonitorMove s next events := by
  cases action with
  | bus input => exact Or.inl (busStep_move masterIndex s next input events (Option.some.inj move))
  | monitor states failures =>
      exact Or.inr (monitorStep_move s next states failures events (Option.some.inj move))

/-! ## A thread that runs alone -/

/-- The bus thread's steps, taken without interruption, are `ecat_run_one_cycle`. -/
theorem busStep_cycle (masterIndex : Nat) (inst : Instance) (monitor : MonitorPc)
    (input : CycleInput) :
    ∃ count, (fun s => (busStep masterIndex s input).1)^[count + 1] ⟨inst, .idle, monitor⟩ =
      ⟨(ecatRunOneCycle inst masterIndex input).1, .idle, monitor⟩ := by
  unfold ecatRunOneCycle
  dsimp only
  split
  · rename_i resting
    refine ⟨0, ?_⟩
    simp only [Function.iterate_succ, Function.iterate_zero, Function.comp, id, busStep,
      if_pos resting]
  · rename_i exchanging
    split
    · rename_i unmapped
      refine ⟨0, ?_⟩
      simp only [Function.iterate_succ, Function.iterate_zero, Function.comp, id, busStep,
        if_neg exchanging, if_pos unmapped]
    · rename_i mapped
      have toCollect : (fun s => (busStep masterIndex s input).1)^[2] ⟨inst, .idle, monitor⟩ =
          ⟨beforeCollect inst masterIndex input, .collect inst.busState input, monitor⟩ := by
        simp only [Function.iterate_succ, Function.iterate_zero, Function.comp, id, busStep,
          if_neg exchanging, if_neg mapped]
      generalize beforeCollect inst masterIndex input = exchanged at toCollect ⊢
      have toCount : ∃ count, (fun s => (busStep masterIndex s input).1)^[count]
          ⟨exchanged, .collect inst.busState input, monitor⟩ =
            ⟨collectAlPoll exchanged input.poll, .countWkc inst.busState input, monitor⟩ := by
        cases poll : input.poll with
        | none =>
            refine ⟨1, ?_⟩
            simp only [Function.iterate_succ, Function.iterate_zero, Function.comp, id, busStep,
              poll, collectAlPoll]
        | some reply =>
            refine ⟨2, ?_⟩
            simp only [Function.iterate_succ, Function.iterate_zero, Function.comp, id, busStep,
              poll, collectAlPoll]
      obtain ⟨countSteps, toCount⟩ := toCount
      generalize collectAlPoll exchanged input.poll = collected at toCount ⊢
      cases triggered : recoveryTrigger
          (countWkc (publishInputs collected masterIndex inst.busState input) input) inst.busState
          (consecAfter (publishInputs collected masterIndex inst.busState input) input) with
      | none =>
          refine ⟨countSteps + 2, ?_⟩
          rw [show countSteps + 2 + 1 = 1 + (countSteps + 2) by omega, Function.iterate_add_apply,
            Function.iterate_add_apply, toCollect, toCount]
          simp only [Function.iterate_succ, Function.iterate_zero, Function.comp, id, busStep,
            triggered]
      | some trigger =>
          refine ⟨countSteps + 4, ?_⟩
          rw [show countSteps + 4 + 1 = 3 + (countSteps + 2) by omega, Function.iterate_add_apply,
            Function.iterate_add_apply, toCollect, toCount]
          simp only [Function.iterate_succ, Function.iterate_zero, Function.comp, id, busStep,
            triggered]

/-- The monitor's steps, taken without interruption, are one turn of its loop. -/
theorem monitorStep_pass (inst : Instance) (bus : BusPc) (seen : SeenCounters)
    (states : List UInt16) (failures : UInt32) :
    ∃ count, (fun s => (monitorStep s states failures).1)^[count + 1] ⟨inst, bus, .top seen⟩ =
      ⟨(monitorPass inst seen states failures).1, bus,
        .top (monitorPass inst seen states failures).2.1⟩ := by
  unfold monitorPass
  cases state : inst.busState with
  | operational =>
      refine ⟨2, ?_⟩
      simp only [Function.iterate_succ, Function.iterate_zero, Function.comp, id, monitorStep,
        state]
  | recovering =>
      unfold attemptRecovery
      by_cases found : allOperational states = true
      · refine ⟨5, ?_⟩
        simp only [Function.iterate_succ, Function.iterate_zero, Function.comp, id, monitorStep,
          state, if_pos found]
      · by_cases exhausted : inst.recoveryAttempts + 1 ≥ ecatMaxRecoveryAttempts
        · refine ⟨3, ?_⟩
          simp only [Function.iterate_succ, Function.iterate_zero, Function.comp, id, monitorStep,
            state, if_neg found, if_pos exhausted]
        · refine ⟨2, ?_⟩
          simp only [Function.iterate_succ, Function.iterate_zero, Function.comp, id, monitorStep,
            state, if_neg found, if_neg exhausted]
  | _ =>
      refine ⟨0, ?_⟩
      simp only [Function.iterate_succ, Function.iterate_zero, Function.comp, id, monitorStep,
        state]

end EtherDog
