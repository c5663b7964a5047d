import EtherDog.Bus.Lifecycle
import EtherDog.Bus.BringUp

/-!
# Which threads are alive, and who can stop them

Between commands a configured master is clean (no thread, no open context),
running (one thread of each kind, named by its handles) or stuck: in ERROR with
its context open and its threads alive, after the monitor gave up or a thread
could not be created.  `ecat_bus_start` and `ecat_bus_any_active` look at
`bus_state` alone and take a stuck master for a stopped one, so a start opens
its context again under the live threads, and a configure lets it go.  Runs
that stop a stuck master first keep every thread and every context in reach.
-/

set_option autoImplicit false

namespace EtherDog

/-! ## One master between commands -/

structure Clean (m : Master) : Prop where
  closed : m.inst.soemInitialized = false
  busThreads : m.busThreads = []
  monitorThreads : m.monitorThreads = []
  busRunning : m.inst.busRunning = false
  monitorRunning : m.inst.monitorRunning = false

/-- An open context whose live threads are those the flags and handles name. -/
structure OpenMaster (m : Master) : Prop where
  isOpen : m.inst.soemInitialized = true
  mapped : 0 < m.inst.iomapUsedSize
  bus : (m.inst.busRunning = true ∧ m.busThreads = [m.inst.busThread]) ∨
    (m.inst.busRunning = false ∧ m.busThreads = [])
  monitor : (m.inst.monitorRunning = true ∧ m.monitorThreads = [m.inst.monitorThread]) ∨
    (m.inst.monitorRunning = false ∧ m.monitorThreads = [])

/-- A clean master that is not running, or an open one; it is open in ERROR only
when it needs a stop. -/
def MasterInv (needs : Bool) (m : Master) : Prop :=
  (Clean m ∧ (m.inst.busState = .idle ∨ m.inst.busState = .stopped ∨ m.inst.busState = .error)) ∨
  (OpenMaster m ∧ (m.inst.busState = .operational ∨ m.inst.busState = .recovering ∨
    (m.inst.busState = .error ∧ needs = true)))

def AtMostOne (m : Master) : Prop := m.busThreads.length ≤ 1 ∧ m.monitorThreads.length ≤ 1

theorem MasterInv.weaken {needs later : Bool} {m : Master} (inv : MasterInv needs m)
    (implied : needs = true → later = true) : MasterInv later m := by
  rcases inv with clean | ⟨isOpen, operational | recovering | ⟨failed, needed⟩⟩
  · exact Or.inl clean
  · exact Or.inr ⟨isOpen, Or.inl operational⟩
  · exact Or.inr ⟨isOpen, Or.inr (Or.inl recovering)⟩
  · exact Or.inr ⟨isOpen, Or.inr (Or.inr ⟨failed, implied needed⟩)⟩

theorem Clean.atMostOne {m : Master} (clean : Clean m) : AtMostOne m := by
  simp [AtMostOne, clean.busThreads, clean.monitorThreads]

theorem MasterInv.atMostOne {needs : Bool} {m : Master} (inv : MasterInv needs m) :
    AtMostOne m := by
  rcases inv with ⟨clean, _⟩ | ⟨isOpen, _⟩
  · exact clean.atMostOne
  · constructor
    · rcases isOpen.bus with ⟨_, one⟩ | ⟨_, none⟩
      · simp [one]
      · simp [none]
    · rcases isOpen.monitor with ⟨_, one⟩ | ⟨_, none⟩
      · simp [one]
      · simp [none]

theorem OpenMaster.frame {m : Master} (isOpen : OpenMaster m) (inst : Instance)
    (threads : threadFlags inst = threadFlags m.inst)
    (context : inst.soemInitialized = m.inst.soemInitialized)
    (used : inst.iomapUsedSize = m.inst.iomapUsedSize) : OpenMaster { m with inst := inst } := by
  simp only [threadFlags, Prod.mk.injEq] at threads
  obtain ⟨busRunning, monitorRunning, busThread, monitorThread⟩ := threads
  refine ⟨context.trans isOpen.isOpen, ?_, ?_, ?_⟩
  · rw [used]
    exact isOpen.mapped
  · rw [busRunning, busThread]
    exact isOpen.bus
  · rw [monitorRunning, monitorThread]
    exact isOpen.monitor

/-! ## The turns of the threads -/

theorem collectAlPoll_control (inst : Instance) (poll : Option AlReply) :
    threadFlags (collectAlPoll inst poll) = threadFlags inst ∧
      (collectAlPoll inst poll).soemInitialized = inst.soemInitialized ∧
      (collectAlPoll inst poll).iomapUsedSize = inst.iomapUsedSize ∧
      (collectAlPoll inst poll).busState = inst.busState := by
  cases poll with
  | none => exact ⟨rfl, rfl, rfl, rfl⟩
  | some reply =>
      unfold collectAlPoll countAlReply recordAlReply
      dsimp only
      split <;> exact ⟨rfl, rfl, rfl, rfl⟩

theorem runOneCycle_control (inst : Instance) (masterIndex : Nat) (input : CycleInput) :
    threadFlags (ecatRunOneCycle inst masterIndex input).1 = threadFlags inst ∧
      (ecatRunOneCycle inst masterIndex input).1.soemInitialized = inst.soemInitialized ∧
      (ecatRunOneCycle inst masterIndex input).1.iomapUsedSize = inst.iomapUsedSize ∧
      ((ecatRunOneCycle inst masterIndex input).1.busState = inst.busState ∨
        (inst.busState = .operational ∧
          (ecatRunOneCycle inst masterIndex input).1.busState = .recovering)) := by
  unfold ecatRunOneCycle
  dsimp only
  split
  · exact ⟨rfl, rfl, rfl, Or.inl rfl⟩
  · split
    · exact ⟨rfl, rfl, rfl, Or.inl rfl⟩
    · obtain ⟨iomap, data, exchanged⟩ := beforeCollect_frame inst masterIndex input
      obtain ⟨threads, context, used, state⟩ :=
        collectAlPoll_control (beforeCollect inst masterIndex input) input.poll
      rw [exchanged] at threads context used state ⊢
      generalize collectAlPoll { inst with iomap := iomap, data := data } input.poll = collected
        at threads context used state ⊢
      obtain ⟨sent, published⟩ := publishInputs_frame collected masterIndex inst.busState input
      rw [published]
      split
      · exact ⟨threads, context, used, Or.inl state⟩
      · rename_i trigger triggered
        refine ⟨threads, context, used, Or.inr ⟨?_, rfl⟩⟩
        exact recoveryTrigger_operational _ inst.busState _ trigger triggered

theorem monitorPass_control (inst : Instance) (seen : SeenCounters) (states : List UInt16)
    (failures : UInt32) :
    threadFlags (monitorPass inst seen states failures).1 = threadFlags inst ∧
      (monitorPass inst seen states failures).1.soemInitialized = inst.soemInitialized ∧
      (monitorPass inst seen states failures).1.iomapUsedSize = inst.iomapUsedSize ∧
      ((monitorPass inst seen states failures).1.busState = inst.busState ∨
        (inst.busState = .recovering ∧
          ((monitorPass inst seen states failures).1.busState = .operational ∨
            (monitorPass inst seen states failures).1.busState = .error))) := by
  unfold monitorPass
  cases state : inst.busState with
  | recovering =>
      unfold attemptRecovery
      by_cases found : allOperational states = true
      · rw [if_pos found]
        exact ⟨rfl, rfl, rfl, Or.inr ⟨rfl, Or.inl rfl⟩⟩
      · rw [if_neg found]
        by_cases exhausted : inst.recoveryAttempts + 1 ≥ ecatMaxRecoveryAttempts
        · rw [if_pos exhausted]
          exact ⟨rfl, rfl, rfl, Or.inr ⟨rfl, Or.inr rfl⟩⟩
        · rw [if_neg exhausted]
          exact ⟨rfl, rfl, rfl, Or.inl state⟩
  | _ => exact ⟨rfl, rfl, rfl, Or.inl state⟩

theorem busThreadTurn_inv {needs : Bool} {m after : Master} {masterIndex thread : Nat}
    {input : CycleInput} (inv : MasterInv needs m)
    (turn : busThreadTurn m masterIndex thread input = some after) : MasterInv needs after := by
  unfold busThreadTurn at turn
  split at turn
  · simp at turn
  · rename_i member
    simp only [not_not] at member
    rcases inv with ⟨clean, _⟩ | ⟨isOpen, states⟩
    · simp [clean.busThreads] at member
    · have running : m.inst.busRunning = true := by
        rcases isOpen.bus with ⟨running, _⟩ | ⟨_, none⟩
        · exact running
        · simp [none] at member
      rw [if_neg (by simp [running])] at turn
      cases Option.some.inj turn
      obtain ⟨threads, context, used, same | ⟨_, recovering⟩⟩ :=
        runOneCycle_control m.inst masterIndex input
      · refine Or.inr ⟨isOpen.frame _ threads context used, ?_⟩
        change (ecatRunOneCycle m.inst masterIndex input).1.busState = .operational ∨ _
        rw [same]
        exact states
      · exact Or.inr ⟨isOpen.frame _ threads context used, Or.inr (Or.inl recovering)⟩

theorem monitorThreadTurn_inv {needs : Bool} {m after : Master} {thread : Nat}
    {seen : SeenCounters} {states : List UInt16} {failures : UInt32}
    {events : List MasterEvent} (inv : MasterInv needs m)
    (turn : monitorThreadTurn m thread seen states failures = some (after, events)) :
    MasterInv (needs || events.contains .gaveUp) after ∧ ∀ event ∈ events, event = .gaveUp := by
  unfold monitorThreadTurn at turn
  split at turn
  · simp at turn
  · rename_i member
    simp only [not_not] at member
    rcases inv with ⟨clean, _⟩ | ⟨isOpen, before⟩
    · simp [clean.monitorThreads] at member
    · have running : m.inst.monitorRunning = true := by
        rcases isOpen.monitor with ⟨running, _⟩ | ⟨_, none⟩
        · exact running
        · simp [none] at member
      rw [if_neg (by simp [running])] at turn
      cases Option.some.inj turn
      obtain ⟨threads, context, used, change⟩ := monitorPass_control m.inst seen states failures
      generalize (monitorPass m.inst seen states failures).1 = passed at threads context used change
      have stillOpen := isOpen.frame passed threads context used
      refine ⟨Or.inr ⟨stillOpen, ?_⟩, ?_⟩
      · change passed.busState = .operational ∨ _
        rcases change with same | ⟨recovering, operational | failed⟩
        · rcases before with operational | recovering | ⟨failed, needed⟩
          · exact Or.inl (same.trans operational)
          · exact Or.inr (Or.inl (same.trans recovering))
          · exact Or.inr (Or.inr ⟨same.trans failed, by simp [needed]⟩)
        · exact Or.inl operational
        · exact Or.inr (Or.inr ⟨failed, by simp [recovering, failed]⟩)
      · intro event logged
        split at logged
        · simpa using logged
        · simp at logged

/-- Threads of a master that `g_masters` no longer reaches can only leave. -/
theorem busThreadTurn_atMostOne {m after : Master} {masterIndex thread : Nat}
    {input : CycleInput} (one : AtMostOne m)
    (turn : busThreadTurn m masterIndex thread input = some after) : AtMostOne after := by
  unfold busThreadTurn at turn
  split at turn
  · simp at turn
  · split at turn
    · cases Option.some.inj turn
      exact ⟨le_trans List.length_erase_le one.1, one.2⟩
    · cases Option.some.inj turn
      exact one

theorem monitorThreadTurn_atMostOne {m after : Master} {thread : Nat} {seen : SeenCounters}
    {states : List UInt16} {failures : UInt32} {events : List MasterEvent} (one : AtMostOne m)
    (turn : monitorThreadTurn m thread seen states failures = some (after, events)) :
    AtMostOne after := by
  unfold monitorThreadTurn at turn
  split at turn
  · simp at turn
  · split at turn
    · cases Option.some.inj turn
      exact ⟨one.1, le_trans List.length_erase_le one.2⟩
    · cases Option.some.inj turn
      exact one

/-! ## The commands on one master -/

theorem Clean.not_alive {m : Master} (clean : Clean m) : m.alive = false := by
  simp [Master.alive, clean.busThreads, clean.monitorThreads]

theorem startSingleMaster_inv {m : Master} (clean : Clean m)
    (state : m.inst.busState = .idle ∨ m.inst.busState = .stopped ∨ m.inst.busState = .error)
    (fresh : Nat) (o : StartOutcome) :
    MasterInv ((startSingleMaster m fresh o).2.2.contains .createFailed)
        (startSingleMaster m fresh o).1 ∧
      ∀ event ∈ (startSingleMaster m fresh o).2.2,
        event = .opened false false ∨ event = .createFailed := by
  unfold startSingleMaster
  by_cases noSlaves : m.inst.config.slaves = []
  · rw [if_pos noSlaves]
    exact ⟨Or.inl ⟨clean, state⟩, by simp⟩
  · rw [if_neg noSlaves]
    dsimp only
    rw [clean.not_alive, clean.closed]
    rcases bringUp_spec m.inst o with ⟨result, failed⟩ | ⟨result, ready⟩
    · generalize bringUp m.inst o = brought at result failed
      obtain ⟨inst, ok⟩ := brought
      simp only at result failed
      subst result
      have threads := failed.threads
      simp only [threadFlags, Prod.mk.injEq] at threads
      refine ⟨Or.inl ⟨⟨failed.closed, clean.busThreads, clean.monitorThreads, ?_, ?_⟩, ?_⟩, by simp⟩
      · exact threads.1.trans clean.busRunning
      · exact threads.2.1.trans clean.monitorRunning
      · exact Or.inr (Or.inr failed.busState)
    · generalize bringUp m.inst o = brought at result ready
      obtain ⟨inst, ok⟩ := brought
      simp only at result ready
      subst result
      have threads := ready.threads
      simp only [threadFlags, Prod.mk.injEq] at threads
      have busIdle : inst.busRunning = false := threads.1.trans clean.busRunning
      dsimp only
      by_cases monitorFails : o.monitorCreated = false
      · rw [if_pos monitorFails]
        refine ⟨Or.inr ⟨⟨ready.isOpen, ready.mapped, ?_, ?_⟩, ?_⟩, by simp⟩
        · exact Or.inr ⟨busIdle, clean.busThreads⟩
        · exact Or.inr ⟨rfl, clean.monitorThreads⟩
        · exact Or.inr (Or.inr ⟨rfl, by simp⟩)
      · rw [if_neg monitorFails]
        by_cases busFails : o.busCreated = false
        · rw [if_pos busFails]
          refine ⟨Or.inr ⟨⟨ready.isOpen, ready.mapped, ?_, ?_⟩, ?_⟩, by simp⟩
          · exact Or.inr ⟨rfl, clean.busThreads⟩
          · exact Or.inl ⟨rfl, by simp [clean.monitorThreads]⟩
          · exact Or.inr (Or.inr ⟨rfl, by simp⟩)
        · rw [if_neg busFails]
          refine ⟨Or.inr ⟨⟨ready.isOpen, ready.mapped, ?_, ?_⟩, ?_⟩, by simp⟩
          · exact Or.inl ⟨rfl, by simp [clean.busThreads]⟩
          · exact Or.inl ⟨rfl, by simp [clean.monitorThreads]⟩
          · exact Or.inl ready.started.busState

/-- A master that needs no stop is started from a closed context, or not at all. -/
theorem startMaster_inv {m : Master} (inv : MasterInv false m) (fresh : Nat) (o : StartOutcome) :
    MasterInv ((startMaster m fresh o).2.2.contains .createFailed) (startMaster m fresh o).1 ∧
      ∀ event ∈ (startMaster m fresh o).2.2,
        event = .opened false false ∨ event = .createFailed := by
  have skipped (state : m.inst.busState = .operational ∨ m.inst.busState = .recovering) :
      startMaster m fresh o = (m, true, []) := by
    unfold startMaster
    dsimp only
    rw [if_pos state]
  rcases inv with ⟨clean, state⟩ | ⟨isOpen, operational | recovering | ⟨_, impossible⟩⟩
  · have started : startMaster m fresh o = startSingleMaster m fresh o := by
      unfold startMaster
      rcases state with state | state | state <;> simp [state]
    rw [started]
    exact startSingleMaster_inv clean state fresh o
  · rw [skipped (Or.inl operational)]
    exact ⟨Or.inr ⟨isOpen, Or.inl operational⟩, by simp⟩
  · rw [skipped (Or.inr recovering)]
    exact ⟨Or.inr ⟨isOpen, Or.inr (Or.inl recovering)⟩, by simp⟩
  · simp at impossible

theorem joinBus_open {m : Master} (isOpen : OpenMaster m) :
    OpenMaster (joinBus m) ∧ (joinBus m).busThreads = [] ∧ (joinBus m).inst.busRunning = false := by
  unfold joinBus
  rcases isOpen.bus with ⟨running, one⟩ | ⟨idle, none⟩
  · rw [if_pos running]
    have left : m.busThreads.erase m.inst.busThread = [] := by simp [one]
    exact ⟨⟨isOpen.isOpen, isOpen.mapped, Or.inr ⟨rfl, left⟩, isOpen.monitor⟩, left, rfl⟩
  · rw [if_neg (by simp [idle])]
    exact ⟨isOpen, none, idle⟩

theorem joinMonitor_open {m : Master} (isOpen : OpenMaster m) :
    (joinMonitor m).monitorThreads = [] ∧ (joinMonitor m).inst.monitorRunning = false ∧
      (joinMonitor m).busThreads = m.busThreads ∧
      (joinMonitor m).inst.busRunning = m.inst.busRunning ∧
      (joinMonitor m).inst.soemInitialized = m.inst.soemInitialized ∧
      (joinMonitor m).inst.iomapUsedSize = m.inst.iomapUsedSize := by
  unfold joinMonitor
  rcases isOpen.monitor with ⟨running, one⟩ | ⟨idle, none⟩
  · rw [if_pos running]
    exact ⟨by simp [one], rfl, rfl, rfl, rfl, rfl⟩
  · rw [if_neg (by simp [idle])]
    exact ⟨none, idle, rfl, rfl, rfl, rfl⟩

theorem joined_clean {m : Master} (clean : Clean m) : joinMonitor (joinBus m) = m := by
  unfold joinMonitor joinBus
  simp [clean.busRunning, clean.monitorRunning]

/-- A stop closes the master; an open one also has its outputs zeroed and its
slaves sent to INIT, in that order. -/
theorem stopSingleMaster_spec {needs : Bool} {m : Master} (inv : MasterInv needs m) :
    Clean (stopSingleMaster m).1 ∧
      ((stopSingleMaster m).1.inst.busState = .idle ∨
        (stopSingleMaster m).1.inst.busState = .stopped) ∧
      (stopSingleMaster m).2 =
        if m.inst.soemInitialized then [.requestedInit, .zeroedOutputs] else [] := by
  unfold stopSingleMaster
  rcases inv with ⟨clean, state⟩ | ⟨isOpen, state⟩
  · by_cases quiet : m.inst.busState = .stopped ∨ m.inst.busState = .idle
    · rw [if_pos quiet]
      exact ⟨clean, quiet.symm, by simp [clean.closed]⟩
    · rw [if_neg quiet, joined_clean clean]
      refine ⟨⟨rfl, clean.busThreads, clean.monitorThreads, ?_, ?_⟩, Or.inr rfl, ?_⟩
      · exact clean.busRunning
      · exact clean.monitorRunning
      · simp [ecatMasterClose, ecatLayoutDestroy, ecatDataFreeBuffers, ecatDataClose, clean.closed]
  · have running : ¬(m.inst.busState = .stopped ∨ m.inst.busState = .idle) := by
      rcases state with state | state | ⟨state, _⟩ <;> simp [state]
    rw [if_neg running]
    obtain ⟨afterBus, busThreads, busRunning⟩ := joinBus_open isOpen
    obtain ⟨monitorThreads, monitorRunning, sameThreads, sameRunning, sameContext, sameUsed⟩ :=
      joinMonitor_open afterBus
    have context : (joinMonitor (joinBus m)).inst.soemInitialized = true :=
      sameContext.trans afterBus.isOpen
    have used : 0 < (joinMonitor (joinBus m)).inst.iomapUsedSize := by
      rw [sameUsed]
      exact afterBus.mapped
    refine ⟨⟨rfl, ?_, monitorThreads, ?_, monitorRunning⟩, Or.inr rfl, ?_⟩
    · exact sameThreads.trans busThreads
    · exact sameRunning.trans busRunning
    · simp [ecatMasterClose, ecatLayoutDestroy, ecatDataFreeBuffers, ecatDataClose, context,
        used, WireAction.event, isOpen.isOpen]

theorem freshMaster_inv (needs : Bool) (config : Config) : MasterInv needs (freshMaster config) :=
  Or.inl ⟨⟨rfl, rfl, rfl, rfl, rfl⟩, Or.inl rfl⟩

theorem destroyInstance_atMostOne {m : Master} (one : AtMostOne m) :
    AtMostOne (destroyInstance m) := by
  unfold destroyInstance
  split
  · exact one
  · exact one

theorem destroyInstance_clean {m : Master} (clean : Clean m) : Clean (destroyInstance m) := by
  unfold destroyInstance
  split
  · exact clean
  · exact ⟨clean.closed, clean.busThreads, clean.monitorThreads, clean.busRunning,
      clean.monitorRunning⟩

end EtherDog
