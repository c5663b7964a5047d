import EtherDog.Bus.Threads

/-!
# Who may change the bus state

Both threads store the state unconditionally at the end of their step, from a
copy read at its start.  That is safe because each state has one owner: only
the bus thread leaves OPERATIONAL and only the monitor leaves RECOVERING, so
what a thread read is still true when it stores.  The monitor's phase also
ties `recovery_attempts` to the attempts made since RECOVERING was entered.
-/

set_option autoImplicit false

namespace EtherDog

/-- The outcomes of the recovery attempts since the last store of RECOVERING. -/
def attemptsSince : List ThreadEvent → List Bool
  | [] => []
  | .attempted allOk :: earlier => allOk :: attemptsSince earlier
  | .cycleEnded record :: earlier =>
      if record.trigger.isSome then [] else attemptsSince earlier
  | _ :: earlier => attemptsSince earlier

def BusPc.readState : BusPc → Option BusState
  | .idle => none
  | .exchange state => some state
  | .collect state _ => some state
  | .countReply state _ _ => some state
  | .countWkc state _ => some state
  | .storeTrigger record _ => some record.began
  | .storeRecovering record => some record.began

def BusPc.storing : BusPc → Option CycleRecord
  | .storeTrigger record _ => some record
  | .storeRecovering record => some record
  | _ => none

/-- Between recovery attempts. -/
def Settled (inst : Instance) (attempts : List Bool) : Prop :=
  (inst.busState = .operational ∧ inst.recoveryAttempts = 0 ∧ attempts.head? ≠ some false) ∨
  (inst.busState = .recovering ∧ attempts = List.replicate inst.recoveryAttempts false ∧
    inst.recoveryAttempts < ecatMaxRecoveryAttempts) ∨
  (inst.busState = .error ∧ attempts = List.replicate ecatMaxRecoveryAttempts false)

def MonitorPhase (monitor : MonitorPc) (inst : Instance) (attempts : List Bool) : Prop :=
  match monitor with
  | .start | .top _ | .loadReplies _ | .loadFaults _ _ => Settled inst attempts
  | .attempt _ => inst.busState = .recovering ∧
      attempts = List.replicate inst.recoveryAttempts false ∧
      inst.recoveryAttempts < ecatMaxRecoveryAttempts
  | .resetAttempts _ => inst.busState = .recovering ∧ attempts.head? = some true
  | .resetFailures _ | .resetWkc _ | .storeOperational _ => inst.busState = .recovering ∧
      inst.recoveryAttempts = 0 ∧ attempts.head? = some true
  | .countAttempt _ => inst.busState = .recovering ∧
      attempts = List.replicate (inst.recoveryAttempts + 1) false ∧
      inst.recoveryAttempts < ecatMaxRecoveryAttempts
  | .storeError _ => inst.busState = .recovering ∧
      attempts = List.replicate ecatMaxRecoveryAttempts false

structure OwnershipInv (s : Threads) (history : List ThreadEvent) : Prop where
  busOwns : s.bus.readState = some .operational → s.inst.busState = .operational
  storing : ∀ record, s.bus.storing = some record →
    record.began = .operational ∧ record.trigger.isSome = true
  phase : MonitorPhase s.monitor s.inst (attemptsSince history)

/-- The phase reads the bus state and the attempt counter only. -/
theorem MonitorPhase.frame {monitor : MonitorPc} {before after : Instance}
    {attempts : List Bool} (phase : MonitorPhase monitor before attempts)
    (state : after.busState = before.busState)
    (counter : after.recoveryAttempts = before.recoveryAttempts) :
    MonitorPhase monitor after attempts := by
  simpa only [MonitorPhase, Settled, state, counter] using phase

theorem MonitorPhase.settled {monitor : MonitorPc} {inst : Instance} {attempts : List Bool}
    (phase : MonitorPhase monitor inst attempts) (operational : inst.busState = .operational) :
    inst.recoveryAttempts = 0 ∧
      ∀ (after : Instance) (later : List Bool), Settled after later →
        MonitorPhase monitor after later := by
  have quiet : Settled inst attempts → inst.recoveryAttempts = 0 := by
    intro settled
    rcases settled with ⟨_, zero, _⟩ | ⟨recovering, _⟩ | ⟨failed, _⟩
    · exact zero
    · simp [operational] at recovering
    · simp [operational] at failed
  cases monitor with
  | start => exact ⟨quiet phase, fun _ _ settled => settled⟩
  | top seen => exact ⟨quiet phase, fun _ _ settled => settled⟩
  | loadReplies seen => exact ⟨quiet phase, fun _ _ settled => settled⟩
  | loadFaults seen replies => exact ⟨quiet phase, fun _ _ settled => settled⟩
  | _ =>
      have recovering : inst.busState = .recovering := phase.1
      simp [operational] at recovering

/-- Only a cycle that read OPERATIONAL triggers a recovery. -/
theorem recoveryTrigger_operational (inst : Instance) (state : BusState) (consec : Nat)
    (value : UInt32) (triggered : recoveryTrigger inst state consec = some value) :
    state = .operational := by
  unfold recoveryTrigger at triggered
  split at triggered
  · rename_i wkc
    exact wkc.1
  · split at triggered
    · rename_i al
      exact al.1
    · simp at triggered

theorem busMove_ownership {s next : Threads} {history events : List ThreadEvent}
    (inv : OwnershipInv s history) (move : BusMove s next events) :
    OwnershipInv next (events ++ history) := by
  obtain ⟨busOwns, storing, phase⟩ := inv
  cases move with
  | rest => exact ⟨busOwns, storing, phase⟩
  | begin exchanging =>
      refine ⟨?_, by simp [BusPc.storing], phase⟩
      intro read
      exact Option.some.inj read
  | exchange iomap data input =>
      exact ⟨busOwns, by simp [BusPc.storing], phase.frame rfl rfl⟩
  | miss missed => exact ⟨busOwns, by simp [BusPc.storing], phase.frame rfl rfl⟩
  | @record inst monitor state input reply answered =>
      obtain ⟨sameState, sameAttempts, _⟩ := recordAlReply_control inst reply
      refine ⟨?_, by simp [BusPc.storing], phase.frame sameState sameAttempts⟩
      intro read
      exact sameState.trans (busOwns read)
  | countReply => exact ⟨busOwns, by simp [BusPc.storing], phase.frame rfl rfl⟩
  | finish data calm =>
      refine ⟨by simp [BusPc.readState], by simp [BusPc.storing], ?_⟩
      exact phase.frame rfl rfl
  | trigger data value triggered =>
      refine ⟨busOwns, ?_, phase.frame rfl rfl⟩
      intro record stored
      cases Option.some.inj stored
      exact ⟨recoveryTrigger_operational _ _ _ _ triggered, rfl⟩
  | storeTrigger => exact ⟨busOwns, storing, phase.frame rfl rfl⟩
  | @storeRecovering inst monitor record =>
      obtain ⟨began, stores⟩ := storing record rfl
      have operational : inst.busState = .operational := busOwns (congrArg some began)
      obtain ⟨zero, resettle⟩ := phase.settled operational
      refine ⟨by simp [BusPc.readState], by simp [BusPc.storing], ?_⟩
      apply resettle
      have entered : attemptsSince ([.cycleEnded record] ++ history) = [] := by
        simp [attemptsSince, stores]
      rw [entered]
      refine Or.inr (Or.inl ⟨rfl, ?_, ?_⟩)
      · change [] = List.replicate inst.recoveryAttempts false
        rw [zero]
        rfl
      · change inst.recoveryAttempts < ecatMaxRecoveryAttempts
        rw [zero]
        decide

theorem monitorMove_ownership {s next : Threads} {history events : List ThreadEvent}
    (inv : OwnershipInv s history) (move : MonitorMove s next events) :
    OwnershipInv next (events ++ history) := by
  obtain ⟨busOwns, storing, phase⟩ := inv
  cases move with
  | start => exact ⟨busOwns, storing, phase⟩
  | rest => exact ⟨busOwns, storing, phase⟩
  | watch healthy => exact ⟨busOwns, storing, phase⟩
  | recover recovering =>
      refine ⟨busOwns, storing, ?_⟩
      rcases phase with ⟨operational, _⟩ | counted | ⟨failed, _⟩
      · simp [recovering] at operational
      · exact counted
      · simp [recovering] at failed
  | loadReplies => exact ⟨busOwns, storing, phase⟩
  | mark marks => exact ⟨busOwns, storing, phase⟩
  | readStates reads => exact ⟨busOwns, storing, phase⟩
  | attemptOk => exact ⟨busOwns, storing, phase.1, rfl⟩
  | attemptFailed failures =>
      refine ⟨busOwns, storing, phase.1, ?_, phase.2.2⟩
      change false :: attemptsSince history = _
      rw [phase.2.1, List.replicate_succ]
  | resetAttempts => exact ⟨busOwns, storing, phase.1, rfl, phase.2⟩
  | resetFailures => exact ⟨busOwns, storing, phase⟩
  | resetWkc => exact ⟨busOwns, storing, phase⟩
  | storeOperational =>
      refine ⟨fun _ => rfl, storing, Or.inl ⟨rfl, phase.2.1, ?_⟩⟩
      change (attemptsSince history).head? ≠ some false
      rw [phase.2.2]
      simp
  | countAttempt again =>
      exact ⟨busOwns, storing, Or.inr (Or.inl ⟨phase.1, phase.2.1, again⟩)⟩
  | @giveUp inst bus seen exhausted =>
      refine ⟨busOwns, storing, phase.1, ?_⟩
      have bounded : inst.recoveryAttempts < ecatMaxRecoveryAttempts := phase.2.2
      have fifth : inst.recoveryAttempts + 1 = ecatMaxRecoveryAttempts := by omega
      rw [← fifth]
      exact phase.2.1
  | @storeError inst bus seen =>
      refine ⟨?_, storing, Or.inr (Or.inr ⟨rfl, phase.2⟩)⟩
      intro read
      have operational : inst.busState = .operational := busOwns read
      have recovering : inst.busState = .recovering := phase.1
      simp [operational] at recovering

theorem threadStep_ownership {masterIndex : Nat} {s next : Threads} {action : ThreadAction}
    {history events : List ThreadEvent} (inv : OwnershipInv s history)
    (move : threadStep masterIndex s action = some (next, events)) :
    OwnershipInv next (events ++ history) := by
  rcases threadStep_move move with busMove | monitorMove
  · exact busMove_ownership inv busMove
  · exact monitorMove_ownership inv monitorMove

theorem reaches_ownership {masterIndex : Nat} {inst : Instance} {s : Threads}
    {history : List ThreadEvent} {guard : Transition.Guard Threads ThreadAction ThreadEvent}
    (started : Started inst)
    (reached : Transition.Reaches (threadStep masterIndex) guard (threadsOf inst) s history) :
    OwnershipInv s history := by
  apply reached.invariant OwnershipInv
  · refine ⟨by simp [threadsOf, BusPc.readState], by simp [threadsOf, BusPc.storing], ?_⟩
    exact Or.inl ⟨started.busState, started.recoveryAttempts, by simp [attemptsSince]⟩
  · intro state history action next events inv _ move
    exact threadStep_ownership inv move

/-- The transitions of the state machine, with the thread that makes each. -/
inductive StateChange : ThreadAction → BusState → BusState → Prop where
  | keep (action : ThreadAction) (state : BusState) : StateChange action state state
  | fault (input : CycleInput) : StateChange (.bus input) .operational .recovering
  | recovered (states : List UInt16) (failures : UInt32) :
      StateChange (.monitor states failures) .recovering .operational
  | gaveUp (states : List UInt16) (failures : UInt32) :
      StateChange (.monitor states failures) .recovering .error

theorem StateChange.from_error {action : ThreadAction} {state : BusState}
    (change : StateChange action .error state) : state = .error := by
  cases change
  rfl

theorem busMove_state {s next : Threads} {history events : List ThreadEvent}
    (inv : OwnershipInv s history) (move : BusMove s next events) :
    next.inst.busState = s.inst.busState ∨
      (s.inst.busState = .operational ∧ next.inst.busState = .recovering) := by
  cases move with
  | record reply answered => exact Or.inl (recordAlReply_control _ reply).1
  | storeRecovering =>
      right
      refine ⟨inv.busOwns ?_, rfl⟩
      exact congrArg some (inv.storing _ rfl).1
  | _ => exact Or.inl rfl

theorem monitorMove_state {s next : Threads} {history events : List ThreadEvent}
    (inv : OwnershipInv s history) (move : MonitorMove s next events) :
    next.inst.busState = s.inst.busState ∨
      (s.inst.busState = .recovering ∧
        (next.inst.busState = .operational ∨ next.inst.busState = .error)) := by
  cases move with
  | storeOperational => exact Or.inr ⟨inv.phase.1, Or.inl rfl⟩
  | storeError => exact Or.inr ⟨inv.phase.1, Or.inr rfl⟩
  | _ => exact Or.inl rfl

theorem threadStep_state {masterIndex : Nat} {s next : Threads} {action : ThreadAction}
    {history events : List ThreadEvent} (inv : OwnershipInv s history)
    (move : threadStep masterIndex s action = some (next, events)) :
    StateChange action s.inst.busState next.inst.busState := by
  cases action with
  | bus input =>
      have busMove := busStep_move masterIndex s next input events (Option.some.inj move)
      rcases busMove_state inv busMove with same | ⟨before, after⟩
      · rw [same]
        exact .keep _ _
      · rw [before, after]
        exact .fault input
  | monitor states failures =>
      have monitorMove := monitorStep_move s next states failures events (Option.some.inj move)
      rcases monitorMove_state inv monitorMove with same | ⟨before, after | after⟩
      · rw [same]
        exact .keep _ _
      · rw [before, after]
        exact .recovered states failures
      · rw [before, after]
        exact .gaveUp states failures

theorem Settled.error_iff {inst : Instance} {attempts : List Bool}
    (settled : Settled inst attempts) :
    inst.busState = .error ↔ attempts = List.replicate ecatMaxRecoveryAttempts false := by
  rcases settled with ⟨operational, _, notFailed⟩ | ⟨recovering, counted, fewer⟩ | ⟨failed, five⟩
  · constructor
    · intro failed
      simp [operational] at failed
    · intro five
      exact absurd (by rw [five]; rfl) notFailed
  · constructor
    · intro failed
      simp [recovering] at failed
    · intro five
      have lengths := congrArg List.length (counted.symm.trans five)
      simp only [List.length_replicate] at lengths
      omega
  · exact ⟨fun _ => five, fun _ => failed⟩

/-- The bus state machine under every interleaving of the two threads: each
store finds the state its thread owns, the state changes along the four edges
only, the attempts are cleared in OPERATIONAL, and the monitor stores ERROR
exactly when the five attempts since RECOVERING was entered all failed. -/
theorem bus_state_ownership (masterIndex : Nat) (inst : Instance) (started : Started inst)
    (s : Threads) (history : List ThreadEvent)
    (reached : Transition.Reaches (threadStep masterIndex) Transition.anyStep (threadsOf inst)
      s history) :
    (∀ record, s.bus = .storeRecovering record → s.inst.busState = .operational) ∧
      (∀ seen, s.monitor = .storeOperational seen ∨ s.monitor = .storeError seen →
        s.inst.busState = .recovering) ∧
      (∀ action next events, threadStep masterIndex s action = some (next, events) →
        StateChange action s.inst.busState next.inst.busState ∧
        (s.inst.busState = .error → next.inst.busState = .error) ∧
        (.storedError ∈ events →
          attemptsSince history = List.replicate ecatMaxRecoveryAttempts false)) ∧
      (s.inst.busState = .operational → s.inst.recoveryAttempts = 0) ∧
      (∀ seen, s.monitor = .top seen →
        (s.inst.busState = .error ↔
          attemptsSince history = List.replicate ecatMaxRecoveryAttempts false)) := by
  have inv := reaches_ownership started reached
  refine ⟨?_, ?_, ?_, ?_, ?_⟩
  · intro record storing
    obtain ⟨began, _⟩ := inv.storing record (by rw [storing]; rfl)
    apply inv.busOwns
    rw [storing]
    exact congrArg some began
  · intro seen storing
    have phase := inv.phase
    rcases storing with operational | failed
    · rw [operational] at phase
      exact phase.1
    · rw [failed] at phase
      exact phase.1
  · intro action next events move
    have change := threadStep_state inv move
    refine ⟨change, ?_, ?_⟩
    · intro failed
      rw [failed] at change
      exact change.from_error
    · intro stored
      rcases threadStep_move move with busMove | monitorMove
      · cases busMove <;> simp at stored
      · cases monitorMove with
        | storeError => exact inv.phase.2
        | _ => simp at stored
  · intro operational
    exact (inv.phase.settled operational).1
  · intro seen top
    have phase := inv.phase
    rw [top] at phase
    exact Settled.error_iff phase

theorem bus_state_ownership_fake :
    ∃ s history, Transition.Reaches (threadStep 0) Transition.anyStep (threadsOf fakeStarted)
        s history ∧
      s.inst.busState = .error ∧ attemptsSince history = List.replicate 5 false := by
  obtain ⟨s, history, reached, failed, top⟩ := Transition.exists_of_execute (threadStep 0)
    Transition.anyStep (threadsOf fakeStarted)
    (List.replicate 14 (.bus (quietCycle 0 none)) ++ List.replicate 17 (.monitor [4] 0))
    (fun s _ => s.inst.busState = .error ∧ s.monitor = .top ⟨0, 0⟩) (by decide +kernel)
  obtain ⟨_, _, _, _, exactly⟩ :=
    bus_state_ownership 0 fakeStarted fakeStarted_started s history reached
  exact ⟨s, history, reached, failed, (exactly _ top).mp failed⟩

end EtherDog
