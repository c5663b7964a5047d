import EtherDog.Bus.Trigger

/-!
# Recoveries that follow a recovery

`attempt_recovery` clears `consecutive_wkc_errors` before the monitor stores
OPERATIONAL again, but nobody clears `consecutive_al_faults`: a streak from
before the recovery survives it until a healthy reply comes in, and a missed
poll then sends the master straight back to RECOVERING.  When every first cycle
after a recovery starts with the counter at zero, an AL trigger does need three
unhealthy replies of new cycles.
-/

set_option autoImplicit false

namespace EtherDog

/-- No cycle has begun since the monitor last stored OPERATIONAL. -/
def stale : List ThreadEvent → Bool
  | [] => false
  | .cycleBegan _ :: _ => false
  | .storedOperational :: _ => true
  | _ :: earlier => stale earlier

/-- The replies collected in cycles that began after the last OPERATIONAL store. -/
def freshReplies : List ThreadEvent → List Bool
  | [] => []
  | .storedOperational :: _ => []
  | .replyCounted healthy :: earlier =>
      if stale earlier then freshReplies earlier else healthy :: freshReplies earlier
  | _ :: earlier => freshReplies earlier

/-- A cycle about to store RECOVERING again for the AL trigger has collected
three unhealthy replies since the recovery, its own among them. -/
def RelapseJustified (s : Threads) (history : List ThreadEvent) : Prop :=
  match s.bus with
  | .storeRecovering record =>
      s.inst.recoveryAlTrigger ≠ 0 → .storedOperational ∈ history →
        ecatAlFaultThreshold ≤ (freshReplies history).count false ∧ record.poll = some false
  | _ => True

instance (s : Threads) (history : List ThreadEvent) : Decidable (RelapseJustified s history) :=
  match s with
  | ⟨_, .storeRecovering _, _⟩ => inferInstanceAs (Decidable (_ → _ → _ ∧ _))
  | ⟨_, .idle, _⟩ => isTrue trivial
  | ⟨_, .exchange _, _⟩ => isTrue trivial
  | ⟨_, .collect _ _, _⟩ => isTrue trivial
  | ⟨_, .countReply _ _ _, _⟩ => isTrue trivial
  | ⟨_, .countWkc _ _, _⟩ => isTrue trivial
  | ⟨_, .storeTrigger _ _, _⟩ => isTrue trivial

/-- The first cycle after a recovery finds the AL fault counter cleared. -/
def ResumesClean : Transition.Guard Threads ThreadAction ThreadEvent
  | s, history, .bus _ =>
      s.bus = .idle → stale history = true → s.inst.consecutiveAlFaults = 0
  | _, _, .monitor _ _ => True

instance (s : Threads) (history : List ThreadEvent) (action : ThreadAction) :
    Decidable (ResumesClean s history action) :=
  match action with
  | .bus _ => inferInstanceAs (Decidable (_ → _))
  | .monitor _ _ => isTrue trivial

/-! ## The invariant -/

/-- A cycle that read OPERATIONAL began after the last recovery; one that did
not and now finds OPERATIONAL began before it. -/
def CyclePhase (state : BusState) (inst : Instance) (history : List ThreadEvent) : Prop :=
  (state = .operational → stale history = false) ∧
    (state ≠ .operational → inst.busState = .operational → stale history = true)

def BusPhase (bus : BusPc) (inst : Instance) (history : List ThreadEvent) : Prop :=
  match bus with
  | .idle => inst.busState = .operational → stale history = false →
      inst.consecutiveAlFaults < ecatAlFaultThreshold
  | .exchange state => CyclePhase state inst history ∧
      (state = .operational → inst.consecutiveAlFaults < ecatAlFaultThreshold)
  | .collect state _ => CyclePhase state inst history ∧
      (state = .operational → inst.consecutiveAlFaults < ecatAlFaultThreshold)
  | .countReply state input healthy => CyclePhase state inst history ∧
      input.poll.map (replyHealthy inst) = some healthy ∧
      (ecatAlFaultThreshold ≤ inst.consecutiveAlFaults → healthy = false)
  | .countWkc state input => CyclePhase state inst history ∧
      (state = .operational → ecatAlFaultThreshold ≤ inst.consecutiveAlFaults →
        input.poll.map (replyHealthy inst) = some false)
  | .storeTrigger record _ | .storeRecovering record => record.began = .operational ∧
      ∀ value, record.trigger = some value → value ≠ 0 →
        ecatAlFaultThreshold ≤ (freshReplies history).count false ∧ record.poll = some false

structure RelapseInv (s : Threads) (history : List ThreadEvent) : Prop where
  fresh : stale history = false →
    s.inst.consecutiveAlFaults ≤ (s.bus.pendingReply ++ freshReplies history).count false
  phase : BusPhase s.bus s.inst history

/-- A cycle begins with the counter cleared or with the streak of fresh replies. -/
theorem RelapseInv.began {inst : Instance} {monitor : MonitorPc} {history : List ThreadEvent}
    (inv : RelapseInv ⟨inst, .idle, monitor⟩ history)
    (clean : stale history = true → inst.consecutiveAlFaults = 0) :
    RelapseInv ⟨inst, .exchange inst.busState, monitor⟩
      (.cycleBegan inst.busState :: history) := by
  obtain ⟨fresh, phase⟩ := inv
  cases old : stale history with
  | true =>
      have zero := clean old
      refine ⟨?_, ⟨fun _ => rfl, fun other same => absurd same other⟩, ?_⟩
      · intro _
        change inst.consecutiveAlFaults ≤ _
        rw [zero]
        exact Nat.zero_le _
      · intro _
        change inst.consecutiveAlFaults < _
        rw [zero]
        decide
  | false =>
      refine ⟨fun _ => fresh old, ⟨fun _ => rfl, fun other same => absurd same other⟩, ?_⟩
      intro operational
      exact phase operational old

/-- A reply that is recorded and not counted yet is pending. -/
theorem RelapseInv.recorded {inst : Instance} {monitor : MonitorPc} {state : BusState}
    {input : CycleInput} {history : List ThreadEvent} {reply : AlReply}
    (inv : RelapseInv ⟨inst, .collect state input, monitor⟩ history)
    (answered : input.poll = some reply) :
    RelapseInv ⟨recordAlReply inst reply, .countReply state input (replyHealthy inst reply),
      monitor⟩ history := by
  obtain ⟨fresh, phase⟩ := inv
  obtain ⟨sameState, _, _, _, sameContext⟩ := recordAlReply_control inst reply
  have sameHealth : input.poll.map (replyHealthy (recordAlReply inst reply)) =
      some (replyHealthy inst reply) := by
    simp only [answered, Option.map_some, replyHealthy, sameContext]
  have cyclePhase : CyclePhase state (recordAlReply inst reply) history := by
    refine ⟨phase.1.1, ?_⟩
    rw [sameState]
    exact phase.1.2
  rcases recordAlReply_cases inst reply with ⟨healthy, zero, _⟩ | ⟨faulty, more, _⟩
  · refine ⟨?_, cyclePhase, sameHealth, ?_⟩
    · intro _
      change (recordAlReply inst reply).consecutiveAlFaults ≤ _
      rw [zero]
      exact Nat.zero_le _
    · intro many
      rw [zero] at many
      exact absurd many (by decide)
  · refine ⟨?_, cyclePhase, sameHealth, fun _ => faulty⟩
    intro current
    have before := fresh current
    change (recordAlReply inst reply).consecutiveAlFaults ≤
      (replyHealthy inst reply :: freshReplies history).count false
    rw [more, faulty, List.count_cons_self]
    exact Nat.succ_le_succ before

theorem busMove_relapse {s next : Threads} {history events : List ThreadEvent}
    (inv : RelapseInv s history)
    (clean : s.bus = .idle → stale history = true → s.inst.consecutiveAlFaults = 0)
    (move : BusMove s next events) : RelapseInv next (events ++ history) := by
  obtain ⟨fresh, phase⟩ := inv
  cases move with
  | rest => exact ⟨fresh, phase⟩
  | begin exchanging =>
      have before : RelapseInv _ history := ⟨fresh, phase⟩
      exact before.began (clean rfl)
  | exchange iomap data input => exact ⟨fresh, phase⟩
  | miss missed =>
      refine ⟨fresh, phase.1, ?_⟩
      intro operational many
      exact absurd (phase.2 operational) (Nat.not_lt.mpr many)
  | record reply answered =>
      have before : RelapseInv _ history := ⟨fresh, phase⟩
      exact before.recorded answered
  | @countReply inst monitor state input healthy =>
      refine ⟨?_, phase.1, ?_⟩
      · intro current
        have before := fresh current
        change inst.consecutiveAlFaults ≤ (freshReplies (.replyCounted healthy :: history)).count
          false
        have notStale : ¬ stale history = true := by
          rw [show stale history = false from current]
          simp
        rw [freshReplies, if_neg notStale]
        exact before
      · intro _ many
        change input.poll.map (replyHealthy inst) = some false
        rw [phase.2.1, phase.2.2 many]
  | @finish inst monitor state input data calm =>
      refine ⟨fresh, ?_⟩
      intro operational current
      by_cases began : state = .operational
      · subst began
        exact (recoveryTrigger_calm inst _ calm).2
      · have old : stale history = true := phase.1.2 began operational
        have new : stale history = false := current
        rw [old] at new
        cases new
  | @trigger inst monitor state input data value triggered =>
      have began := recoveryTrigger_operational inst state _ value triggered
      refine ⟨fresh, began, ?_⟩
      intro found same nonzero
      have isValue : value = found := Option.some.inj same
      subst isValue
      have many := recoveryTrigger_nonzero inst state _ value triggered nonzero
      exact ⟨le_trans many (fresh (phase.1.1 began)), phase.2 began many⟩
  | storeTrigger => exact ⟨fresh, phase⟩
  | storeRecovering =>
      refine ⟨fresh, ?_⟩
      intro operational
      cases operational

/-- The phase reads the state, the fault counter, the slave count and the two
views of the history. -/
theorem BusPhase.frame {bus : BusPc} {before after : Instance}
    {history later : List ThreadEvent} (phase : BusPhase bus before history)
    (state : after.busState = before.busState)
    (faults : after.consecutiveAlFaults = before.consecutiveAlFaults)
    (context : after.ecxContext = before.ecxContext)
    (sameStale : stale later = stale history)
    (sameReplies : freshReplies later = freshReplies history) : BusPhase bus after later := by
  have sameHealth : replyHealthy after = replyHealthy before := by
    funext reply
    simp only [replyHealthy, context]
  simpa only [BusPhase, CyclePhase, state, faults, sameHealth, sameStale, sameReplies] using phase

/-- A cycle in progress when the monitor stores OPERATIONAL did not read it. -/
theorem BusPhase.resume {bus : BusPc} {inst after : Instance} {history later : List ThreadEvent}
    (phase : BusPhase bus inst history)
    (notRead : bus.readState ≠ some .operational)
    (faults : after.consecutiveAlFaults = inst.consecutiveAlFaults)
    (context : after.ecxContext = inst.ecxContext)
    (resumed : stale later = true) : BusPhase bus after later := by
  have sameHealth : replyHealthy after = replyHealthy inst := by
    funext reply
    simp only [replyHealthy, context]
  have cyclePhase : ∀ state, state ≠ .operational → CyclePhase state after later :=
    fun state other => ⟨fun same => absurd same other, fun _ _ => resumed⟩
  cases bus with
  | idle =>
      intro _ current
      rw [resumed] at current
      cases current
  | exchange state =>
      have other : state ≠ .operational := fun same => notRead (congrArg some same)
      exact ⟨cyclePhase state other, fun same => absurd same other⟩
  | collect state input =>
      have other : state ≠ .operational := fun same => notRead (congrArg some same)
      exact ⟨cyclePhase state other, fun same => absurd same other⟩
  | countReply state input healthy =>
      have other : state ≠ .operational := fun same => notRead (congrArg some same)
      refine ⟨cyclePhase state other, ?_, ?_⟩
      · rw [sameHealth]
        exact phase.2.1
      · rw [faults]
        exact phase.2.2
  | countWkc state input =>
      have other : state ≠ .operational := fun same => notRead (congrArg some same)
      exact ⟨cyclePhase state other, fun same => absurd same other⟩
  | storeTrigger record value => exact absurd (congrArg some phase.1) notRead
  | storeRecovering record => exact absurd (congrArg some phase.1) notRead

theorem monitorMove_relapse {s next : Threads} {history events : List ThreadEvent}
    (owned : OwnershipInv s history) (inv : RelapseInv s history)
    (move : MonitorMove s next events) : RelapseInv next (events ++ history) := by
  obtain ⟨fresh, phase⟩ := inv
  cases move with
  | @storeOperational inst bus seen =>
      have recovering : inst.busState = .recovering := owned.phase.1
      have notRead : bus.readState ≠ some .operational := by
        intro read
        have operational : inst.busState = .operational := owned.busOwns read
        rw [recovering] at operational
        cases operational
      refine ⟨?_, phase.resume notRead rfl rfl rfl⟩
      intro current
      cases current
  | @storeError inst bus seen =>
      have recovering : inst.busState = .recovering := owned.phase.1
      refine ⟨fresh, ?_⟩
      have toError : ∀ state, CyclePhase state inst history →
          CyclePhase state { inst with busState := .error } (.storedError :: history) :=
        fun _ old => ⟨old.1, fun _ operational => by cases operational⟩
      cases bus with
      | idle =>
          intro operational
          cases operational
      | exchange state => exact ⟨toError state phase.1, phase.2⟩
      | collect state input => exact ⟨toError state phase.1, phase.2⟩
      | countReply state input healthy => exact ⟨toError state phase.1, phase.2⟩
      | countWkc state input => exact ⟨toError state phase.1, phase.2⟩
      | storeTrigger record value => exact phase
      | storeRecovering record => exact phase
  | _ => exact ⟨fresh, phase.frame rfl rfl rfl rfl rfl⟩

theorem reaches_relapse {masterIndex : Nat} {inst : Instance} {s : Threads}
    {history : List ThreadEvent} (started : Started inst)
    (reached : Transition.Reaches (threadStep masterIndex) ResumesClean (threadsOf inst)
      s history) :
    RelapseInv s history := by
  induction reached with
  | start =>
      refine ⟨?_, ?_⟩
      · intro _
        simp [threadsOf, started.consecutiveAlFaults]
      · intro _ _
        simp [threadsOf, started.consecutiveAlFaults, ecatAlFaultThreshold]
  | @next state next history events action before allowed move ih =>
      have owned := reaches_ownership started before
      cases action with
      | bus input =>
          have busMove := busStep_move masterIndex state next input events (Option.some.inj move)
          exact busMove_relapse ih allowed busMove
      | monitor states failures =>
          have monitorMove := monitorStep_move state next states failures events
            (Option.some.inj move)
          exact monitorMove_relapse owned ih monitorMove

/-- A finished recovery starts fresh for the AL trigger as long as every first
cycle after one finds the fault counter cleared. -/
theorem relapse_needs_fresh_faults (masterIndex : Nat) (inst : Instance) (started : Started inst)
    (s : Threads) (history : List ThreadEvent)
    (reached : Transition.Reaches (threadStep masterIndex) ResumesClean (threadsOf inst)
      s history) : RelapseJustified s history := by
  have inv := reaches_relapse started reached
  have trigger := reaches_trigger started reached
  unfold RelapseJustified
  split
  · rename_i record storing
    intro nonzero _
    have phase := inv.phase
    rw [storing] at phase
    exact phase.2 _ (trigger.stored record storing) nonzero
  · trivial

/-- Three faulty replies, a healthy one while recovering, a recovery, and three
faulty replies again. -/
theorem relapse_needs_fresh_faults_fake :
    ∃ s history, Transition.Reaches (threadStep 0) ResumesClean (threadsOf fakeStarted)
        s history ∧
      s.bus = .storeRecovering ⟨.operational, false, some false, some 0x10004⟩ ∧
      .storedOperational ∈ history ∧
      ecatAlFaultThreshold ≤ (freshReplies history).count false := by
  obtain ⟨s, history, reached, storing, trigger, recovered⟩ := Transition.exists_of_execute
    (threadStep 0) ResumesClean (threadsOf fakeStarted)
    (List.replicate 17 (.bus (quietCycle 3 (some faultyReply))) ++
      List.replicate 5 (.bus (quietCycle 3 (some healthyReply))) ++
      List.replicate 7 (.monitor [8] 0) ++
      List.replicate 16 (.bus (quietCycle 3 (some faultyReply))))
    (fun s history => s.bus = .storeRecovering ⟨.operational, false, some false, some 0x10004⟩ ∧
      s.inst.recoveryAlTrigger ≠ 0 ∧ .storedOperational ∈ history) (by decide +kernel)
  have justified := relapse_needs_fresh_faults 0 fakeStarted fakeStarted_started s history reached
  rw [RelapseJustified, storing] at justified
  exact ⟨s, history, reached, storing, recovered, (justified trigger recovered).1⟩

/-- Three faulty replies, a recovery, and one missed poll: RECOVERING again. -/
theorem missed_poll_relapses :
    ¬ ∀ (masterIndex : Nat) (inst : Instance), Started inst → ∀ s history,
      Transition.Reaches (threadStep masterIndex) Transition.anyStep (threadsOf inst) s history →
        RelapseJustified s history := by
  intro always
  obtain ⟨s, history, reached, relapse⟩ := Transition.exists_of_execute (threadStep 0)
    Transition.anyStep (threadsOf fakeStarted)
    (List.replicate 17 (.bus (quietCycle 3 (some faultyReply))) ++
      List.replicate 7 (.monitor [8] 0) ++ List.replicate 5 (.bus (quietCycle 3 none)))
    (fun s history => ¬ RelapseJustified s history) (by decide +kernel)
  exact relapse (always 0 fakeStarted fakeStarted_started s history reached)

end EtherDog
