import EtherDog.Bus.Ownership

/-!
# When the bus thread asks for a recovery

The two streak counters are compared with the streaks in the history.  The
monitor's reset can only shorten `consecutive_wkc_errors`, so the counter never
exceeds the streak of failed cycles; and it resets in RECOVERING only, so the
counter is not behind the cycles that began in OPERATIONAL since the monitor's
last store.  `consecutive_al_faults` belongs to the bus thread alone and is the
exact streak of unhealthy replies.
-/

set_option autoImplicit false

namespace EtherDog

def cycles : List ThreadEvent → List CycleRecord
  | [] => []
  | .cycleEnded record :: earlier => record :: cycles earlier
  | _ :: earlier => cycles earlier

def replies : List ThreadEvent → List Bool
  | [] => []
  | .replyCounted healthy :: earlier => healthy :: replies earlier
  | _ :: earlier => replies earlier

/-- How many of the latest cycles all read OPERATIONAL and failed, with no
OPERATIONAL stored by the monitor among them. -/
def operationalStreak : List ThreadEvent → Nat
  | [] => 0
  | .cycleEnded record :: earlier =>
      if record.began = .operational ∧ record.wkcError = true then operationalStreak earlier + 1
      else 0
  | .storedOperational :: _ => 0
  | _ :: earlier => operationalStreak earlier

def errorStreak (records : List CycleRecord) : Nat :=
  (records.takeWhile CycleRecord.wkcError).length

def faultStreak (healths : List Bool) : Nat := (healths.takeWhile (! ·)).length

/-- A reply that is recorded but not yet counted. -/
def BusPc.pendingReply : BusPc → List Bool
  | .countReply _ _ healthy => [healthy]
  | _ => []

theorem take_of_streak {α : Type} (p : α → Bool) (values : List α) (count : Nat)
    (streak : count ≤ (values.takeWhile p).length) :
    (values.take count).map p = List.replicate count true := by
  induction values generalizing count with
  | nil =>
      have none : count = 0 := by simpa using streak
      simp [none]
  | cons value rest ih =>
      cases count with
      | zero => rfl
      | succ count =>
          by_cases holds : p value = true
          · rw [List.takeWhile_cons_of_pos holds, List.length_cons] at streak
            rw [List.take_succ_cons, List.map_cons, holds, ih count (by omega),
              List.replicate_succ]
          · rw [List.takeWhile_cons_of_neg holds] at streak
            simp at streak

/-! ## The trigger -/

theorem alTrigger_ne_zero (status : UInt16) : (0x10000 ||| status.toUInt32 : UInt32) ≠ 0 := by
  intro zero
  have bits := congrArg UInt32.toNat zero
  rw [UInt32.toNat_or] at bits
  have both := Nat.or_eq_zero_iff.mp bits
  exact absurd both.1 (by decide)

theorem recoveryTrigger_zero (inst : Instance) (state : BusState) (consec : Nat)
    (triggered : recoveryTrigger inst state consec = some 0) : ecatWkcErrorThreshold ≤ consec := by
  unfold recoveryTrigger at triggered
  split at triggered
  · rename_i wkc
    exact wkc.2
  · split at triggered
    · exact absurd (Option.some.inj triggered) (alTrigger_ne_zero _)
    · simp at triggered

theorem recoveryTrigger_nonzero (inst : Instance) (state : BusState) (consec : Nat)
    (value : UInt32) (triggered : recoveryTrigger inst state consec = some value)
    (nonzero : value ≠ 0) : ecatAlFaultThreshold ≤ inst.consecutiveAlFaults := by
  unfold recoveryTrigger at triggered
  split at triggered
  · exact absurd (Option.some.inj triggered).symm nonzero
  · split at triggered
    · rename_i al
      exact al.2
    · simp at triggered

theorem recoveryTrigger_calm (inst : Instance) (consec : Nat)
    (calm : recoveryTrigger inst .operational consec = none) :
    consec < ecatWkcErrorThreshold ∧ inst.consecutiveAlFaults < ecatAlFaultThreshold := by
  unfold recoveryTrigger at calm
  split at calm
  · simp at calm
  · rename_i fewErrors
    split at calm
    · simp at calm
    · rename_i fewFaults
      simp only [true_and, ge_iff_le, not_le] at fewErrors fewFaults
      exact ⟨fewErrors, fewFaults⟩

/-! ## The counters and the streaks -/

structure TriggerInv (s : Threads) (history : List ThreadEvent) : Prop where
  /-- the counter does not fabricate a streak -/
  sound : s.inst.consecutiveWkcErrors ≤
    errorStreak (s.bus.storing.toList ++ cycles history)
  /-- the counter does not hide a streak -/
  complete : s.inst.busState = .operational → s.bus.storing = none →
    operationalStreak history ≤ s.inst.consecutiveWkcErrors
  faults : s.inst.consecutiveAlFaults = faultStreak (s.bus.pendingReply ++ replies history)
  byWkc : ∀ record, s.bus.storing = some record → record.trigger = some 0 →
    ecatWkcErrorThreshold ≤ errorStreak (record :: cycles history)
  byAl : ∀ record value, s.bus.storing = some record → record.trigger = some value →
    value ≠ 0 → ecatAlFaultThreshold ≤ faultStreak (replies history)
  stored : ∀ record, s.bus = .storeRecovering record →
    record.trigger = some s.inst.recoveryAlTrigger
  toStore : ∀ record value, s.bus = .storeTrigger record value → record.trigger = some value

/-- Where no cycle is about to end in RECOVERING only the counters matter. -/
theorem TriggerInv.of_idle {s : Threads} {history : List ThreadEvent}
    (idle : s.bus.storing = none)
    (sound : s.inst.consecutiveWkcErrors ≤ errorStreak (cycles history))
    (complete : s.inst.busState = .operational →
      operationalStreak history ≤ s.inst.consecutiveWkcErrors)
    (faults : s.inst.consecutiveAlFaults =
      faultStreak (s.bus.pendingReply ++ replies history)) : TriggerInv s history where
  sound := by
    rw [idle]
    exact sound
  complete := fun operational _ => complete operational
  faults := faults
  byWkc := by simp [idle]
  byAl := by simp [idle]
  stored := by
    intro record same
    simp [same, BusPc.storing] at idle
  toStore := by
    intro record value same
    simp [same, BusPc.storing] at idle

theorem consecAfter_le_streak (inst : Instance) (input : CycleInput) (record : CycleRecord)
    (records : List CycleRecord) (same : record.wkcError = wkcError inst input)
    (sound : inst.consecutiveWkcErrors ≤ errorStreak records) :
    consecAfter inst input ≤ errorStreak (record :: records) := by
  unfold consecAfter
  split
  · rename_i failed
    have isError : record.wkcError = true := same.trans failed
    rw [errorStreak, List.takeWhile_cons_of_pos isError, List.length_cons]
    exact Nat.succ_le_succ sound
  · exact Nat.zero_le _

theorem recordAlReply_faults (inst : Instance) (reply : AlReply) (healths : List Bool)
    (exactly : inst.consecutiveAlFaults = faultStreak healths) :
    (recordAlReply inst reply).consecutiveAlFaults =
      faultStreak (replyHealthy inst reply :: healths) := by
  unfold recordAlReply
  dsimp only
  split
  · rename_i healthy
    simp [faultStreak, healthy]
  · rename_i faulty
    simp only [Bool.not_eq_true] at faulty
    simp only [faultStreak, faulty, Bool.not_false, List.takeWhile_cons_of_pos, List.length_cons,
      exactly]

theorem busMove_trigger {s next : Threads} {history events : List ThreadEvent}
    (inv : TriggerInv s history) (move : BusMove s next events) :
    TriggerInv next (events ++ history) := by
  obtain ⟨sound, complete, faults, byWkc, byAl, stored, toStore⟩ := inv
  cases move with
  | rest => exact ⟨sound, complete, faults, byWkc, byAl, stored, toStore⟩
  | begin exchanging => exact .of_idle rfl sound (fun operational => complete operational rfl) faults
  | exchange iomap data input =>
      exact .of_idle rfl sound (fun operational => complete operational rfl) faults
  | miss missed => exact .of_idle rfl sound (fun operational => complete operational rfl) faults
  | @record inst monitor state input reply answered =>
      obtain ⟨sameState, _, sameErrors, _⟩ := recordAlReply_control inst reply
      refine .of_idle rfl ?_ ?_ (recordAlReply_faults inst reply _ faults)
      · rw [sameErrors]
        exact sound
      · rw [sameState, sameErrors]
        exact fun operational => complete operational rfl
  | countReply => exact .of_idle rfl sound (fun operational => complete operational rfl) faults
  | @finish inst monitor state input data calm =>
      refine .of_idle rfl (consecAfter_le_streak inst input _ _ rfl sound) ?_ faults
      intro operational
      change operationalStreak (.cycleEnded (cycleRecord inst state input none) :: history) ≤
        consecAfter inst input
      rw [operationalStreak]
      split
      · rename_i failed
        have isError : wkcError inst input = true := failed.2
        rw [consecAfter, if_pos isError]
        exact Nat.succ_le_succ (complete operational rfl)
      · exact Nat.zero_le _
  | @trigger inst monitor state input data value triggered =>
      have streak := consecAfter_le_streak inst input
        (cycleRecord inst state input (some value)) (cycles history) rfl sound
      refine ⟨streak, by simp [BusPc.storing], faults, ?_, ?_, by simp, ?_⟩
      · intro record storing zero
        cases Option.some.inj storing
        have isZero : value = 0 := Option.some.inj zero
        subst isZero
        exact le_trans (recoveryTrigger_zero inst state _ triggered) streak
      · intro record found storing same nonzero
        cases Option.some.inj storing
        have isValue : value = found := Option.some.inj same
        subst isValue
        have reachedThreshold := recoveryTrigger_nonzero inst state _ value triggered nonzero
        rw [faults] at reachedThreshold
        exact reachedThreshold
      · intro record found same
        cases same
        rfl
  | storeTrigger =>
      refine ⟨sound, by simp [BusPc.storing], faults, byWkc, byAl, ?_, by simp⟩
      intro record same
      cases same
      exact toStore _ _ rfl
  | storeRecovering =>
      refine .of_idle rfl sound ?_ faults
      intro operational
      cases operational

theorem monitorMove_trigger {s next : Threads} {history events : List ThreadEvent}
    (owned : OwnershipInv s history) (inv : TriggerInv s history)
    (move : MonitorMove s next events) : TriggerInv next (events ++ history) := by
  obtain ⟨sound, complete, faults, byWkc, byAl, stored, toStore⟩ := inv
  cases move with
  | @resetWkc inst bus seen =>
      refine ⟨Nat.zero_le _, ?_, faults, byWkc, byAl, stored, toStore⟩
      intro operational _
      have recovering : inst.busState = .recovering := owned.phase.1
      rw [recovering] at operational
      cases operational
  | storeOperational =>
      exact ⟨sound, fun _ _ => Nat.zero_le _, faults, byWkc, byAl, stored, toStore⟩
  | storeError => exact ⟨sound, by simp, faults, byWkc, byAl, stored, toStore⟩
  | _ => exact ⟨sound, complete, faults, byWkc, byAl, stored, toStore⟩

theorem reaches_trigger {masterIndex : Nat} {inst : Instance} {s : Threads}
    {history : List ThreadEvent} {guard : Transition.Guard Threads ThreadAction ThreadEvent}
    (started : Started inst)
    (reached : Transition.Reaches (threadStep masterIndex) guard (threadsOf inst) s history) :
    TriggerInv s history := by
  induction reached with
  | start =>
      refine .of_idle rfl ?_ (fun _ => Nat.zero_le _) ?_
      · simp [threadsOf, started.consecutiveWkcErrors]
      · simp [threadsOf, started.consecutiveAlFaults, BusPc.pendingReply, replies, faultStreak]
  | next action before _ move ih =>
      have owned := reaches_ownership started before
      rcases threadStep_move move with busMove | monitorMove
      · exact busMove_trigger ih busMove
      · exact monitorMove_trigger owned ih monitorMove

/-- The recovery trigger is sound and complete: RECOVERING is stored with a zero
trigger only after three failed cycles in a row and with another one only after
three unhealthy replies in a row; and three failed cycles in a row that began in
OPERATIONAL, with no OPERATIONAL stored among them, end in RECOVERING. -/
theorem recovery_trigger (masterIndex : Nat) (inst : Instance) (started : Started inst)
    (s : Threads) (history : List ThreadEvent)
    (reached : Transition.Reaches (threadStep masterIndex) Transition.anyStep (threadsOf inst)
      s history) :
    (∀ record, s.bus = .storeRecovering record →
      (s.inst.recoveryAlTrigger = 0 →
        ((record :: cycles history).take ecatWkcErrorThreshold).map CycleRecord.wkcError =
          List.replicate ecatWkcErrorThreshold true) ∧
      (s.inst.recoveryAlTrigger ≠ 0 →
        ((replies history).take ecatAlFaultThreshold).map (! ·) =
          List.replicate ecatAlFaultThreshold true)) ∧
    (∀ action next events record, threadStep masterIndex s action = some (next, events) →
      .cycleEnded record ∈ events →
      ecatWkcErrorThreshold ≤ operationalStreak (events ++ history) →
      next.inst.busState = .recovering) := by
  have inv := reaches_trigger started reached
  have owned := reaches_ownership started reached
  constructor
  · intro record storing
    have value := inv.stored record storing
    have isStoring : s.bus.storing = some record := by rw [storing]; rfl
    constructor
    · intro zero
      rw [zero] at value
      exact take_of_streak _ _ _ (inv.byWkc record isStoring value)
    · intro nonzero
      exact take_of_streak _ _ _ (inv.byAl record _ isStoring value nonzero)
  · intro action next events record move ended streak
    rcases threadStep_move move with busMove | monitorMove
    · cases busMove with
      | @finish inst monitor state input data calm =>
          exfalso
          change ecatWkcErrorThreshold ≤ operationalStreak
            (.cycleEnded (cycleRecord inst state input none) :: history) at streak
          rw [operationalStreak] at streak
          split at streak
          · rename_i failed
            have began : state = .operational := failed.1
            have isError : wkcError inst input = true := failed.2
            subst began
            have counted := inv.complete (owned.busOwns rfl) rfl
            have fewErrors := (recoveryTrigger_calm inst _ calm).1
            rw [consecAfter, if_pos isError] at fewErrors
            have bound : operationalStreak history ≤ inst.consecutiveWkcErrors := counted
            omega
          · simp [ecatWkcErrorThreshold] at streak
      | storeRecovering => rfl
      | _ => simp at ended
    · cases monitorMove <;> simp at ended

theorem recovery_trigger_fake :
    ∃ s history, Transition.Reaches (threadStep 0) Transition.anyStep (threadsOf fakeStarted)
        s history ∧
      ((⟨.operational, true, none, some 0⟩ :: cycles history).take 3).map CycleRecord.wkcError =
        [true, true, true] := by
  obtain ⟨s, history, reached, storing, zero⟩ := Transition.exists_of_execute (threadStep 0)
    Transition.anyStep (threadsOf fakeStarted)
    (List.replicate 13 (.bus (quietCycle 0 none)))
    (fun s _ => s.bus = .storeRecovering ⟨.operational, true, none, some 0⟩ ∧
      s.inst.recoveryAlTrigger = 0) (by decide +kernel)
  have sound := (recovery_trigger 0 fakeStarted fakeStarted_started s history reached).1
  exact ⟨s, history, reached, (sound _ storing).1 zero⟩

end EtherDog
