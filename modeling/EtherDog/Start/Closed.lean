import EtherDog.Start.Configured
import EtherDog.Bus.Supervision

/-!
# What a failed start leaves

A start also tunes the interface: `ecat_master_open_and_scan` applies the
tuning first, and `ecat_master_close`, which every exit before the threads
calls, reverts it.  The two exits after a failed `pthread_create` do not close
the master.
-/

set_option autoImplicit false

namespace EtherDog

/-- What `start_single_master` leaves: the master, the state of its interface,
the settings asked for on the way and whether it returned 0. -/
structure StartResult where
  master : Master
  iface : EcatIfaceState
  settings : List NicSetting
  ok : Bool
  deriving DecidableEq, Repr

section Start

variable (host : FloatLayout) (config : EcatConfig) (oracle : Oracle)

def startWithIface (m : Master) (iface : EcatIfaceState) (fresh : Nat) : StartResult :=
  let outcome := startOutcome host config oracle
  let (after, ok, _) := startSingleMaster m fresh outcome
  if m.inst.config.slaves = [] then ⟨after, iface, [], ok⟩
  else
    let (applied, tuned) := ecatIfaceStateApply iface config.master.interface oracle.nic
    if (bringUp m.inst outcome).2 then ⟨after, applied, tuned, ok⟩
    else
      -- every exit before the threads goes through `ecat_master_close`
      let (reverted, restored) := ecatIfaceStateRevert applied
      ⟨after, reverted, tuned ++ restored, ok⟩

structure Quiet (m : Master) : Prop where
  busThreads : m.busThreads = []
  monitorThreads : m.monitorThreads = []
  busRunning : m.inst.busRunning = false
  monitorRunning : m.inst.monitorRunning = false

/-- A master that a start can be tried on again. -/
structure LeftClosed (iface : EcatIfaceState) (result : StartResult) : Prop where
  clean : Clean result.master
  busState : result.master.inst.busState = .error
  iomap : result.master.inst.iomap = none
  snapshot : result.master.inst.slavesSnapshot = none
  reverted : result.iface.Reverted
  /-- the last settings asked for are those in force before the tuning -/
  restored : (ecatIfaceStateRevert
    (ecatIfaceStateApply iface config.master.interface oracle.nic).1).2 <:+ result.settings

end Start

section Results

variable {host : FloatLayout} {config : EcatConfig} {oracle : Oracle} {m : Master}

/-- A start that fails before its threads closes the master and leaves the
threads as they were. -/
theorem startWithIface_aborted (iface : EcatIfaceState) (fresh : Nat)
    (slaves : m.inst.config.slaves ≠ [])
    (failed : (bringUp m.inst (startOutcome host config oracle)).2 = false) :
    (startWithIface host config oracle m iface fresh).ok = false ∧
      (LeftClosed config oracle iface (startWithIface host config oracle m iface fresh) ↔
        Quiet m) := by
  rcases bringUp_cases m.inst (startOutcome host config oracle) with
    ⟨_, aborted, result, threads, _⟩ | ⟨_, _, _, _, _, _, _, _, _, result⟩
  · have flags : aborted.busRunning = m.inst.busRunning ∧
        aborted.monitorRunning = m.inst.monitorRunning := by
      simp only [threadFlags, Prod.mk.injEq] at threads
      exact ⟨threads.1, threads.2.1⟩
    have started : startWithIface host config oracle m iface fresh =
        ⟨{ m with inst := abortStart aborted },
          (ecatIfaceStateRevert
            (ecatIfaceStateApply iface config.master.interface oracle.nic).1).1,
          (ecatIfaceStateApply iface config.master.interface oracle.nic).2 ++
            (ecatIfaceStateRevert
              (ecatIfaceStateApply iface config.master.interface oracle.nic).1).2, false⟩ := by
      simp only [startWithIface, startSingleMaster, if_neg slaves, result, Bool.false_eq_true,
        if_false]
    rw [started]
    refine ⟨rfl, ?_, ?_⟩
    · intro closed
      exact ⟨closed.clean.busThreads, closed.clean.monitorThreads,
        flags.1.symm.trans closed.clean.busRunning,
        flags.2.symm.trans closed.clean.monitorRunning⟩
    · intro quiet
      exact
        { clean := ⟨rfl, quiet.busThreads, quiet.monitorThreads, flags.1.trans quiet.busRunning,
            flags.2.trans quiet.monitorRunning⟩
          busState := rfl
          iomap := rfl
          snapshot := rfl
          reverted := ifaceStateRevert_reverted _
          restored := List.suffix_append _ _ }
  · rw [result] at failed
    simp at failed

/-- A start that reaches its threads leaves the context open and returns 0 if
and only if both are created. -/
theorem startWithIface_reached (iface : EcatIfaceState) (fresh : Nat)
    (slaves : m.inst.config.slaves ≠ [])
    (passed : (bringUp m.inst (startOutcome host config oracle)).2 = true) :
    (startWithIface host config oracle m iface fresh).master.inst.soemInitialized = true ∧
      ((startWithIface host config oracle m iface fresh).ok = true ↔
        oracle.monitorCreated = true ∧ oracle.busCreated = true) := by
  have ready : StartReady m.inst (bringUp m.inst (startOutcome host config oracle)).1 := by
    rcases bringUp_spec m.inst (startOutcome host config oracle) with ⟨failed, _⟩ | ⟨_, ready⟩
    · simp [passed] at failed
    · exact ready
  have isOpen := ready.isOpen
  cases brought : bringUp m.inst (startOutcome host config oracle) with
  | mk inst ok =>
  rw [brought] at passed isOpen
  subst passed
  have monitorAnswer :
      (startOutcome host config oracle).monitorCreated = oracle.monitorCreated := rfl
  have busAnswer : (startOutcome host config oracle).busCreated = oracle.busCreated := rfl
  simp only [startWithIface, startSingleMaster, if_neg slaves, brought, if_true, monitorAnswer,
    busAnswer]
  cases monitor : oracle.monitorCreated with
  | false => exact ⟨isOpen, by simp⟩
  | true =>
      cases bus : oracle.busCreated with
      | false => exact ⟨isOpen, by simp⟩
      | true => exact ⟨isOpen, by simp⟩

/-- A failed start leaves the master closed if and only if its threads are
created once the phases have passed, and none ran before it where one of them
has not. -/
theorem failed_start_closed_iff (host : FloatLayout) (config : EcatConfig) (oracle : Oracle)
    (m : Master) (iface : EcatIfaceState) (fresh : Nat) (slaves : config.slaveList ≠ [])
    (same : m.inst.config = config.summary) :
    ((startWithIface host config oracle m iface fresh).ok = false →
        LeftClosed config oracle iface (startWithIface host config oracle m iface fresh)) ↔
      (PhasesPass host config oracle →
        oracle.monitorCreated = true ∧ oracle.busCreated = true) ∧
      (¬ PhasesPass host config oracle → Quiet m) := by
  have configured : m.inst.config.slaves ≠ [] := by
    rw [same]
    simpa [EcatConfig.summary] using slaves
  rw [← bringUp_startOutcome_iff same]
  cases brought : (bringUp m.inst (startOutcome host config oracle)).2 with
  | false =>
      obtain ⟨failed, closedIff⟩ := startWithIface_aborted iface fresh configured brought
      simp [failed, closedIff]
  | true =>
      obtain ⟨stillOpen, created⟩ := startWithIface_reached iface fresh configured brought
      have notClosed : ¬ LeftClosed config oracle iface
          (startWithIface host config oracle m iface fresh) := by
        intro closed
        simp [closed.clean.closed] at stillOpen
      simp only [notClosed, imp_false, Bool.not_eq_false, created, true_imp_iff,
        not_true_eq_false, false_imp_iff, and_true]

end Results

/-- A device that stays in PRE_OP after the mapping. -/
def stuckOracle : Oracle := { fixedOracle 1 with safeOpState := ecStatePreOp }

theorem failed_start_closed_stuck :
    .safeOpRead ecStatePreOp ∈
        (startTrail zeroFloats (parsedConfig [fixedSlave "0x1A00"]) stuckOracle).events ∧
      LeftClosed (parsedConfig [fixedSlave "0x1A00"]) stuckOracle zeroIfaceState
        (startWithIface zeroFloats (parsedConfig [fixedSlave "0x1A00"]) stuckOracle
          (freshMaster (parsedConfig [fixedSlave "0x1A00"]).summary) zeroIfaceState 0) := by
  refine ⟨by decide +kernel, ?_⟩
  apply (failed_start_closed_iff zeroFloats (parsedConfig [fixedSlave "0x1A00"]) stuckOracle
    (freshMaster (parsedConfig [fixedSlave "0x1A00"]).summary) zeroIfaceState 0
    (by decide +kernel) rfl).mpr
  · exact ⟨fun _ => ⟨rfl, rfl⟩, fun _ => ⟨rfl, rfl, rfl, rfl⟩⟩
  · decide +kernel

/-- Without a monitor thread the start returns -1 on an open master. -/
theorem monitor_failure_leaves_open :
    ¬ ∀ (host : FloatLayout) (config : EcatConfig) (oracle : Oracle) (m : Master)
        (iface : EcatIfaceState) (fresh : Nat),
        config.slaveList ≠ [] → m.inst.config = config.summary →
        (startWithIface host config oracle m iface fresh).ok = false →
        LeftClosed config oracle iface (startWithIface host config oracle m iface fresh) := by
  intro always
  have closed := always zeroFloats (parsedConfig [fixedSlave "0x1A00"])
    { fixedOracle 1 with monitorCreated := false }
    (freshMaster (parsedConfig [fixedSlave "0x1A00"]).summary) zeroIfaceState 0
    (by decide +kernel) rfl (by decide +kernel)
  have isOpen : (startWithIface zeroFloats (parsedConfig [fixedSlave "0x1A00"])
      { fixedOracle 1 with monitorCreated := false }
      (freshMaster (parsedConfig [fixedSlave "0x1A00"]).summary)
      zeroIfaceState 0).master.inst.soemInitialized = true := by
    decide +kernel
  simp [closed.clean.closed] at isOpen

end EtherDog
