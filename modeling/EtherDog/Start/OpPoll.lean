import EtherDog.Start.UnitInts

/-!
# The OP poll and the SM watchdogs (src/master.c)

`ecat_master_configure_watchdog` clamps a watchdog to what its register holds.
`ecat_master_transition_to_op` takes a quarter of the smallest configured one, as it
stands in the configuration.  A tick of the register is 62.5 microseconds, so that
eight times the poll is held against 125 times the ticks.
-/

set_option autoImplicit false

namespace EtherDog

open CheckedRun Trail

/-- The configuration of the watchdogs writes these ticks for the slave. -/
def SmProgrammed (oracle : Oracle) (slave : EcatSlave) (ticks : UInt16) : Prop :=
  ∃ configadr wkc, .fpwr slave.position configadr smWatchdogRegister ticks wkc ∈
    (ecatMasterConfigureWatchdog oracle slave).events

/-- The poll is within a quarter of every watchdog that is programmed. -/
def PollFeeds (config : EcatConfig) (pollUs : Int) : Prop :=
  ∀ oracle, ∀ slave ∈ config.slaveList, ∀ ticks, SmProgrammed oracle slave ticks →
    8 * pollUs ≤ 125 * ticks.toNat

/-- Every programmed watchdog takes 8 ms or more. -/
def LongWatchdogs (config : EcatConfig) : Prop :=
  ∀ oracle, ∀ slave ∈ config.slaveList, ∀ ticks, SmProgrammed oracle slave ticks →
    2 * (4 * ecTimeoutRet) ≤ 125 * ticks.toNat

/-! ## What is programmed -/

theorem watchdogTicks_toNat {ms : Int} (positive : 0 < ms) :
    ((watchdogTicks ms).toNat : Int) = min ms maxWatchdogMs * 16 := by
  have low : 0 < min ms maxWatchdogMs := lt_min positive (by decide)
  have high : min ms maxWatchdogMs ≤ 4095 := min_le_right _ _
  rw [watchdogTicks, if_pos positive]
  generalize min ms maxWatchdogMs = clamped at low high ⊢
  rw [UInt16.ofInt, UInt16.toNat_ofNat']
  omega

theorem smProgrammed_iff (oracle : Oracle) (slave : EcatSlave) (ticks : UInt16) :
    SmProgrammed oracle slave ticks ↔
      (oracle.slave? slave.position).isSome = true ∧ slave.watchdog.smWatchdogEnabled = true ∧
        ticks = watchdogTicks slave.watchdog.smWatchdogMs := by
  unfold SmProgrammed ecatMasterConfigureWatchdog
  cases oracle.slave? slave.position with
  | none => simp
  | some found =>
      have registers : smWatchdogRegister ≠ pdiWatchdogRegister := by decide
      cases slave.watchdog.smWatchdogEnabled with
      | false =>
          cases slave.watchdog.pdiWatchdogEnabled with
          | false => simp [mem_andThen]
          | true => simp [mem_andThen, registers]
      | true =>
          cases slave.watchdog.pdiWatchdogEnabled with
          | false => simp [mem_andThen]
          | true => simp [mem_andThen, registers]

theorem minSmWatchdogUs_counts {slave : EcatSlave} (counts : WatchdogCounts slave)
    (rest : List EcatSlave) :
    minSmWatchdogUs (slave :: rest) =
      if minSmWatchdogUs rest = 0 then slave.watchdog.smWatchdogMs * 1000
      else min (slave.watchdog.smWatchdogMs * 1000) (minSmWatchdogUs rest) := by
  rw [minSmWatchdogUs]
  exact if_pos counts

theorem minSmWatchdogUs_ignored {slave : EcatSlave} (ignored : ¬ WatchdogCounts slave)
    (rest : List EcatSlave) : minSmWatchdogUs (slave :: rest) = minSmWatchdogUs rest := by
  rw [minSmWatchdogUs]
  exact if_neg ignored

/-- The smallest configured watchdog is the least of those that count. -/
theorem minSmWatchdogUs_spec (slaves : List EcatSlave) :
    ((∀ slave ∈ slaves, ¬ WatchdogCounts slave) ∧ minSmWatchdogUs slaves = 0) ∨
      ((∃ slave ∈ slaves, WatchdogCounts slave ∧
          minSmWatchdogUs slaves = slave.watchdog.smWatchdogMs * 1000) ∧
        ∀ slave ∈ slaves, WatchdogCounts slave →
          minSmWatchdogUs slaves ≤ slave.watchdog.smWatchdogMs * 1000) := by
  induction slaves with
  | nil => exact Or.inl ⟨by simp, rfl⟩
  | cons slave rest ih =>
      by_cases counts : WatchdogCounts slave
      · refine Or.inr ?_
        rw [minSmWatchdogUs_counts counts]
        rcases ih with ⟨none, zero⟩ | ⟨⟨least, listed, among, value⟩, below⟩
        · rw [if_pos zero]
          refine ⟨⟨slave, List.mem_cons_self, counts, rfl⟩, ?_⟩
          intro other member also
          rcases List.mem_cons.mp member with rfl | later
          · exact le_rfl
          · exact absurd also (none other later)
        · have nonzero : minSmWatchdogUs rest ≠ 0 := by
            have leastPositive := among.2
            omega
          rw [if_neg nonzero]
          constructor
          · rcases min_choice (slave.watchdog.smWatchdogMs * 1000) (minSmWatchdogUs rest) with
              first | second
            · exact ⟨slave, List.mem_cons_self, counts, first⟩
            · exact ⟨least, List.mem_cons_of_mem _ listed, among, second.trans value⟩
          · intro other member also
            rcases List.mem_cons.mp member with rfl | later
            · exact min_le_left _ _
            · exact (min_le_right _ _).trans (below other later also)
      · rw [minSmWatchdogUs_ignored counts]
        rcases ih with ⟨none, zero⟩ | ⟨⟨least, listed, among, value⟩, below⟩
        · refine Or.inl ⟨?_, zero⟩
          intro other member
          rcases List.mem_cons.mp member with rfl | later
          · exact counts
          · exact none other later
        · refine Or.inr ⟨⟨least, List.mem_cons_of_mem _ listed, among, value⟩, ?_⟩
          intro other member also
          rcases List.mem_cons.mp member with rfl | later
          · exact absurd also counts
          · exact below other later also

/-! ## The poll -/

/-- Every state check of the poll has the same timeout. -/
theorem opCheck_timeout {config : EcatConfig} {oracle : Oracle} {us : Int} {state : UInt16}
    (called : .opCheck us state ∈ (transitionToOpTrail config oracle).events) :
    us = pollTimeoutUs config := by
  have polls : ∀ remaining retry, (pollOp oracle (pollTimeoutUs config) remaining retry).All
      fun call => ∀ us state, call = .opCheck us state → us = pollTimeoutUs config := by
    intro remaining
    induction remaining with
    | zero =>
        intro retry
        exact all_check false
    | succ remaining ih =>
        intro retry
        have turn : (⟨[.exchange, .opCheck (pollTimeoutUs config) (oracle.opState retry)], true⟩ :
            Trail StartCall).All
              fun call => ∀ us state, call = .opCheck us state → us = pollTimeoutUs config := by
          intro call member us state same
          rw [same] at member
          simp at member
          exact member.1
        unfold pollOp
        split
        · exact turn
        · exact all_andThen turn (ih (retry + 1))
  have all : (transitionToOpTrail config oracle).All
      fun call => ∀ us state, call = .opCheck us state → us = pollTimeoutUs config := by
    rw [transitionToOpTrail_eq]
    apply all_andThen
    · intro call member us state same
      rw [same, requestTrail] at member
      have inside := all_inOrder
        (p := fun call => ∀ us state, call ≠ StartCall.opCheck us state) ?_ _ member
      · exact absurd rfl (inside us state)
      · intro part listed
        simp only [List.mem_cons, List.not_mem_nil, or_false] at listed
        rcases listed with rfl | rfl | rfl
        · exact all_step (by simp) _
        · exact all_step (by simp) _
        · intro event among
          simp only [List.mem_cons, List.not_mem_nil, or_false] at among
          rcases among with rfl | rfl
          · simp
          · simp
    · exact polls _ 0
  exact all _ called us state rfl

/-! ## Poll and watchdogs -/

/-- A bus that has a slave at every position up to that of `slave`. -/
def reachingOracle (slave : EcatSlave) : Oracle :=
  { fixedOracle 1 with
    found := List.replicate slave.position.toNat
      ⟨2, 0x0A553052, 0x1001, ectMbxprotCoe, 0, 0, 8, false⟩ }

theorem smProgrammed_reaching {slave : EcatSlave} (position : 1 ≤ slave.position)
    (enabled : slave.watchdog.smWatchdogEnabled = true) :
    SmProgrammed (reachingOracle slave) slave (watchdogTicks slave.watchdog.smWatchdogMs) := by
  refine (smProgrammed_iff _ _ _).mpr ⟨?_, enabled, rfl⟩
  have inRange : ¬ (slave.position < 1 ∨
      ((reachingOracle slave).found.length : Int) < slave.position) := by
    simp only [reachingOracle, List.length_replicate]
    omega
  rw [Oracle.slave?, if_neg inRange]
  have inside : slave.position.toNat - 1 < (reachingOracle slave).found.length := by
    simp only [reachingOracle, List.length_replicate]
    omega
  rw [List.getElem?_eq_getElem inside]
  rfl

section Positions
variable {config : EcatConfig} (positions : ∀ slave ∈ config.slaveList, 1 ≤ slave.position)
include positions

theorem pollFeeds_iff (pollUs : Int) :
    PollFeeds config pollUs ↔ ∀ slave ∈ config.slaveList,
      slave.watchdog.smWatchdogEnabled = true →
        8 * pollUs ≤ 125 * (watchdogTicks slave.watchdog.smWatchdogMs).toNat := by
  constructor
  · intro feeds slave listed enabled
    exact feeds _ slave listed _ (smProgrammed_reaching (positions slave listed) enabled)
  · intro feeds oracle slave listed ticks programmed
    obtain ⟨_, enabled, rfl⟩ := (smProgrammed_iff _ _ _).mp programmed
    exact feeds slave listed enabled

theorem LongWatchdogs.atLeast (long : LongWatchdogs config) :
    ∀ slave ∈ config.slaveList, slave.watchdog.smWatchdogEnabled = true →
      8 ≤ slave.watchdog.smWatchdogMs := by
  intro slave listed enabled
  have programmed :=
    long _ slave listed _ (smProgrammed_reaching (positions slave listed) enabled)
  by_cases counts : 0 < slave.watchdog.smWatchdogMs
  · rw [watchdogTicks_toNat counts, ecTimeoutRet] at programmed
    have least := min_le_left slave.watchdog.smWatchdogMs maxWatchdogMs
    omega
  · rw [watchdogTicks, if_neg counts] at programmed
    exact absurd programmed (by decide)

/-- The poll is a quarter of the least configured watchdog, and no watchdog is
programmed with more than its register holds. -/
theorem pollFeeds_pollTimeoutUs_iff (long : LongWatchdogs config) :
    PollFeeds config (pollTimeoutUs config) ↔
      (∀ slave ∈ config.slaveList, slave.watchdog.smWatchdogEnabled = false) ∨
        ∃ slave ∈ config.slaveList, slave.watchdog.smWatchdogEnabled = true ∧
          slave.watchdog.smWatchdogMs ≤ maxWatchdogMs := by
  have atLeast := long.atLeast positions
  have counts : ∀ slave ∈ config.slaveList, slave.watchdog.smWatchdogEnabled = true →
      WatchdogCounts slave := by
    intro slave listed enabled
    have ms := atLeast slave listed enabled
    exact ⟨enabled, by omega⟩
  rw [pollFeeds_iff positions]
  rcases minSmWatchdogUs_spec config.slaveList with ⟨none, _⟩ |
    ⟨⟨least, listed, among, value⟩, below⟩
  · have disabled : ∀ slave ∈ config.slaveList, slave.watchdog.smWatchdogEnabled = false := by
      intro slave listed
      cases enabled : slave.watchdog.smWatchdogEnabled with
      | false => rfl
      | true => exact absurd (counts slave listed enabled) (none slave listed)
    refine iff_of_true ?_ (Or.inl disabled)
    intro slave listed enabled
    rw [disabled slave listed] at enabled
    cases enabled
  · have leastMs := atLeast least listed among.1
    have poll : pollTimeoutUs config = 250 * least.watchdog.smWatchdogMs := by
      have quarter : pollTimeoutUs config = pollForLeastUs (minSmWatchdogUs config.slaveList) := rfl
      have nonzero : least.watchdog.smWatchdogMs * 1000 ≠ 0 := by omega
      rw [quarter, value, pollForLeastUs, if_neg nonzero, ecTimeoutRet]
      omega
    rw [poll]
    constructor
    · intro feeds
      have own := feeds least listed among.1
      rw [watchdogTicks_toNat among.2] at own
      have clamped := min_le_right least.watchdog.smWatchdogMs maxWatchdogMs
      exact Or.inr ⟨least, listed, among.1, by omega⟩
    · rintro (disabled | ⟨short, present, enabled, small⟩) slave member on
      · rw [disabled slave member] at on
        cases on
      · have first := below short present (counts short present enabled)
        have own := below slave member (counts slave member on)
        rw [watchdogTicks_toNat (counts slave member on).2]
        have bound : least.watchdog.smWatchdogMs ≤
            min slave.watchdog.smWatchdogMs maxWatchdogMs := le_min (by omega) (by omega)
        omega

end Positions

theorem accepted_positions {libc : LibC} {alloc : Alloc} {configObj : Json} {config : EcatConfig}
    (accepted : parseSections libc alloc configObj = (config, none)) :
    ∀ slave ∈ config.slaveList, 1 ≤ slave.position := by
  obtain ⟨_, _, _, valid⟩ := parseSections_accepted accepted
  intro slave listed
  exact ((validateSlaves_ok_iff _).mp (ecatConfigValidate_slaves valid)).1 slave listed |>.position

/-- The poll keeps every watchdog fed unless all that are enabled are configured
with more than the register holds. -/
theorem op_poll_feeds_watchdogs_iff (libc : LibC) (alloc : Alloc) (configObj : Json)
    (config : EcatConfig) (pollUs : Int)
    (accepted : parseSections libc alloc configObj = (config, none))
    (exactly : checkedPollTimeoutUs config = some pollUs) (long : LongWatchdogs config) :
    (∀ oracle us state, .opCheck us state ∈ (transitionToOpTrail config oracle).events →
      us = pollUs) ∧
    (PollFeeds config pollUs ↔
      (∀ slave ∈ config.slaveList, slave.watchdog.smWatchdogEnabled = false) ∨
        ∃ slave ∈ config.slaveList, slave.watchdog.smWatchdogEnabled = true ∧
          slave.watchdog.smWatchdogMs ≤ maxWatchdogMs) := by
  rw [checkedPollTimeoutUs_agrees config pollUs exactly]
  exact ⟨fun oracle us state called => opCheck_timeout called,
    pollFeeds_pollTimeoutUs_iff (accepted_positions accepted) long⟩

def watchdogConfig (smWatchdogMs : Int) : Json :=
  jsonObject [("slaves", .array [fakeSlaveJson [("config", jsonObject
    [("watchdog", jsonObject [("sm_watchdog_ms", jsonInt smWatchdogMs)])])]])]

def watchdogSections (smWatchdogMs : Int) : EcatConfig × Option ConfigError :=
  parseSections noLibC (fun _ => true) (watchdogConfig smWatchdogMs)

theorem longWatchdogs_of {config : EcatConfig}
    (long : ∀ slave ∈ config.slaveList,
      16000 ≤ 125 * (watchdogTicks slave.watchdog.smWatchdogMs).toNat) : LongWatchdogs config := by
  intro oracle slave listed ticks programmed
  obtain ⟨_, _, rfl⟩ := (smProgrammed_iff _ _ _).mp programmed
  have least := long slave listed
  rw [ecTimeoutRet]
  omega

theorem op_poll_feeds_watchdogs_iff_longest :
    PollFeeds (watchdogSections 4095).1 1023750 := by
  have facts : (watchdogSections 4095).2 = none ∧
      checkedPollTimeoutUs (watchdogSections 4095).1 = some 1023750 ∧
      (∀ slave ∈ (watchdogSections 4095).1.slaveList,
        16000 ≤ 125 * (watchdogTicks slave.watchdog.smWatchdogMs).toNat) ∧
      ∃ slave ∈ (watchdogSections 4095).1.slaveList,
        slave.watchdog.smWatchdogEnabled = true ∧
          slave.watchdog.smWatchdogMs ≤ maxWatchdogMs := by
    decide +kernel
  obtain ⟨accepted, exactly, long, short⟩ := facts
  exact (op_poll_feeds_watchdogs_iff noLibC (fun _ => true) (watchdogConfig 4095) _ 1023750
    (Prod.ext rfl accepted) exactly (longWatchdogs_of long)).2.mpr (Or.inr short)

/-- A watchdog of 20 seconds is programmed as one of 4.095, and polled every 5. -/
theorem watchdog_20_s_starved :
    ¬ ∀ (libc : LibC) (alloc : Alloc) (configObj : Json) (config : EcatConfig) (pollUs : Int),
      parseSections libc alloc configObj = (config, none) →
      checkedPollTimeoutUs config = some pollUs → LongWatchdogs config →
      PollFeeds config pollUs := by
  intro always
  have facts : (watchdogSections 20000).2 = none ∧
      checkedPollTimeoutUs (watchdogSections 20000).1 = some 5000000 ∧
      (∀ slave ∈ (watchdogSections 20000).1.slaveList,
        16000 ≤ 125 * (watchdogTicks slave.watchdog.smWatchdogMs).toNat) ∧
      ∃ slave ∈ (watchdogSections 20000).1.slaveList, 1 ≤ slave.position ∧
        slave.watchdog.smWatchdogEnabled = true ∧
        ¬ 8 * 5000000 ≤ (125 * (watchdogTicks slave.watchdog.smWatchdogMs).toNat : Int) := by
    decide +kernel
  obtain ⟨accepted, exactly, long, slave, listed, position, enabled, starved⟩ := facts
  have feeds := always noLibC (fun _ => true) (watchdogConfig 20000) _ 5000000
    (Prod.ext rfl accepted) exactly (longWatchdogs_of long)
  exact starved (feeds _ slave listed _ (smProgrammed_reaching position enabled))

end EtherDog
