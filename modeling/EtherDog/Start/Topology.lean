import EtherDog.Start.Configured

/-!
# The topology check covers the bus (src/master.c, src/config.c, src/bus.c)

`ecat_config_validate` keeps the positions apart and `ecat_master_validate_topology`
compares their number with the slaves found and each position with their range.
Together they put the configured slaves in bijection with the slaves of the bus,
which `attempt_recovery` relies on when it walks the configured positions only.
-/

set_option autoImplicit false

namespace EtherDog

/-! ## Distinct positions that fill a range -/

theorem bijOn_of_nodup {positions : List Int} (apart : positions.Nodup)
    (inside : ∀ position ∈ positions, 1 ≤ position ∧ position ≤ positions.length) :
    Set.BijOn positions.get Set.univ (Set.Icc 1 (positions.length : Int)) := by
  have subset : positions.toFinset ⊆ Finset.Icc 1 (positions.length : Int) := by
    intro position member
    exact Finset.mem_Icc.mpr (inside position (List.mem_toFinset.mp member))
  -- as many distinct positions as the range has: none of it is left out
  have full : positions.toFinset = Finset.Icc 1 (positions.length : Int) := by
    apply Finset.eq_of_subset_of_card_le subset
    rw [List.toFinset_card_of_nodup apart, Int.card_Icc]
    omega
  refine ⟨?_, ?_, ?_⟩
  · intro i _
    exact inside _ (List.get_mem positions i)
  · exact (List.nodup_iff_injective_get.mp apart).injOn
  · intro position member
    have listed : position ∈ positions.toFinset := by
      rw [full]
      exact Finset.mem_Icc.mpr member
    obtain ⟨i, same⟩ := List.mem_iff_get.mp (List.mem_toFinset.mp listed)
    exact ⟨i, trivial, same⟩

/-! ## The walk of a recovery attempt -/

/-- `ecat_master_get_slave_state`; `alState` are the states of the slave list. -/
def ecatMasterGetSlaveState (slavecount : Nat) (alState : Int → UInt16) (position : Int) : UInt16 :=
  if position < 1 ∨ slavecount < position then 0 else alState position

/-- The positions `attempt_recovery` walks. -/
def walkedPositions (config : EcatConfig) : List Int := config.slaveList.map EcatSlave.position

def walkedStates (config : EcatConfig) (slavecount : Nat) (alState : Int → UInt16) : List UInt16 :=
  (walkedPositions config).map (ecatMasterGetSlaveState slavecount alState)

theorem attemptRecovery_recovered_iff (inst : Instance) (states : List UInt16)
    (failures : UInt32) :
    (attemptRecovery inst states failures).2 = .recovered ↔ allOperational states = true := by
  unfold attemptRecovery
  split
  · simp_all
  · dsimp only
    split
    · simp_all
    · simp_all

/-! ## What a passed check says -/

/-- The enabled identity checks of a slave hold at its position. -/
def IdentityCompared (oracle : Oracle) (slave : EcatSlave) : Prop :=
  ∃ found, oracle.slave? slave.position = some found ∧
    (slave.startupChecks.checkVendorId = true → found.eepMan = slave.vendorId) ∧
    (slave.startupChecks.checkProductCode = true → found.eepId = slave.productCode)

/-- An enabled check of a slave differs from what stands at its position. -/
def IdentityDiffers (oracle : Oracle) (slave : EcatSlave) : Prop :=
  ∃ found, oracle.slave? slave.position = some found ∧
    (slave.startupChecks.checkVendorId = true ∧ found.eepMan ≠ slave.vendorId ∨
      slave.startupChecks.checkProductCode = true ∧ found.eepId ≠ slave.productCode)

instance (oracle : Oracle) (slave : EcatSlave) : Decidable (IdentityDiffers oracle slave) :=
  match there : oracle.slave? slave.position with
  | none => isFalse fun ⟨_, present, _⟩ => nomatch there.symm.trans present
  | some found =>
      decidable_of_iff
        (slave.startupChecks.checkVendorId = true ∧ found.eepMan ≠ slave.vendorId ∨
          slave.startupChecks.checkProductCode = true ∧ found.eepId ≠ slave.productCode)
        ⟨fun differs => ⟨found, there, differs⟩, fun ⟨_, present, differs⟩ =>
          Option.some.inj (present.symm.trans there) ▸ differs⟩

structure CoversBus (config : EcatConfig) (oracle : Oracle) : Prop where
  bijection : Set.BijOn (walkedPositions config).get Set.univ
    (Set.Icc 1 (oracle.found.length : Int))
  identities : ∀ slave ∈ config.slaveList, IdentityCompared oracle slave
  /-- a recovery attempt succeeds just if every slave of the bus is in OP -/
  inspected : ∀ (inst : Instance) (alState : Int → UInt16) (failures : UInt32),
    (attemptRecovery inst (walkedStates config oracle.found.length alState) failures).2 =
        .recovered ↔
      ∀ position ∈ Set.Icc 1 (oracle.found.length : Int), alState position = ecStateOperational

theorem slave?_range {oracle : Oracle} {position : Int} {found : EcSlave}
    (present : oracle.slave? position = some found) :
    1 ≤ position ∧ position ≤ oracle.found.length := by
  unfold Oracle.slave? at present
  split at present
  · simp at present
  · omega

theorem walkedPositions_nodup {config : EcatConfig} (valid : ecatConfigValidate config = .ok ()) :
    (walkedPositions config).Nodup := by
  have apart := ((validateSlaves_ok_iff _).mp (ecatConfigValidate_slaves valid)).2
  exact List.pairwise_map.mpr apart

section Passed
variable {config : EcatConfig} {oracle : Oracle}

theorem topology_count (topology : ecatMasterValidateTopology config oracle = true) :
    oracle.found.length = (walkedPositions config).length := by
  simp only [ecatMasterValidateTopology, Bool.and_eq_true, beq_iff_eq] at topology
  rw [topology.1, walkedPositions, List.length_map]
  rfl

theorem topology_bijection (valid : ecatConfigValidate config = .ok ())
    (topology : ecatMasterValidateTopology config oracle = true) :
    Set.BijOn (walkedPositions config).get Set.univ (Set.Icc 1 (oracle.found.length : Int)) := by
  have count := topology_count topology
  rw [count]
  refine bijOn_of_nodup (walkedPositions_nodup valid) ?_
  intro position member
  obtain ⟨slave, listed, rfl⟩ := List.mem_map.mp member
  obtain ⟨found, present, _⟩ := topology_slave topology listed
  have range := slave?_range present
  rw [count] at range
  exact range

theorem walkedStates_operational_iff
    (bijection : Set.BijOn (walkedPositions config).get Set.univ
      (Set.Icc 1 (oracle.found.length : Int))) (alState : Int → UInt16) :
    allOperational (walkedStates config oracle.found.length alState) = true ↔
      ∀ position ∈ Set.Icc 1 (oracle.found.length : Int),
        alState position = ecStateOperational := by
  have read {position : Int} (inside : position ∈ Set.Icc 1 (oracle.found.length : Int)) :
      ecatMasterGetSlaveState oracle.found.length alState position = alState position := by
    obtain ⟨low, high⟩ := inside
    exact if_neg (by omega)
  simp only [allOperational, walkedStates, List.all_map, List.all_eq_true, Function.comp,
    beq_iff_eq]
  constructor
  · intro walked position inside
    obtain ⟨i, _, rfl⟩ := bijection.surjOn inside
    rw [← read inside]
    exact walked _ (List.get_mem _ i)
  · intro operational position member
    obtain ⟨i, rfl⟩ := List.mem_iff_get.mp member
    have inside := bijection.mapsTo (Set.mem_univ i)
    rw [read inside]
    exact operational _ inside

end Passed

/-- A validated configuration passes the check only if its slaves cover the bus,
and a bus of another size or with another slave at a checked position fails it. -/
theorem topology_check_covers_bus (config : EcatConfig) (oracle : Oracle)
    (valid : ecatConfigValidate config = .ok ()) :
    (ecatMasterValidateTopology config oracle = true → CoversBus config oracle) ∧
      (oracle.found.length ≠ config.slaveCount →
        ecatMasterValidateTopology config oracle = false) ∧
      ((∃ slave ∈ config.slaveList, IdentityDiffers oracle slave) →
        ecatMasterValidateTopology config oracle = false) := by
  refine ⟨?_, ?_, ?_⟩
  · intro topology
    have bijection := topology_bijection valid topology
    refine ⟨bijection, fun slave listed => topology_slave topology listed, ?_⟩
    intro inst alState failures
    rw [attemptRecovery_recovered_iff, walkedStates_operational_iff bijection]
  · intro other
    simp [ecatMasterValidateTopology, other]
  · rintro ⟨slave, listed, found, present, differs⟩
    by_contra passed
    obtain ⟨same, there, vendorId, productCode⟩ :=
      topology_slave (Bool.not_eq_false _ ▸ passed) listed
    rw [present] at there
    cases there
    rcases differs with ⟨checked, other⟩ | ⟨checked, other⟩
    · exact other (vendorId checked)
    · exact other (productCode checked)

def secondSlave : Json :=
  jsonObject [("position", jsonInt 2), ("vendor_id", jsonText "0x00000002"),
    ("product_code", jsonText "0x044C2C52")]

def secondFound : EcSlave := ⟨2, 0x044C2C52, 0x1002, ectMbxprotCoe, 0, 0, 8, false⟩

def twoOracle : Oracle :=
  { fixedOracle 1 with configInit := 2, found := (fixedOracle 1).found ++ [secondFound] }

def twoSlavesConfig : EcatConfig := parsedConfig [secondSlave, fixedSlave "0x1A00"]

/-- The order of the configuration does not matter, that of the bus does. -/
theorem topology_check_covers_bus_two :
    CoversBus twoSlavesConfig twoOracle ∧
      ecatMasterValidateTopology twoSlavesConfig
        { twoOracle with found := twoOracle.found.reverse } = false :=
  ⟨(topology_check_covers_bus twoSlavesConfig twoOracle (by decide +kernel)).1
      (by decide +kernel),
    (topology_check_covers_bus twoSlavesConfig { twoOracle with found := twoOracle.found.reverse }
      (by decide +kernel)).2.2 (by decide +kernel)⟩

end EtherDog
