import EtherDog.Lib.RoundUp
import EtherDog.Start.Configured

/-!
# The size of the IOmap (src/config.c, src/master.c)

`ecat_master_instance_alloc_iomap` sizes the IOmap from the configuration, rounding
all its bits to bytes at once; SOEM maps every slave and direction from a byte
boundary on.  The slack of a slave covers the difference.  `size_iomap_from_slaves`
grows the buffer to what the slaves report.  The sums are natural numbers here, and
stay in the range of `size_t`.
-/

set_option autoImplicit false

namespace EtherDog

open RoundUp

/-- `iomap_capacity`. -/
def Instance.iomapBytes (inst : Instance) : Nat := (inst.iomap.getD []).length

/-- `allocates` is the answer of `calloc`; `none` is -1, which leaves the instance as it is. -/
def ecatMasterInstanceAllocIomap (config : EcatConfig) (inst : Instance) (allocates : Bool) :
    Option Instance :=
  if inst.iomap ≠ none then none
  else if allocates = false then none
  else some { inst with iomap := some (zeros (computeIomapBytes config)), iomapUsedSize := 0 }

/-! ## The configured bytes -/

/-- What SOEM needs for the configured PDOs, with 30 bytes to spare for a slave. -/
def configuredBytes (config : EcatConfig) : Nat :=
  (config.slaveList.map fun slave =>
    pdoBits slave.rxPdos ⌈/⌉ 8 + pdoBits slave.txPdos ⌈/⌉ 8 + 30).sum

def directionBits (slave : EcatSlave) : List Nat := [pdoBits slave.rxPdos, pdoBits slave.txPdos]

theorem sum_directionBits (slaves : List EcatSlave) :
    (slaves.flatMap directionBits).sum =
      (slaves.map fun slave => pdoBits slave.rxPdos + pdoBits slave.txPdos).sum := by
  induction slaves with
  | nil => rfl
  | cons slave rest ih =>
      rw [List.flatMap_cons, List.sum_append, ih, List.map_cons, List.sum_cons]
      simp [directionBits]

theorem length_directionBits (slaves : List EcatSlave) :
    (slaves.flatMap directionBits).length = 2 * slaves.length := by
  induction slaves with
  | nil => rfl
  | cons slave rest ih =>
      rw [List.flatMap_cons, List.length_append, ih, List.length_cons]
      simp only [directionBits, List.length_cons, List.length_nil]
      omega

theorem unitsOf_directionBits (slaves : List EcatSlave) :
    (slaves.map fun slave =>
      pdoBits slave.rxPdos ⌈/⌉ 8 + pdoBits slave.txPdos ⌈/⌉ 8 + 30).sum =
        unitsOf 8 (slaves.flatMap directionBits) + slaves.length * 30 := by
  induction slaves with
  | nil => rfl
  | cons slave rest ih =>
      rw [List.map_cons, List.sum_cons, ih, List.flatMap_cons, directionBits, List.cons_append,
        List.cons_append, List.nil_append, unitsOf_cons, unitsOf_cons, List.length_cons]
      omega

theorem ecatIomapMinBytes_le (config : EcatConfig) :
    ecatIomapMinBytes ≤ computeIomapBytes config := le_max_right _ _

/-- Two bytes of a slave's slack pay for the rounding of its two directions. -/
theorem configuredBytes_le (config : EcatConfig) :
    configuredBytes config ≤ computeIomapBytes config := by
  have rounding := unitsOf_le (by decide : 0 < 8) (config.slaveList.flatMap directionBits)
  rw [length_directionBits, sum_directionBits, Nat.ceilDiv_eq_add_pred_div] at rounding
  rw [configuredBytes, unitsOf_directionBits]
  apply le_trans _ (le_max_left _ _)
  rw [EcatConfig.slaveCount, ecatIomapSlackPerSlave]
  omega

/-! ## The reported bytes -/

section Reported
variable {oracle : Oracle}

/-- No slave reports 2^31 bits or more in a direction. -/
def ReportsBounded (oracle : Oracle) : Prop :=
  ∀ item ∈ oracle.found.zipIdx 1,
    (slaveMappedBits oracle item.2 item.1).1.toNat < 2 ^ 31 ∧
      (slaveMappedBits oracle item.2 item.1).2.toNat < 2 ^ 31

/-- What SOEM needs for the bits that the slaves report, with 32 bytes to spare for each. -/
def reportedBytes (oracle : Oracle) : Nat :=
  ((oracle.found.zipIdx 1).map fun item =>
    (slaveMappedBits oracle item.2 item.1).1.toNat ⌈/⌉ 8 +
      (slaveMappedBits oracle item.2 item.1).2.toNat ⌈/⌉ 8 + 32).sum

theorem toNat_roundedBytes {bits : UInt32} (bounded : bits.toNat < 2 ^ 31) :
    ((bits + 7) / 8).toNat = bits.toNat ⌈/⌉ 8 := by
  have plain : (bits + 7).toNat = bits.toNat + 7 := by
    rw [UInt32.toNat_add]
    exact Nat.mod_eq_of_lt (by
      change bits.toNat + 7 < 2 ^ 32
      omega)
  rw [UInt32.toNat_div, plain, Nat.ceilDiv_eq_add_pred_div]
  rfl

/-- Below 2^31 bits the 32-bit arithmetic of the source is exact. -/
theorem slaveIomapBytes_eq {position : Nat} {slave : EcSlave}
    (outputs : (slaveMappedBits oracle position slave).1.toNat < 2 ^ 31)
    (inputs : (slaveMappedBits oracle position slave).2.toNat < 2 ^ 31) :
    slaveIomapBytes oracle position slave =
      (slaveMappedBits oracle position slave).1.toNat ⌈/⌉ 8 +
        (slaveMappedBits oracle position slave).2.toNat ⌈/⌉ 8 + 32 := by
  unfold slaveIomapBytes
  generalize slaveMappedBits oracle position slave = bits at outputs inputs ⊢
  have outputBytes := toNat_roundedBytes outputs
  have inputBytes := toNat_roundedBytes inputs
  have slack : (UInt32.ofNat ecatIomapSlackPerSlave).toNat = 32 := rfl
  change ((bits.1 + 7) / 8 + (bits.2 + 7) / 8 + UInt32.ofNat ecatIomapSlackPerSlave).toNat = _
  rw [UInt32.toNat_add, UInt32.toNat_add, outputBytes, inputBytes, slack,
    Nat.ceilDiv_eq_add_pred_div, Nat.ceilDiv_eq_add_pred_div]
  omega

theorem reportedBytes_le (bounded : ReportsBounded oracle) :
    reportedBytes oracle ≤ sizeIomapFromSlaves oracle := by
  have exactly : (oracle.found.zipIdx 1).map (fun item => slaveIomapBytes oracle item.2 item.1) =
      (oracle.found.zipIdx 1).map fun item =>
        (slaveMappedBits oracle item.2 item.1).1.toNat ⌈/⌉ 8 +
          (slaveMappedBits oracle item.2 item.1).2.toNat ⌈/⌉ 8 + 32 := by
    apply List.map_congr_left
    intro item reported
    obtain ⟨outputs, inputs⟩ := bounded item reported
    exact slaveIomapBytes_eq outputs inputs
  rw [reportedBytes, ← exactly]
  exact le_max_left _ _

end Reported

/-! ## The buffer -/

/-- A success keeps the buffer where it is large enough, and makes a zeroed one
of the size asked for where it is not. -/
theorem growIomap_spec {inst grown : Instance} {bytes : Nat} {grows : Bool}
    (success : ecatMasterInstanceGrowIomap inst bytes grows = some grown) :
    (bytes ≤ inst.iomapBytes ∧ grown = inst) ∨
      (inst.iomapBytes ≤ bytes ∧ grown.iomap = some (zeros bytes)) := by
  unfold ecatMasterInstanceGrowIomap at success
  split at success
  · rename_i enough
    exact Or.inl ⟨enough.2, (Option.some.inj success).symm⟩
  · rename_i short
    split at success
    · simp at success
    · cases Option.some.inj success
      refine Or.inr ⟨?_, rfl⟩
      unfold Instance.iomapBytes
      cases held : inst.iomap with
      | none => simp
      | some memory =>
          rw [held] at short
          simp only [ne_eq, reduceCtorEq, not_false_eq_true, true_and, ge_iff_le] at short
          omega

theorem growIomap_granted (inst : Instance) (bytes : Nat) :
    ∃ grown, ecatMasterInstanceGrowIomap inst bytes true = some grown := by
  unfold ecatMasterInstanceGrowIomap
  split
  · exact ⟨inst, rfl⟩
  · exact ⟨_, rfl⟩

theorem allocIomap_spec {config : EcatConfig} {inst allocated : Instance} {allocates : Bool}
    (success : ecatMasterInstanceAllocIomap config inst allocates = some allocated) :
    allocated.iomap = some (zeros (computeIomapBytes config)) := by
  unfold ecatMasterInstanceAllocIomap at success
  split at success
  · simp at success
  · split at success
    · simp at success
    · cases Option.some.inj success
      rfl

/-- The IOmap that SOEM maps into, against the one that was allocated first. -/
structure IomapCovers (config : EcatConfig) (oracle : Oracle) (allocated grown : Instance) :
    Prop where
  zeroed : grown.iomap = some (zeros grown.iomapBytes)
  configured : computeIomapBytes config ≤ grown.iomapBytes
  reported : reportedBytes oracle ≤ grown.iomapBytes
  notShrunk : allocated.iomapBytes ≤ grown.iomapBytes

theorem iomapBytes_zeros {inst : Instance} {bytes : Nat} (zeroed : inst.iomap = some (zeros bytes)) :
    inst.iomapBytes = bytes := by
  rw [Instance.iomapBytes, zeroed, Option.getD_some, zeros, List.length_replicate]

theorem growIomap_covers {config : EcatConfig} {oracle : Oracle} {allocated grown : Instance}
    (bounded : ReportsBounded oracle)
    (fresh : allocated.iomap = some (zeros (computeIomapBytes config)))
    (growth : ecatMasterInstanceGrowIomap allocated (sizeIomapFromSlaves oracle)
      oracle.iomapGrown = some grown) : IomapCovers config oracle allocated grown := by
  have held := iomapBytes_zeros fresh
  have reported := reportedBytes_le bounded
  rcases growIomap_spec growth with ⟨enough, rfl⟩ | ⟨short, zeroed⟩
  · exact
      { zeroed := by rw [held, fresh]
        configured := held.ge
        reported := reported.trans enough
        notShrunk := le_refl _ }
  · have size := iomapBytes_zeros zeroed
    exact
      { zeroed := by rw [size, zeroed]
        configured := by omega
        reported := by omega
        notShrunk := by omega }

/-- The IOmap is sized for the configured PDOs with every direction rounded up, and
grown to what the slaves report. -/
theorem iomap_large_enough (config : EcatConfig) :
    (256 ≤ computeIomapBytes config ∧ configuredBytes config ≤ computeIomapBytes config) ∧
    ∀ (oracle : Oracle) (inst : Instance) (allocates : Bool), ReportsBounded oracle →
      (∀ allocated grown, ecatMasterInstanceAllocIomap config inst allocates = some allocated →
        ecatMasterInstanceGrowIomap allocated (sizeIomapFromSlaves oracle) oracle.iomapGrown =
          some grown →
        IomapCovers config oracle allocated grown) ∧
      (inst.iomap = none → allocates = true → oracle.iomapGrown = true →
        ∃ allocated grown, ecatMasterInstanceAllocIomap config inst allocates = some allocated ∧
          ecatMasterInstanceGrowIomap allocated (sizeIomapFromSlaves oracle) oracle.iomapGrown =
            some grown) := by
  refine ⟨⟨ecatIomapMinBytes_le config, configuredBytes_le config⟩, ?_⟩
  intro oracle inst allocates bounded
  constructor
  · intro allocated grown success growth
    exact growIomap_covers bounded (allocIomap_spec success) growth
  · rintro unallocated rfl grows
    have success : ecatMasterInstanceAllocIomap config inst true =
        some { inst with iomap := some (zeros (computeIomapBytes config)), iomapUsedSize := 0 } := by
      rw [ecatMasterInstanceAllocIomap, if_neg (not_not.mpr unallocated), if_neg (by decide)]
    rw [grows]
    obtain ⟨grown, growth⟩ := growIomap_granted
      { inst with iomap := some (zeros (computeIomapBytes config)), iomapUsedSize := 0 }
      (sizeIomapFromSlaves oracle)
    exact ⟨_, grown, success, growth⟩

/-- A slave that reports 512 output bytes, of which its configuration has none. -/
def wideOracle : Oracle := { fixedOracle 1 with readPdoMap := fun _ => (4096, 8) }

theorem iomap_large_enough_wide :
    ∃ allocated grown,
      IomapCovers (parsedConfig [fixedSlave "0x1A00"]) wideOracle allocated grown ∧
        allocated.iomapBytes = 256 ∧ 545 ≤ grown.iomapBytes := by
  have bounded : ReportsBounded wideOracle := by
    unfold ReportsBounded
    decide
  have reported : reportedBytes wideOracle = 545 := by decide
  have configured : computeIomapBytes (parsedConfig [fixedSlave "0x1A00"]) = 256 := by
    decide +kernel
  obtain ⟨covers, allocates⟩ := (iomap_large_enough (parsedConfig [fixedSlave "0x1A00"])).2
    wideOracle (zeroInstance (parsedConfig [fixedSlave "0x1A00"]).summary) true bounded
  obtain ⟨allocated, grown, success, growth⟩ := allocates rfl rfl rfl
  have covered := covers allocated grown success growth
  refine ⟨allocated, grown, covered, ?_, ?_⟩
  · rw [iomapBytes_zeros (allocIomap_spec success), configured]
  · rw [← reported]
    exact covered.reported

/-! ## The start -/

/-- The scan of a start allocates as `ecat_master_instance_alloc_iomap` does. -/
theorem openAndScan_alloc {config : EcatConfig} {oracle : Oracle} {inst opened : Instance}
    (scanned : ecatMasterOpenAndScan inst (scanOutcome config oracle) = (opened, true)) :
    ecatMasterInstanceAllocIomap config { opened with iomap := none } oracle.iomapAllocated =
      some opened := by
  cases outcome : scanOutcome config oracle with
  | found slavecount iomapBytes =>
      obtain ⟨⟨_, _, allocated, _⟩, _, rfl⟩ := (scanOutcome_found_iff _ _).mp outcome
      rw [outcome] at scanned
      cases scanned
      rw [ecatMasterInstanceAllocIomap, allocated]
      rfl
  | _ => simp [outcome, ecatMasterOpenAndScan] at scanned

/-- What a start has for SOEM to map into is large enough. -/
theorem start_iomap_covers {config : EcatConfig} {oracle : Oracle} {inst opened grown : Instance}
    (bounded : ReportsBounded oracle)
    (scanned : ecatMasterOpenAndScan inst (scanOutcome config oracle) = (opened, true))
    (growth : ecatMasterInstanceGrowIomap { opened with busState := .configuring }
      (sizeIomapFromSlaves oracle) oracle.iomapGrown = some grown) :
    IomapCovers config oracle opened grown := by
  have fresh := allocIomap_spec (openAndScan_alloc scanned)
  have covered : IomapCovers config oracle { opened with busState := .configuring } grown :=
    growIomap_covers bounded fresh growth
  exact ⟨covered.zeroed, covered.configured, covered.reported, covered.notShrunk⟩

/-! ## The range of size_t -/

/-- `slavecount` is an `int`, and no sum of as many 32-bit sizes overflows. -/
theorem sizeIomapFromSlaves_fits {oracle : Oracle} (count : oracle.found.length < 2 ^ 31) :
    sizeIomapFromSlaves oracle < 2 ^ 64 := by
  have each : ∀ bytes ∈ (oracle.found.zipIdx 1).map
      fun item => slaveIomapBytes oracle item.2 item.1, bytes ≤ 2 ^ 32 := by
    intro bytes member
    obtain ⟨item, _, rfl⟩ := List.mem_map.mp member
    exact Nat.le_of_lt (UInt32.toNat_lt _)
  have sum := List.sum_le_card_nsmul _ _ each
  rw [List.length_map, List.length_zipIdx, smul_eq_mul] at sum
  rw [sizeIomapFromSlaves, ecatIomapMinBytes]
  omega

def entryCount (config : EcatConfig) : Nat :=
  (config.slaveList.map fun slave =>
    (flatEntries slave.rxPdos).length + (flatEntries slave.txPdos).length).sum

theorem pdoBits_le (pdos : List EcatPdo) : pdoBits pdos ≤ 255 * (flatEntries pdos).length := by
  have each : ∀ bits ∈ (flatEntries pdos).map bitSize, bits ≤ 255 := by
    intro bits member
    obtain ⟨item, _, rfl⟩ := List.mem_map.mp member
    exact Nat.le_of_lt_succ item.2.bitLength.toNat_lt
  have sum := List.sum_le_card_nsmul _ _ each
  rw [List.length_map, smul_eq_mul, Nat.mul_comm] at sum
  exact sum

/-- The entries of a configuration take memory, so that there are fewer than 2^48. -/
theorem computeIomapBytes_fits {config : EcatConfig} (entries : entryCount config < 2 ^ 48)
    (slaves : config.slaveCount < 2 ^ 31) : computeIomapBytes config < 2 ^ 64 := by
  have each : (config.slaveList.map fun slave => pdoBits slave.rxPdos + pdoBits slave.txPdos).sum ≤
      255 * entryCount config := by
    rw [entryCount, ← List.sum_map_mul_left]
    apply List.sum_le_sum
    intro slave _
    have outputs := pdoBits_le slave.rxPdos
    have inputs := pdoBits_le slave.txPdos
    omega
  rw [computeIomapBytes, ecatIomapSlackPerSlave, ecatIomapMinBytes]
  omega

end EtherDog
