import EtherDog.Layout.Offsets
import EtherDog.Config.Complete
import EtherDog.Config.Index

/-!
# Layouts of accepted configurations

What parsing and validation promise about the layout that is built from a
configuration, and what they do not: offsets come from the configured PDOs and
the region sizes from the bus, padding is told by the text of an index, and an
entry may be listed twice.
-/

set_option autoImplicit false

namespace EtherDog

open CString Checked

/-! ## Accepted configurations -/

/-- One of the configurations with which `ecat_config_parse_all` returned OK. -/
def AcceptedConfig (libc : LibC) (config : EcatConfig) : Prop :=
  ∃ alloc file instances maxMasters, instances.length = maxMasters ∧
    (ecatConfigParseAll libc alloc file instances maxMasters).failure = none ∧
    ∃ inst ∈ (ecatConfigParseAll libc alloc file instances maxMasters).instances.take
      (ecatConfigParseAll libc alloc file instances maxMasters).count, inst.config = config

theorem parseBare_accepted {libc : LibC} {alloc : Alloc} {root : Json}
    {instances : List ParsedInstance} (accepted : (parseBare libc alloc root instances).failure = none)
    {inst : ParsedInstance} (member : inst ∈ (parseBare libc alloc root instances).instances.take
      (parseBare libc alloc root instances).count) :
    parseSections libc alloc ((root.item? "config").getD root) = (inst.config, none) := by
  unfold parseBare at accepted member
  dsimp only at accepted member
  cases sections : parseSections libc alloc ((root.item? "config").getD root) with
  | mk config failure =>
  rw [sections] at accepted member
  cases failure with
  | some failure => simp at accepted
  | none =>
      dsimp only at member
      cases instances with
      | nil => simp at member
      | cons first rest =>
          simp only [List.set_cons_zero, List.take_succ_cons, List.take_zero, List.mem_cons,
            List.not_mem_nil, or_false] at member
          rw [member]

/-- An accepted configuration is valid and its slaves are those of a JSON list. -/
theorem AcceptedConfig.parsed {libc : LibC} {config : EcatConfig}
    (accepted : AcceptedConfig libc config) :
    ecatConfigValidate config = .ok () ∧
      ∃ slaves, List.Forall₂ (SlaveOf libc) slaves config.slaveList := by
  obtain ⟨alloc, file, instances, maxMasters, size, success, inst, member, rfl⟩ := accepted
  have bare (root : Json) (same : ecatConfigParseAll libc alloc file instances maxMasters =
      parseBare libc alloc root instances) :
      ecatConfigValidate inst.config = .ok () ∧
        ∃ slaves, List.Forall₂ (SlaveOf libc) slaves inst.config.slaveList := by
    rw [same] at success member
    obtain ⟨_, slaves, _, valid⟩ := parseSections_accepted (parseBare_accepted success member)
    exact ⟨valid, _, forall₂_of_exists slaves fun _ _ _ parsed => parseSlave_ok parsed⟩
  cases file with
  | unreadable => simp [ecatConfigParseAll] at success
  | malformed => simp [ecatConfigParseAll] at success
  | document root =>
      cases root with
      | array entries =>
          have complete := parseEntries_accepted size success
          obtain ⟨entry, _, master⟩ := exists_source complete.masters member
          obtain ⟨configObj, _, _, slaves⟩ := master.config
          exact ⟨complete.valid inst member, _, slaves⟩
      | null => exact bare .null rfl
      | bool value => exact bare (.bool value) rfl
      | number valueint valuedouble => exact bare (.number valueint valuedouble) rfl
      | string buffer => exact bare (.string buffer) rfl
      | object members => exact bare (.object members) rfl

theorem AcceptedConfig.positions {libc : LibC} {config : EcatConfig}
    (accepted : AcceptedConfig libc config) :
    config.slaveList.Pairwise fun a b => a.position ≠ b.position :=
  ((validateSlaves_ok_iff config.slaveList).mp (ecatConfigValidate_slaves accepted.parsed.1)).2

/-- Every index text of an accepted entry is a spelling of a 16-bit number. -/
theorem AcceptedConfig.spelled {libc : LibC} {config : EcatConfig}
    (accepted : AcceptedConfig libc config) (cfg : EcatSlave) (listed : cfg ∈ config.slaveList)
    (isOutput : Bool) :
    ∀ item ∈ flatEntries (directionPdos cfg isOutput),
      (∃ lead mark digits, Spelling item.2.index lead mark digits) ∧
        hexValue item.2.index ≤ 0xFFFF := by
  intro item member
  obtain ⟨_, slaves, parsed⟩ := accepted.parsed
  obtain ⟨json, _, slaveOf⟩ := exists_source parsed listed
  obtain ⟨pdo, among, inPdo⟩ := List.mem_flatMap.mp member
  obtain ⟨entry, inEntries, rfl⟩ := List.mem_map.mp inPdo
  have pdoOf : ∃ json, PdoOf json pdo := by
    unfold directionPdos at among
    split at among
    · obtain ⟨json, _, pdoOf⟩ := exists_source slaveOf.rxPdos among
      exact ⟨json, pdoOf⟩
    · obtain ⟨json, _, pdoOf⟩ := exists_source slaveOf.txPdos among
      exact ⟨json, pdoOf⟩
  obtain ⟨pdoJson, pdoOf⟩ := pdoOf
  obtain ⟨entryJson, _, entryOf⟩ := exists_source pdoOf.entries inEntries
  unfold parsePdoEntry at entryOf
  obtain ⟨_, checked, built⟩ := bind_eq_ok.mp entryOf
  cases built
  obtain ⟨v, value, small⟩ := (Option.any_eq_true _ _).mp (require_eq_ok.mp checked)
  refine ⟨parseHexU32_spelling value, ?_⟩
  rw [← parseHexU32_value value]
  exact UInt32.le_iff_toNat_le.mp (by simpa using small)

/-! ## Entries inside the frame -/

/-- A client that reads or writes the entry stays inside the announced payload. -/
def Addressable (layout : EcatLayout) (entry : EcatLayoutEntry) : Prop :=
  entry.bitOffset.toNat + entry.bitLength.toNat ≤
    8 * if entry.isOutput then layout.outputBytes else layout.inputBytes

instance (layout : EcatLayout) (entry : EcatLayoutEntry) : Decidable (Addressable layout entry) :=
  inferInstanceAs (Decidable (_ ≤ _))

/-- The bits configured for a slave and direction fit the region behind its base. -/
def ConfiguredFits (soem : SoemMap) (cfg : EcatSlave) (isOutput : Bool) : Prop :=
  ∀ mapping ∈ ecatMasterGetSlave soem cfg.position, ∀ base ∈ slaveBase mapping isOutput,
    ∀ region ∈ regionBase soem isOutput, region ≤ base ∧
      8 * (base - region) + startBit mapping isOutput +
        Packing.total bitSize (flatEntries (directionPdos cfg isOutput)) ≤
          8 * regionBytes soem isOutput

instance (soem : SoemMap) (cfg : EcatSlave) (isOutput : Bool) :
    Decidable (ConfiguredFits soem cfg isOutput) :=
  inferInstanceAs (Decidable (∀ mapping ∈ ecatMasterGetSlave soem cfg.position, ∀ base ∈ _, _))

theorem directionEntries_addressable {soem : SoemMap} {cfg : EcatSlave} {mapping : EcMapping}
    {isOutput : Bool} (found : ecatMasterGetSlave soem cfg.position = some mapping)
    (fits : ConfiguredFits soem cfg isOutput)
    (small : regionBytes soem isOutput ≤ edogFrameMaxPayload) :
    ∀ entry ∈ directionEntries soem cfg mapping isOutput,
      entry.bitOffset.toNat + entry.bitLength.toNat ≤ 8 * regionBytes soem isOutput := by
  intro entry member
  unfold directionEntries at member
  split at member
  · rename_i base region based regioned
    obtain ⟨follows, room⟩ := fits mapping found base based region regioned
    rw [firstBit_eq follows, publishedFrom_eq] at member
    obtain ⟨p, among, rfl⟩ := List.mem_map.mp member
    obtain ⟨placed, inOffsets, rfl⟩ := List.mem_map.mp among
    obtain ⟨_, before, _⟩ := Packing.offsets_inside bitSize _ _ placed
      (List.mem_of_mem_filter inOffsets)
    have size : bitSize placed.2 = placed.2.2.bitLength.toNat := rfl
    rw [size] at before
    rw [Placed.published_exact]
    · exact le_trans before room
    · unfold edogFrameMaxPayload at small
      dsimp only
      omega
  · simp at member

theorem mem_layoutEntries {config : EcatConfig} {soem : SoemMap} {entry : EcatLayoutEntry}
    (member : entry ∈ layoutEntries config soem) :
    ∃ cfg ∈ config.slaveList, ∃ mapping, ecatMasterGetSlave soem cfg.position = some mapping ∧
      entry.slavePosition = cfg.position ∧
      entry ∈ directionEntries soem cfg mapping entry.isOutput := by
  obtain ⟨cfg, listed, inSlave⟩ := List.mem_flatMap.mp member
  unfold slaveEntries at inSlave
  cases found : ecatMasterGetSlave soem cfg.position with
  | none => simp [found] at inSlave
  | some mapping =>
      rw [found] at inSlave
      have direction (isOutput : Bool)
          (published : entry ∈ directionEntries soem cfg mapping isOutput) :
          entry.slavePosition = cfg.position ∧ entry.isOutput = isOutput := by
        unfold directionEntries publishedFrom at published
        split at published
        · obtain ⟨placed, _, rfl⟩ := List.mem_map.mp published
          exact ⟨rfl, rfl⟩
        · simp at published
      rcases List.mem_append.mp inSlave with output | input
      · obtain ⟨position, same⟩ := direction true output
        exact ⟨cfg, listed, mapping, found, position, by rw [same]; exact output⟩
      · obtain ⟨position, same⟩ := direction false input
        exact ⟨cfg, listed, mapping, found, position, by rw [same]; exact input⟩

theorem eq_of_position {slaves : List EcatSlave}
    (apart : slaves.Pairwise fun a b => a.position ≠ b.position) {a b : EcatSlave}
    (first : a ∈ slaves) (second : b ∈ slaves) (same : a.position = b.position) : a = b := by
  by_contra different
  have symmetric : Std.Symm fun a b : EcatSlave => a.position ≠ b.position :=
    ⟨fun _ _ => Ne.symm⟩
  exact apart.forall first second different same

/-- In an accepted configuration, the entries of a slave and direction whose
configured bits fit the region lie inside the exchanged frame. -/
theorem layout_entries_addressable (libc : LibC) (config : EcatConfig) (soem : SoemMap)
    (allocated : Bool) (accepted : AcceptedConfig libc config)
    (built : (ecatLayoutBuildEntries config soem allocated).2 = true) :
    ∀ entry ∈ (ecatLayoutBuildEntries config soem allocated).1.entries,
      ∀ cfg ∈ config.slaveList, cfg.position = entry.slavePosition →
        ConfiguredFits soem cfg entry.isOutput →
        Addressable (ecatLayoutBuildEntries config soem allocated).1 entry := by
  obtain ⟨succeeds, exactly⟩ := layoutBuildEntries_spec config soem allocated
  obtain ⟨_, _, outputFits, inputFits, _⟩ := succeeds.mp built
  rw [exactly built]
  intro entry member cfg listed position fits
  obtain ⟨owner, owned, mapping, found, ownerPosition, published⟩ := mem_layoutEntries member
  have same : cfg = owner :=
    eq_of_position accepted.positions listed owned (position.trans ownerPosition)
  subst same
  refine directionEntries_addressable found fits ?_ entry published
  unfold regionBytes
  split
  · exact outputFits
  · exact inputFits

def parseOne (slaves : List Json) : ParseOutcome :=
  ecatConfigParseAll noLibC (fun _ => true) (.document (.array [fakeEntryJson "eth0" slaves]))
    (List.replicate 4 emptyInstance) 4

def parsedConfig (slaves : List Json) : EcatConfig :=
  ((parseOne slaves).instances.headD emptyInstance).config

theorem parsedConfig_accepted (slaves : List Json) (success : (parseOne slaves).failure = none) :
    AcceptedConfig noLibC (parsedConfig slaves) := by
  refine ⟨fun _ => true, .document (.array [fakeEntryJson "eth0" slaves]),
    List.replicate 4 emptyInstance, 4, rfl, success, ?_⟩
  have complete : CompleteParse noLibC [fakeEntryJson "eth0" slaves] 4 (parseOne slaves).count
      (parseOne slaves).instances := parseEntries_accepted rfl success
  have counted := complete.counted
  obtain ⟨more, count⟩ := Nat.exists_eq_add_of_le' complete.nonempty
  change ∃ inst ∈ (parseOne slaves).instances.take (parseOne slaves).count, _
  unfold parsedConfig
  cases listed : (parseOne slaves).instances with
  | nil => simp [listed, count] at counted
  | cons first rest => exact ⟨first, by simp [count], rfl⟩

def fakeEntry (index : String) (subindex bitLength : Int) : Json :=
  jsonObject [("index", jsonText index), ("subindex", jsonInt subindex),
    ("bit_length", jsonInt bitLength), ("data_type", jsonText "UINT8")]

def outputSlave (entries : List Json) : Json :=
  fakeSlaveJson [("rx_pdos", .array [jsonObject
    [("index", jsonText "0x1600"), ("entries", .array entries)]])]

def oneByteMap : SoemMap := ⟨true, [⟨some 0, 0, 8, none, 0, 0⟩], ⟨some 0, none, 1, 0, 1, 0⟩⟩

/-- Two configured bytes on a slave that maps one: the second lies past the frame. -/
theorem layout_entry_past_frame :
    ¬ ∀ (libc : LibC) (config : EcatConfig) (soem : SoemMap) (allocated : Bool),
        AcceptedConfig libc config → (ecatLayoutBuildEntries config soem allocated).2 = true →
        ∀ entry ∈ (ecatLayoutBuildEntries config soem allocated).1.entries,
          Addressable (ecatLayoutBuildEntries config soem allocated).1 entry := by
  intro always
  have inside := always noLibC
    (parsedConfig [outputSlave [fakeEntry "0x7000" 1 8, fakeEntry "0x7000" 2 8]]) oneByteMap true
    (parsedConfig_accepted _ (by decide)) (by decide)
  revert inside
  decide

def twoByteMap : SoemMap := ⟨true, [⟨some 0, 0, 16, none, 0, 0⟩], ⟨some 0, none, 2, 0, 1, 0⟩⟩

/-- A byte and a half: the second entry has the bits of the first before it. -/
def packedConfig : EcatConfig :=
  parsedConfig [outputSlave [fakeEntry "0x7000" 1 12, fakeEntry "0x7000" 2 4]]

theorem layout_entries_addressable_packed :
    ∃ entry ∈ (ecatLayoutBuildEntries packedConfig twoByteMap true).1.entries,
      entry.bitOffset = 12 ∧
        Addressable (ecatLayoutBuildEntries packedConfig twoByteMap true).1 entry := by
  have inside := layout_entries_addressable noLibC packedConfig twoByteMap true
    (parsedConfig_accepted _ (by decide)) (by decide)
  have placed : ∃ entry ∈ (ecatLayoutBuildEntries packedConfig twoByteMap true).1.entries,
      entry.slavePosition = 1 ∧ entry.isOutput = true ∧ entry.bitOffset = 12 := by
    decide
  have fits : ∃ cfg ∈ packedConfig.slaveList,
      cfg.position = 1 ∧ ConfiguredFits twoByteMap cfg true := by decide
  obtain ⟨entry, listed, slave, output, bitOffset⟩ := placed
  obtain ⟨cfg, configured, position, room⟩ := fits
  refine ⟨entry, listed, bitOffset, ?_⟩
  exact inside entry listed cfg configured (position.trans slave.symm) (by rw [output]; exact room)

end EtherDog
