import EtherDog.Config.Complete
import EtherDog.Config.SdoEntry

/-!
# Which configurations are valid (src/config.c)

`ecat_config_validate` compares PDO indices through `parse_hex_u32`.  Of what the
section parsers produce every index can be read, so the comparison is one of the
numbers the texts denote, in whatever spelling.  `ConfigValid` says what a valid
configuration is with those numbers.
-/

set_option autoImplicit false

namespace EtherDog

open CString Checked

def withMaster (configObj : Json) : EcatConfig :=
  let master := parseMasterSection (configObj.item? "master") ecatConfigInitDefaults.master
  { ecatConfigInitDefaults with master := master }

/-- What the section parsers make of a configuration object that none of them refuses. -/
inductive ParsedSections (libc : LibC) (alloc : Alloc) (configObj : Json) : EcatConfig → Prop where
  | read {parsed : EcatConfig}
      (slaves : parseSlavesSection libc alloc (configObj.item? "slaves") (withMaster configObj) =
        (parsed, none)) :
      ParsedSections libc alloc configObj { parsed with
        diagnostics :=
          parseDiagnosticsSection (configObj.item? "diagnostics") parsed.diagnostics }

/-- What `parseSections` validates is what the section parsers produce. -/
theorem parseSections_validates {libc : LibC} {alloc : Alloc} {configObj : Json}
    {config : EcatConfig} (accepted : parseSections libc alloc configObj = (config, none)) :
    ParsedSections libc alloc configObj config ∧ ecatConfigValidate config = .ok () := by
  unfold parseSections at accepted
  dsimp only at accepted
  split at accepted
  · simp at accepted
  · rename_i parsed sections
    split at accepted
    · simp at accepted
    · rename_i valid
      rw [Prod.mk.injEq] at accepted
      obtain ⟨rfl, _⟩ := accepted
      exact ⟨.read sections, valid⟩

/-! ## PDOs by their numbers -/

/-- `validate_pdos` at place `a` of its two arrays taken together. -/
def pdoAt (slave : EcatSlave) (a : Nat) : Option EcatPdo :=
  if a < slave.rxPdos.length then slave.rxPdos[a]? else slave.txPdos[a - slave.rxPdos.length]?

theorem pdoAt_eq (slave : EcatSlave) (a : Nat) : pdoAt slave a = slave.pdos[a]? := by
  unfold pdoAt EcatSlave.pdos
  split
  · rename_i received
    rw [List.getElem?_append_left received]
  · rename_i sent
    rw [List.getElem?_append_right (Nat.le_of_not_lt sent)]

/-- The triangular loop over both arrays finds a pair exactly if there is one. -/
theorem assignedTwice_places (slave : EcatSlave) :
    assignedTwice slave.pdos = true ↔
      ∃ a b, a < b ∧ ∃ pa pb, pdoAt slave a = some pa ∧ pdoAt slave b = some pb ∧
        pdoIndexValue pa.index = pdoIndexValue pb.index := by
  rw [← Bool.not_eq_false, assignedTwice_iff, List.pairwise_iff_getElem]
  simp only [pdoAt_eq]
  constructor
  · intro twice
    by_contra none
    refine twice fun a b aHere bHere below same => none ?_
    exact ⟨a, b, below, _, _, List.getElem?_eq_getElem aHere, List.getElem?_eq_getElem bHere, same⟩
  · rintro ⟨a, b, below, pa, pb, aFound, bFound, same⟩ apart
    obtain ⟨aHere, rfl⟩ := List.getElem?_eq_some_iff.mp aFound
    obtain ⟨bHere, rfl⟩ := List.getElem?_eq_some_iff.mp bFound
    exact apart a b aHere bHere below same

def Readable (index : Text) : Prop := ∃ v, parseHexU32 index = some v

theorem Readable.value {index : Text} (readable : Readable index) :
    (pdoIndexValue index).toNat = hexValue index := by
  obtain ⟨v, parsed⟩ := readable
  rw [pdoIndexValue, parsed]
  exact parseHexU32_value parsed

theorem Readable.same_iff {a b : Text} (aRead : Readable a) (bRead : Readable b) :
    pdoIndexValue a = pdoIndexValue b ↔ hexValue a = hexValue b := by
  rw [← UInt32.toNat_inj, aRead.value, bRead.value]

structure ReadableIndices (slave : EcatSlave) : Prop where
  pdos : ∀ pdo ∈ slave.pdos, Readable pdo.index
  mandatory : ∀ wanted ∈ slave.mandatoryPdos, Readable wanted

theorem PdoOf.readable {json : Json} {pdo : EcatPdo} (read : PdoOf json pdo) :
    Readable pdo.index := by
  obtain ⟨v, parsed, _⟩ := (Option.any_eq_true _ _).mp read.indexValue
  exact ⟨v, parsed⟩

theorem parseMandatoryPdo_readable {json : Json} {index : Text}
    (parsed : parseMandatoryPdo json = .ok index) : Readable index := by
  unfold parseMandatoryPdo at parsed
  split at parsed
  · rename_i idx found
    split at parsed
    · rename_i small
      cases parsed
      obtain ⟨digits, spelled, _⟩ := formatIndex_spelling (UInt32.le_iff_toNat_le.mp small)
      obtain ⟨v, read, _⟩ := spelled.parse
      exact ⟨v, read⟩
    · simp at parsed
  · simp at parsed

theorem SlaveOf.readable {libc : LibC} {json : Json} {slave : EcatSlave}
    (read : SlaveOf libc json slave) : ReadableIndices slave := by
  constructor
  · intro pdo member
    rcases List.mem_append.mp member with received | sent
    · obtain ⟨json, _, from_⟩ := exists_source read.rxPdos received
      exact from_.readable
    · obtain ⟨json, _, from_⟩ := exists_source read.txPdos sent
      exact from_.readable
  · intro wanted member
    obtain ⟨json, _, from_⟩ := exists_source read.mandatoryPdos member
    exact parseMandatoryPdo_readable from_

theorem ParsedSections.readable {libc : LibC} {alloc : Alloc} {configObj : Json}
    {config : EcatConfig} (parsed : ParsedSections libc alloc configObj config) :
    ∀ slave ∈ config.slaveList, ReadableIndices slave := by
  cases parsed with
  | read sections =>
      intro slave member
      have slaves := (parseSlavesSection_slaves rfl sections).2.1
      obtain ⟨json, _, alloc, from_⟩ := exists_source slaves member
      exact (parseSlave_ok from_).readable

/-! ## The valid configurations -/

structure SlaveIsValid (slave : EcatSlave) : Prop where
  position : 1 ≤ slave.position
  vendorId : slave.vendorId ≠ 0
  productCode : slave.productCode ≠ 0
  pdosApart : slave.pdos.Pairwise fun a b => hexValue a.index ≠ hexValue b.index
  mandatory : ∀ wanted ∈ slave.mandatoryPdos,
    ∃ pdo ∈ slave.pdos, hexValue pdo.index = hexValue wanted
  station : validateStation slave = .ok ()

structure ConfigValid (config : EcatConfig) : Prop where
  interface : config.master.interface ≠ []
  cycleTime : 1 ≤ config.master.cycleTimeUs
  receiveTimeout : 1 ≤ config.master.receiveTimeoutUs
  slaves : ∀ slave ∈ config.slaveList, SlaveIsValid slave
  positionsApart : config.slaveList.Pairwise fun a b => a.position ≠ b.position

theorem validatePdos_ok_iff {slave : EcatSlave} (readable : ReadableIndices slave) :
    validatePdos slave = .ok () ↔
      (slave.pdos.Pairwise fun a b => hexValue a.index ≠ hexValue b.index) ∧
        ∀ wanted ∈ slave.mandatoryPdos,
          ∃ pdo ∈ slave.pdos, hexValue pdo.index = hexValue wanted := by
  have apart : assignedTwice slave.pdos = false ↔
      slave.pdos.Pairwise fun a b => hexValue a.index ≠ hexValue b.index := by
    rw [assignedTwice_iff]
    refine List.Pairwise.iff_of_mem fun {a b} aHere bHere => ?_
    rw [Ne, (readable.pdos a aHere).same_iff (readable.pdos b bHere)]
  have found : (slave.mandatoryPdos.all fun wanted => slave.pdos.any fun pdo =>
      pdoIndexValue pdo.index == pdoIndexValue wanted) = true ↔
      ∀ wanted ∈ slave.mandatoryPdos,
        ∃ pdo ∈ slave.pdos, hexValue pdo.index = hexValue wanted := by
    simp only [List.all_eq_true, List.any_eq_true, beq_iff_eq]
    refine forall₂_congr fun wanted member => exists_congr fun pdo => and_congr_right fun here => ?_
    exact (readable.pdos pdo here).same_iff (readable.mandatory wanted member)
  unfold validatePdos
  simp only [bind_eq_ok, require_eq_ok, Bool.not_eq_true', apart, found, exists_and_left,
    exists_const]

theorem slaveValid_iff {slave : EcatSlave} (readable : ReadableIndices slave) :
    SlaveValid slave ↔ SlaveIsValid slave := by
  constructor
  · intro valid
    obtain ⟨apart, mandatory⟩ := (validatePdos_ok_iff readable).mp valid.pdos
    exact ⟨valid.position, valid.vendorId, valid.productCode, apart, mandatory, valid.station⟩
  · intro valid
    exact ⟨valid.position, valid.vendorId, valid.productCode,
      (validatePdos_ok_iff readable).mpr ⟨valid.pdosApart, valid.mandatory⟩, valid.station⟩

/-- Of what the section parsers produce, exactly the valid configurations pass. -/
theorem config_validate_ok_iff_valid (libc : LibC) (alloc : Alloc) (configObj : Json)
    (config : EcatConfig) (parsed : ParsedSections libc alloc configObj config) :
    ecatConfigValidate config = .ok () ↔ ConfigValid config := by
  have slaves : (∀ slave ∈ config.slaveList, SlaveValid slave) ↔
      ∀ slave ∈ config.slaveList, SlaveIsValid slave :=
    forall₂_congr fun slave member => slaveValid_iff (parsed.readable slave member)
  unfold ecatConfigValidate
  simp only [bind_eq_ok, require_eq_ok, validateSlaves_ok_iff, slaves, decide_eq_true_eq]
  constructor
  · rintro ⟨_, interface, _, ⟨cycleTime, receiveTimeout⟩, valid, apart⟩
    exact ⟨interface, cycleTime, receiveTimeout, valid, apart⟩
  · intro valid
    exact ⟨(), valid.interface, (), ⟨valid.cycleTime, valid.receiveTimeout⟩, valid.slaves,
      valid.positionsApart⟩

/-- One slave with two PDOs, of which one is mandatory in another spelling. -/
def twoPdosConfig : Json :=
  jsonObject [("slaves", .array [fakeSlaveJson [
    ("rx_pdos", .array [jsonObject [("index", jsonText "0x1600")]]),
    ("tx_pdos", .array [jsonObject [("index", jsonText "#x1A00")]]),
    ("mandatory_pdos", .array [jsonText "0X01a00"])]])]

theorem config_validate_ok_iff_valid_two_pdos :
    ConfigValid (parseSections noLibC (fun _ => true) twoPdosConfig).1 := by
  have accepted : (parseSections noLibC (fun _ => true) twoPdosConfig).2 = none := by
    decide
  obtain ⟨parsed, valid⟩ := parseSections_validates (Prod.ext rfl accepted)
  exact (config_validate_ok_iff_valid noLibC (fun _ => true) twoPdosConfig _ parsed).mp valid

end EtherDog
