import EtherDog.Config.ParseAll

/-!
# What an accepted document becomes

`PdoOf`, `SlaveOf` and `MasterOf` relate a JSON object to the record parsed from
it: every array of the record has the elements of its JSON array, in order, and
none where the member is absent or something else.
-/

set_option autoImplicit false

namespace EtherDog

open CString Checked

/-! ## Element by element -/

theorem parseArray_ok {α : Type} {alloc : Alloc} {items : List Json}
    {parse : Alloc → Json → Parsed α} {results : List α}
    (success : parseArray alloc items parse = .ok results) :
    List.Forall₂ (fun json result => ∃ alloc, parse alloc json = .ok result) items results := by
  unfold parseArray at success
  split at success
  · cases success
    exact .nil
  · obtain ⟨_, _, success⟩ := bind_eq_ok.mp success
    exact forall₂_of_exists (each_ok success) fun k _ _ parsed => ⟨alloc.under k, parsed⟩

theorem exists_source {α β : Type} {R : α → β → Prop} {sources : List α} {results : List β}
    {result : β} (read : List.Forall₂ R sources results) (member : result ∈ results) :
    ∃ source ∈ sources, R source result := by
  induction read with
  | nil => simp at member
  | @cons source here sources results related _ ih =>
      rcases List.mem_cons.mp member with rfl | member
      · exact ⟨source, by simp, related⟩
      · obtain ⟨other, there, found⟩ := ih member
        exact ⟨other, List.mem_cons_of_mem _ there, found⟩

structure PdoOf (json : Json) (pdo : EcatPdo) : Prop where
  index : pdo.index = safeStrcpy (getString json "index" "0x0000") indexFieldSize
  indexValue : (parseHexU32 pdo.index).any (fun v => v ≠ 0 ∧ v ≤ 0xFFFF) = true
  name : pdo.name = safeStrcpy (getString json "name" "") ecatMaxNameLen
  fixed : pdo.fixed = getBool json "fixed" false
  entries : List.Forall₂ (fun json entry => parsePdoEntry json = .ok entry)
    (json.items "entries") pdo.entries

theorem parsePdo_ok {alloc : Alloc} {json : Json} {pdo : EcatPdo}
    (success : parsePdo alloc json = .ok pdo) : PdoOf json pdo := by
  unfold parsePdo at success
  obtain ⟨_, checked, success⟩ := bind_eq_ok.mp success
  obtain ⟨entries, parsed, success⟩ := bind_eq_ok.mp success
  cases success
  refine ⟨rfl, require_eq_ok.mp checked, rfl, rfl, ?_⟩
  exact forall₂_of_exists (parseArray_ok parsed) fun _ _ _ parsed => parsed

structure SlotDefOf (json : Json) (slot : EcatSlotDef) : Prop where
  minInstances : slot.minInstances = getInt json "min_instances" 0
  maxInstances : slot.maxInstances = getInt json "max_instances" 0
  ordered : 0 ≤ slot.minInstances ∧ 1 ≤ slot.maxInstances ∧ slot.minInstances ≤ slot.maxInstances
  classes : List.Forall₂ (fun json name => parseModuleClass json = .ok name)
    (json.items "module_classes") slot.classes
  idents : List.Forall₂ (fun json ident => parseModuleIdent json = .ok ident)
    (json.items "module_idents") slot.idents

theorem parseSlotDef_ok {alloc : Alloc} {json : Json} {slot : EcatSlotDef}
    (success : parseSlotDef alloc json = .ok slot) : SlotDefOf json slot := by
  unfold parseSlotDef at success
  obtain ⟨_, checked, success⟩ := bind_eq_ok.mp success
  obtain ⟨classes, parsedClasses, success⟩ := bind_eq_ok.mp success
  obtain ⟨idents, parsedIdents, success⟩ := bind_eq_ok.mp success
  cases success
  refine ⟨rfl, rfl, by simpa using require_eq_ok.mp checked, ?_, ?_⟩
  · exact forall₂_of_exists (parseArray_ok parsedClasses) fun _ _ _ parsed => parsed
  · exact forall₂_of_exists (parseArray_ok parsedIdents) fun _ _ _ parsed => parsed

def modularJson (json : Json) : Json := (json.item? "modular").getD .null

structure ModularOf (json : Json) (modular : EcatModular) : Prop where
  slots : List.Forall₂ SlotDefOf (json.items "slots") modular.slots
  modules : List.Forall₂ (fun json mod => parseModule json = .ok mod)
    (json.items "modules") modular.modules

theorem parseModular_ok {alloc : Alloc} {json? : Option Json} {modular : EcatModular}
    (success : parseModular alloc json? = .ok modular) :
    ModularOf (json?.getD .null) modular := by
  unfold parseModular at success
  split at success
  · cases success
    exact ⟨.nil, .nil⟩
  · obtain ⟨_, _, success⟩ := bind_eq_ok.mp success
    obtain ⟨slots, parsedSlots, success⟩ := bind_eq_ok.mp success
    obtain ⟨modules, parsedModules, success⟩ := bind_eq_ok.mp success
    cases success
    refine ⟨?_, ?_⟩
    · exact forall₂_of_exists (parseArray_ok parsedSlots) fun _ _ _ parsed => parseSlotDef_ok parsed
    · exact forall₂_of_exists (parseArray_ok parsedModules) fun _ _ _ parsed => parsed
  · simp at success

theorem parseMandatoryPdos_ok {alloc : Alloc} {json : Json} {mandatory : List Text}
    (success : parseMandatoryPdos alloc json = .ok mandatory) :
    List.Forall₂ (fun json index => parseMandatoryPdo json = .ok index)
      (json.items "mandatory_pdos") mandatory := by
  unfold parseMandatoryPdos at success
  split at success
  · rename_i absent
    cases success
    simp [Json.items, absent]
  · rename_i items found
    have listed : json.items "mandatory_pdos" = items := by simp [Json.items, found]
    rw [listed]
    exact forall₂_of_exists (parseArray_ok success) fun _ _ _ parsed => parsed
  · simp at success

/-! ## Slaves and masters -/

structure SlaveOf (libc : LibC) (json : Json) (slave : EcatSlave) : Prop where
  position : slave.position = getInt json "position" 0
  name : slave.name = safeStrcpy (getString json "name" "") ecatMaxNameLen
  channels : slave.channels = (json.items "channels").map parseChannel
  sdoConfigs : List.Forall₂ (fun json sdo => ∃ alloc, parseSdo libc alloc json = .ok sdo)
    (json.items "sdo_configurations") slave.sdoConfigs
  rxPdos : List.Forall₂ PdoOf (json.items "rx_pdos") slave.rxPdos
  txPdos : List.Forall₂ PdoOf (json.items "tx_pdos") slave.txPdos
  mandatoryPdos : List.Forall₂ (fun json index => parseMandatoryPdo json = .ok index)
    (json.items "mandatory_pdos") slave.mandatoryPdos
  modular : ModularOf (modularJson json) slave.modular

theorem parseSlave_ok {libc : LibC} {alloc : Alloc} {json : Json} {slave : EcatSlave}
    (success : parseSlave libc alloc json = .ok slave) : SlaveOf libc json slave := by
  unfold parseSlave at success
  obtain ⟨vendorId, _, success⟩ := bind_eq_ok.mp success
  obtain ⟨productCode, _, success⟩ := bind_eq_ok.mp success
  obtain ⟨revision, _, success⟩ := bind_eq_ok.mp success
  obtain ⟨channels, parsedChannels, success⟩ := bind_eq_ok.mp success
  obtain ⟨sdoConfigs, parsedSdos, success⟩ := bind_eq_ok.mp success
  obtain ⟨rxPdos, parsedRx, success⟩ := bind_eq_ok.mp success
  obtain ⟨txPdos, parsedTx, success⟩ := bind_eq_ok.mp success
  obtain ⟨mandatoryPdos, parsedMandatory, success⟩ := bind_eq_ok.mp success
  obtain ⟨modular, parsedModular, success⟩ := bind_eq_ok.mp success
  cases success
  refine ⟨rfl, rfl, ?_, parseArray_ok parsedSdos, ?_, ?_, parseMandatoryPdos_ok parsedMandatory,
    parseModular_ok parsedModular⟩
  · have one : List.Forall₂ (fun json channel => parseChannel json = channel)
        (json.items "channels") channels :=
      forall₂_of_exists (parseArray_ok parsedChannels) fun _ _ _ parsed => Except.ok.inj parsed
    have same := List.forall₂_map_left_iff.mpr one
    rw [List.forall₂_eq_eq_eq] at same
    exact same.symm
  · exact forall₂_of_exists (parseArray_ok parsedRx) fun _ _ _ parsed => parsePdo_ok parsed
  · exact forall₂_of_exists (parseArray_ok parsedTx) fun _ _ _ parsed => parsePdo_ok parsed

structure MasterOf (libc : LibC) (entry : Json) (inst : ParsedInstance) : Prop where
  name : inst.name = instanceName entry
  config : ∃ configObj, entry.item? "config" = some configObj ∧
    inst.config.master = parseMasterSection (configObj.item? "master")
      ecatConfigInitDefaults.master ∧
    List.Forall₂ (SlaveOf libc) (configObj.items "slaves") inst.config.slaveList

/-- The entry is an EtherCAT master: its protocol equals ETHERCAT in any letter
case and it carries a configuration. -/
def isMasterEntry (entry : Json) : Bool :=
  (getString entry "protocol" "").map toLower == (text "ETHERCAT").map toLower &&
    (entry.item? "config").isSome

theorem masterConfig?_eq (entry : Json) :
    masterConfig? entry = if isMasterEntry entry then entry.item? "config" else none := by
  have folded := strcasecmpLocal_eq_zero_iff (getString entry "protocol" "") (text "ETHERCAT")
    (getString_nul_free entry "protocol" "" (by decide)) (by decide)
  unfold masterConfig? isMasterEntry
  by_cases same : strcasecmpLocal (getString entry "protocol" "") (text "ETHERCAT") = 0
  · rw [if_neg (by simpa using same), beq_iff_eq.mpr (folded.mp same)]
    cases entry.item? "config" with
    | none => rfl
    | some configObj => rfl
  · rw [if_pos same, beq_eq_false_iff_ne.mpr fun equal => same (folded.mpr equal)]
    rfl

theorem masterEntries_entry (i : Nat) (entries : List Json) :
    (masterEntries i entries).map MasterEntry.entry = entries.filter isMasterEntry := by
  induction entries generalizing i with
  | nil => rfl
  | cons entry rest ih =>
      rw [masterEntries, masterConfig?_eq]
      by_cases isMaster : isMasterEntry entry = true
      · rw [if_pos isMaster, List.filter_cons_of_pos isMaster]
        obtain ⟨configObj, found⟩ := Option.isSome_iff_exists.mp (Bool.and_eq_true_iff.mp isMaster).2
        simp [found, ih]
      · rw [if_neg isMaster, List.filter_cons_of_neg isMaster]
        exact ih (i + 1)

theorem masterEntries_config (i : Nat) (entries : List Json) :
    ∀ master ∈ masterEntries i entries,
      master.entry.item? "config" = some master.configObj := by
  induction entries generalizing i with
  | nil => simp [masterEntries]
  | cons entry rest ih =>
      intro master member
      rw [masterEntries] at member
      cases found : masterConfig? entry with
      | none =>
          rw [found] at member
          exact ih (i + 1) master member
      | some configObj =>
          rw [found] at member
          rcases List.mem_cons.mp member with rfl | later
          · rw [masterConfig?_eq] at found
            split at found
            · exact found
            · simp at found
          · exact ih (i + 1) master later

theorem parseMaster_accepted {libc : LibC} {alloc : Alloc} {master : MasterEntry}
    (found : master.entry.item? "config" = some master.configObj)
    (accepted : masterAccepted libc alloc master = true) :
    MasterOf libc master.entry (parseMaster libc alloc master).1 ∧
      ecatConfigValidate (parseMaster libc alloc master).1.config = .ok () := by
  simp only [masterAccepted, parseMaster, Option.isNone_iff_eq_none] at accepted ⊢
  obtain ⟨_, slaves, masterSection, valid⟩ := parseSections_accepted (Prod.ext rfl accepted)
  refine ⟨⟨rfl, master.configObj, found, masterSection, ?_⟩, valid⟩
  exact forall₂_of_exists slaves fun _ _ _ parsed => parseSlave_ok parsed

theorem sharesInterface_iff (instances : List ParsedInstance) :
    sharesInterface instances = false ↔
      instances.Pairwise fun a b => a.config.master.interface ≠ b.config.master.interface := by
  induction instances with
  | nil => simp [sharesInterface]
  | cons inst rest ih => simp [sharesInterface, ih]

/-- What OK with `count` masters says about the instances. -/
structure CompleteParse (libc : LibC) (entries : List Json) (maxMasters count : Nat)
    (instances : List ParsedInstance) : Prop where
  nonempty : 1 ≤ count
  fit : count ≤ maxMasters
  counted : (instances.take count).length = count
  masters : List.Forall₂ (MasterOf libc) (entries.filter isMasterEntry) (instances.take count)
  valid : ∀ inst ∈ instances.take count, ecatConfigValidate inst.config = .ok ()
  interfaces : (instances.take count).Pairwise fun a b =>
    a.config.master.interface ≠ b.config.master.interface

/-- An accepted array has every master parsed into the first instances. -/
theorem parseEntries_filled {libc : LibC} {alloc : Alloc} {entries : List Json}
    {instances : List ParsedInstance} {maxMasters : Nat}
    (size : instances.length = maxMasters)
    (accepted : (parseEntries libc alloc maxMasters 0 entries instances 0).failure = none) :
    (masterEntries 0 entries).all (masterAccepted libc alloc) = true ∧
      (masterEntries 0 entries).length ≤ maxMasters ∧
      1 ≤ (masterEntries 0 entries).length ∧
      (parseEntries libc alloc maxMasters 0 entries instances 0).count =
        (masterEntries 0 entries).length ∧
      (parseEntries libc alloc maxMasters 0 entries instances 0).instances.take
          (masterEntries 0 entries).length =
        (masterEntries 0 entries).map (fun m => (parseMaster libc alloc m).1) ∧
      sharesInterface ((masterEntries 0 entries).map fun m => (parseMaster libc alloc m).1) =
        false := by
  rw [parseEntries_eq] at accepted ⊢
  have ends := parseMasters_cases libc alloc maxMasters (masterEntries 0 entries) [] instances
    (by simpa using size)
  simp only [List.nil_append, List.length_nil, Nat.zero_add, size] at ends
  rcases ends with ⟨all, few, outcome⟩ | ⟨_, failure, filled, _, outcome⟩ | ⟨_, _, outcome⟩
  · rw [outcome] at accepted ⊢
    have front : List.take (masterEntries 0 entries).length
        ((masterEntries 0 entries).map (fun m => (parseMaster libc alloc m).1) ++
          instances.drop (masterEntries 0 entries).length) =
        (masterEntries 0 entries).map fun m => (parseMaster libc alloc m).1 := by
      rw [List.take_append_of_le_length (by simp), List.take_of_length_le (by simp)]
    unfold finishParse at accepted ⊢
    rw [front] at accepted ⊢
    split at accepted
    · simp at accepted
    · rename_i apart
      rw [if_neg apart]
      dsimp only at accepted ⊢
      refine ⟨all, few, ?_, rfl, front, by simpa using apart⟩
      by_contra zero
      simp [show ¬ 0 < (masterEntries 0 entries).length by omega] at accepted
  · rw [outcome] at accepted
    simp at accepted
  · rw [outcome] at accepted
    simp at accepted

theorem parseEntries_accepted {libc : LibC} {alloc : Alloc} {entries : List Json}
    {instances : List ParsedInstance} {maxMasters : Nat}
    (size : instances.length = maxMasters)
    (accepted : (parseEntries libc alloc maxMasters 0 entries instances 0).failure = none) :
    CompleteParse libc entries maxMasters
      (parseEntries libc alloc maxMasters 0 entries instances 0).count
      (parseEntries libc alloc maxMasters 0 entries instances 0).instances := by
  obtain ⟨all, few, nonempty, count, front, apart⟩ := parseEntries_filled size accepted
  have each (master : MasterEntry) (member : master ∈ masterEntries 0 entries) :=
    parseMaster_accepted (masterEntries_config 0 entries master member)
      (List.all_eq_true.mp all master member)
  rw [count]
  refine ⟨nonempty, few, ?_, ?_, ?_, ?_⟩
  · rw [front]
    simp
  · rw [front, ← masterEntries_entry 0 entries, List.forall₂_map_left_iff,
      List.forall₂_map_right_iff]
    exact List.forall₂_same.mpr fun master member => (each master member).1
  · rw [front]
    intro inst member
    obtain ⟨master, among, rfl⟩ := List.mem_map.mp member
    exact (each master among).2
  · rw [front]
    exact (sharesInterface_iff _).mp apart

theorem accepted_config_complete (libc : LibC) (alloc : Alloc) (entries : List Json)
    (instances : List ParsedInstance) (maxMasters : Nat) (size : instances.length = maxMasters) :
    ((ecatConfigParseAll libc alloc (.document (.array entries)) instances maxMasters).failure =
        none →
      CompleteParse libc entries maxMasters
        (ecatConfigParseAll libc alloc (.document (.array entries)) instances maxMasters).count
        (ecatConfigParseAll libc alloc (.document (.array entries)) instances
          maxMasters).instances) ∧
    (maxMasters < (entries.filter isMasterEntry).length →
      (ecatConfigParseAll libc alloc (.document (.array entries)) instances maxMasters).failure ≠
        none) := by
  refine ⟨fun accepted => parseEntries_accepted size accepted, ?_⟩
  intro many accepted
  have complete := parseEntries_accepted size accepted
  have same := complete.masters.length_eq
  rw [complete.counted] at same
  have fit := complete.fit
  omega

/-- A document with a foreign entry and two masters. -/
def mixedEntries : List Json :=
  [fakeEntryJson "eth0" [], jsonObject [("protocol", jsonText "MODBUS")],
    jsonObject [("protocol", jsonText "EtherCAT"), ("config", jsonObject
      [("master", jsonObject [("interface", jsonText "eth1")]),
        ("slaves", .array [fakeSlaveJson []])])]]

theorem accepted_config_complete_mixed :
    (ecatConfigParseAll noLibC (fun _ => true) (.document (.array mixedEntries))
        (List.replicate 4 emptyInstance) 4).count = 2 ∧
      CompleteParse noLibC mixedEntries 4
        (ecatConfigParseAll noLibC (fun _ => true) (.document (.array mixedEntries))
          (List.replicate 4 emptyInstance) 4).count
        (ecatConfigParseAll noLibC (fun _ => true) (.document (.array mixedEntries))
          (List.replicate 4 emptyInstance) 4).instances :=
  ⟨by decide,
    (accepted_config_complete noLibC (fun _ => true) mixedEntries _ 4 rfl).1 (by decide)⟩

end EtherDog
