import EtherDog.Config.Complete

/-!
# Numbers that are stored in a byte or a word (src/config.c)

The sub-indices and bit lengths of PDO entries and channels and the address of
a slave pass from a JSON number through the int cJSON keeps to an unchecked
cast.  `Read` says what `cJSON_Parse` makes of a number: the int saturates and
drops the fraction.  A stored value equals the number given exactly where that
number is an integer the field can hold.
-/

set_option autoImplicit false

namespace EtherDog

open CString Checked

/-! ## The numbers cJSON reads -/

def valueintMax : Int := 2 ^ 31 - 1
def valueintMin : Int := -2 ^ 31

/-- `valueint` of a number; no number of a text is a NaN. -/
def valueintOf (number : Double) : Int :=
  match number with
  | .finite q =>
      if (valueintMax : Rat) ≤ q then valueintMax
      else if q ≤ (valueintMin : Rat) then valueintMin
      else if 0 ≤ q then q.floor
      else q.ceil
  | .infinite negative => if negative then valueintMin else valueintMax
  | .nan => 0

/-- Trees as `cJSON_Parse` builds them. -/
inductive Json.Read : Json → Prop where
  | null : Read .null
  | bool (value : Bool) : Read (.bool value)
  | number (value : Double) : Read (.number (valueintOf value) value)
  | string (buffer : List UInt8) : Read (.string buffer)
  | array (items : List Json) (each : ∀ item ∈ items, Read item) : Read (.array items)
  | object (members : List (List UInt8 × Json)) (each : ∀ member ∈ members, Read member.2) :
      Read (.object members)

theorem Json.Read.item {json item : Json} {key : String} (read : json.Read)
    (found : json.item? key = some item) : item.Read := by
  cases read with
  | object members each =>
      obtain ⟨member, first, rfl⟩ := Option.map_eq_some_iff.mp found
      exact each member (List.mem_of_find?_eq_some first)
  | null | bool _ | number _ | string _ | array _ _ => simp [Json.item?] at found

theorem Json.Read.mem_items {json item : Json} {key : String} (read : json.Read)
    (member : item ∈ json.items key) : item.Read := by
  unfold Json.items at member
  split at member
  · rename_i items found
    cases read.item found with
    | array _ each => exact each item member
  · simp at member

def Json.sub (json : Json) (key : String) : Json := (json.section? key).getD (.object [])

theorem Json.Read.sub {json : Json} (read : json.Read) (key : String) : (json.sub key).Read := by
  unfold Json.sub Json.section?
  split
  · rename_i members found
    exact read.item found
  · exact .object [] (by simp)

/-! ## One field -/

def given? (json : Json) (key : String) : Option Double :=
  match json.item? key with
  | some (.number _ valuedouble) => some valuedouble
  | _ => none

def StoredExactly (stored : Nat) (json : Json) (key : String) : Prop :=
  (given? json key).getD (.finite 0) = .finite stored

def FitsField (bound : Nat) (json : Json) (key : String) : Prop :=
  ∀ number, given? json key = some number → ∃ value < bound, number = .finite (value : Nat)

def isNatBelow (bound : Nat) (number : Double) : Bool :=
  match number with
  | .finite q => q.den == 1 && decide (0 ≤ q.num) && decide (q.num < bound)
  | _ => false

theorem isNatBelow_iff (bound : Nat) (number : Double) :
    isNatBelow bound number = true ↔ ∃ value < bound, number = .finite (value : Nat) := by
  cases number with
  | finite q =>
      simp only [isNatBelow, Bool.and_eq_true, beq_iff_eq, decide_eq_true_eq, Double.finite.injEq]
      constructor
      · rintro ⟨⟨whole, low⟩, high⟩
        obtain ⟨value, same⟩ := Int.eq_ofNat_of_zero_le low
        refine ⟨value, by omega, ?_⟩
        rw [← Rat.coe_int_num_of_den_eq_one whole, same]
        rfl
      · rintro ⟨value, below, rfl⟩
        exact ⟨⟨Rat.den_natCast value, by simp⟩, by simpa using below⟩
  | infinite _ => simp [isNatBelow]
  | nan => simp [isNatBelow]

instance (bound : Nat) (json : Json) (key : String) : Decidable (FitsField bound json key) :=
  decidable_of_iff ((given? json key).all (isNatBelow bound) = true) (by
    cases found : given? json key with
    | none => simp [FitsField, found]
    | some number => simp [FitsField, found, isNatBelow_iff])

theorem valueintOf_nat {value : Nat} (small : value < 2 ^ 16) :
    valueintOf (.finite value) = value := by
  have low : ¬ (valueintMax : Rat) ≤ (value : Rat) := by
    have bound : (value : Rat) < 2 ^ 16 := by exact_mod_cast small
    norm_num [valueintMax] at bound ⊢
    linarith
  have high : ¬ (value : Rat) ≤ (valueintMin : Rat) := by
    have positive : (0 : Rat) ≤ value := Nat.cast_nonneg value
    norm_num [valueintMin]
    linarith
  simp only [valueintOf]
  rw [if_neg low, if_neg high, if_pos (Nat.cast_nonneg value)]
  exact_mod_cast Rat.floor_intCast (value : Int)

/-- A cast that keeps the integers below its bound stores exactly those. -/
theorem storedExactly_iff_fits {json : Json} {key : String} {bound : Nat} {cast : Int → Nat}
    (read : json.Read) (small : bound ≤ 2 ^ 16) (positive : 0 < bound)
    (keeps : ∀ value : Nat, value < bound → cast value = value) (range : ∀ v, cast v < bound) :
    StoredExactly (cast (getInt json key 0)) json key ↔ FitsField bound json key := by
  have zero : Double.finite 0 = .finite (cast 0) := by
    rw [show cast 0 = 0 from keeps 0 positive, Nat.cast_zero]
  unfold StoredExactly FitsField given? getInt
  cases found : json.item? key with
  | none => simpa using zero
  | some item =>
      cases read.item found with
      | number number =>
          simp only [Option.getD_some, Option.some.injEq, forall_eq']
          constructor
          · intro exact
            exact ⟨_, range _, exact⟩
          · rintro ⟨value, below, rfl⟩
            rw [valueintOf_nat (by omega), keeps value below]
      | null | bool _ | string _ | array _ _ | object _ _ =>
          simpa using zero

def castByte (v : Int) : Nat := (UInt8.ofInt v).toNat
def castWord (v : Int) : Nat := (UInt16.ofInt v).toNat

theorem storedByte_iff_fits {json : Json} (key : String) (read : json.Read) :
    StoredExactly (castByte (getInt json key 0)) json key ↔ FitsField (2 ^ 8) json key := by
  refine storedExactly_iff_fits read (by decide) (by decide) ?_ fun v => UInt8.toNat_lt _
  intro value below
  have wrapped : ((value : Int) % 2 ^ 8).toNat % 2 ^ 8 = value := by omega
  simpa [castByte, UInt8.ofInt] using wrapped

theorem storedWord_iff_fits {json : Json} (key : String) (read : json.Read) :
    StoredExactly (castWord (getInt json key 0)) json key ↔ FitsField (2 ^ 16) json key := by
  refine storedExactly_iff_fits read (by decide) (by decide) ?_ fun v => UInt16.toNat_lt _
  intro value below
  have wrapped : ((value : Int) % 2 ^ 16).toNat % 2 ^ 16 = value := by omega
  simpa [castWord, UInt16.ofInt] using wrapped

/-! ## Lists of fields -/

/-- Where each pair of a relation meets `Exact` just if its left side meets `Fits`. -/
theorem forall₂_iff_forall_mem {α β : Type} {Of Exact : α → β → Prop} {Fits : α → Prop}
    {xs : List α} {ys : List β} (paired : List.Forall₂ Of xs ys)
    (each : ∀ x ∈ xs, ∀ y, Of x y → (Exact x y ↔ Fits x)) :
    List.Forall₂ Exact xs ys ↔ ∀ x ∈ xs, Fits x := by
  induction paired with
  | nil => simp
  | @cons x y rest others first _ ih =>
      have here := each x List.mem_cons_self y first
      have later := ih fun z member => each z (List.mem_cons_of_mem x member)
      rw [List.forall₂_cons, List.forall_mem_cons, here, later]

def ExactEntry (json : Json) (entry : EcatPdoEntry) : Prop :=
  StoredExactly entry.subindex.toNat json "subindex" ∧
    StoredExactly entry.bitLength.toNat json "bit_length"

def EntryFits (json : Json) : Prop :=
  FitsField (2 ^ 8) json "subindex" ∧ FitsField (2 ^ 8) json "bit_length"

theorem exactEntry_iff {json : Json} {entry : EcatPdoEntry} (read : json.Read)
    (parsed : parsePdoEntry json = .ok entry) : ExactEntry json entry ↔ EntryFits json := by
  unfold parsePdoEntry at parsed
  obtain ⟨_, _, stored⟩ := bind_eq_ok.mp parsed
  cases stored
  exact and_congr (storedByte_iff_fits "subindex" read) (storedByte_iff_fits "bit_length" read)

def ExactChannel (json : Json) (channel : EcatChannel) : Prop :=
  StoredExactly channel.bitLength.toNat json "bit_length" ∧
    StoredExactly channel.pdoEntrySubindex.toNat json "pdo_entry_subindex"

def ChannelFits (json : Json) : Prop :=
  FitsField (2 ^ 8) json "bit_length" ∧ FitsField (2 ^ 8) json "pdo_entry_subindex"

instance (json : Json) : Decidable (ChannelFits json) := inferInstanceAs (Decidable (_ ∧ _))

theorem exactChannel_iff {json : Json} (read : json.Read) :
    ExactChannel json (parseChannel json) ↔ ChannelFits json :=
  and_congr (storedByte_iff_fits "bit_length" read) (storedByte_iff_fits "pdo_entry_subindex" read)

def ExactPdo (json : Json) (pdo : EcatPdo) : Prop :=
  List.Forall₂ ExactEntry (json.items "entries") pdo.entries

def PdoFits (json : Json) : Prop := ∀ entry ∈ json.items "entries", EntryFits entry

instance (json : Json) : Decidable (EntryFits json) := inferInstanceAs (Decidable (_ ∧ _))

instance (json : Json) : Decidable (PdoFits json) := inferInstanceAs (Decidable (∀ _ ∈ _, _))

theorem exactPdo_iff {json : Json} {pdo : EcatPdo} (read : json.Read) (parsed : PdoOf json pdo) :
    ExactPdo json pdo ↔ PdoFits json :=
  forall₂_iff_forall_mem parsed.entries fun _ member _ => exactEntry_iff (read.mem_items member)

/-- The object that holds the address of a slave. -/
def addressing (json : Json) : Json := (json.sub "config").sub "addressing"

structure ExactSlave (json : Json) (slave : EcatSlave) : Prop where
  channels : List.Forall₂ ExactChannel (json.items "channels") slave.channels
  rxPdos : List.Forall₂ ExactPdo (json.items "rx_pdos") slave.rxPdos
  txPdos : List.Forall₂ ExactPdo (json.items "tx_pdos") slave.txPdos
  address : StoredExactly slave.ethercatAddress.toNat (addressing json) "ethercat_address"

structure SlaveFits (json : Json) : Prop where
  channels : ∀ channel ∈ json.items "channels", ChannelFits channel
  rxPdos : ∀ pdo ∈ json.items "rx_pdos", PdoFits pdo
  txPdos : ∀ pdo ∈ json.items "tx_pdos", PdoFits pdo
  address : FitsField (2 ^ 16) (addressing json) "ethercat_address"

instance (json : Json) : Decidable (SlaveFits json) :=
  decidable_of_iff ((∀ channel ∈ json.items "channels", ChannelFits channel) ∧
      (∀ pdo ∈ json.items "rx_pdos", PdoFits pdo) ∧ (∀ pdo ∈ json.items "tx_pdos", PdoFits pdo) ∧
      FitsField (2 ^ 16) (addressing json) "ethercat_address")
    ⟨fun ⟨channels, rxPdos, txPdos, address⟩ => ⟨channels, rxPdos, txPdos, address⟩,
      fun ⟨channels, rxPdos, txPdos, address⟩ => ⟨channels, rxPdos, txPdos, address⟩⟩

theorem parseAddressing_eq (cfg : Json) :
    parseAddressing cfg = UInt16.ofInt (getInt (cfg.sub "addressing") "ethercat_address" 0) := by
  unfold parseAddressing Json.sub
  cases cfg.section? "addressing" with
  | none => rfl
  | some addr => rfl

theorem parseSlave_settings {libc : LibC} {alloc : Alloc} {json : Json} {slave : EcatSlave}
    (success : parseSlave libc alloc json = .ok slave) :
    slave.ethercatAddress = parseAddressing (json.sub "config") ∧
      slave.timeouts = parseTimeouts (json.sub "config") := by
  unfold parseSlave at success
  obtain ⟨vendorId, _, success⟩ := bind_eq_ok.mp success
  obtain ⟨productCode, _, success⟩ := bind_eq_ok.mp success
  obtain ⟨revision, _, success⟩ := bind_eq_ok.mp success
  obtain ⟨channels, _, success⟩ := bind_eq_ok.mp success
  obtain ⟨sdoConfigs, _, success⟩ := bind_eq_ok.mp success
  obtain ⟨rxPdos, _, success⟩ := bind_eq_ok.mp success
  obtain ⟨txPdos, _, success⟩ := bind_eq_ok.mp success
  obtain ⟨mandatoryPdos, _, success⟩ := bind_eq_ok.mp success
  obtain ⟨modular, _, success⟩ := bind_eq_ok.mp success
  cases success
  exact ⟨rfl, rfl⟩

theorem castWord_address {libc : LibC} {alloc : Alloc} {json : Json} {slave : EcatSlave}
    (success : parseSlave libc alloc json = .ok slave) :
    slave.ethercatAddress.toNat = castWord (getInt (addressing json) "ethercat_address" 0) := by
  rw [(parseSlave_settings success).1, parseAddressing_eq]
  rfl

theorem exactSlave_iff {libc : LibC} {alloc : Alloc} {json : Json} {slave : EcatSlave}
    (read : json.Read) (parsed : parseSlave libc alloc json = .ok slave) :
    ExactSlave json slave ↔ SlaveFits json := by
  have stored := parseSlave_ok parsed
  have listed : List.Forall₂ (fun json channel => parseChannel json = channel)
      (json.items "channels") slave.channels := by
    rw [stored.channels, List.forall₂_map_right_iff]
    exact List.forall₂_same.mpr fun _ _ => rfl
  have channels : List.Forall₂ ExactChannel (json.items "channels") slave.channels ↔
      ∀ channel ∈ json.items "channels", ChannelFits channel := forall₂_iff_forall_mem listed
    (by
      rintro channel member _ rfl
      exact exactChannel_iff (read.mem_items member))
  have rxPdos : List.Forall₂ ExactPdo (json.items "rx_pdos") slave.rxPdos ↔
      ∀ pdo ∈ json.items "rx_pdos", PdoFits pdo := forall₂_iff_forall_mem stored.rxPdos
    fun _ member _ => exactPdo_iff (read.mem_items member)
  have txPdos : List.Forall₂ ExactPdo (json.items "tx_pdos") slave.txPdos ↔
      ∀ pdo ∈ json.items "tx_pdos", PdoFits pdo := forall₂_iff_forall_mem stored.txPdos
    fun _ member _ => exactPdo_iff (read.mem_items member)
  have addressRead : (addressing json).Read := (read.sub "config").sub "addressing"
  have address := storedWord_iff_fits "ethercat_address" addressRead
  rw [← castWord_address parsed] at address
  constructor
  · rintro ⟨first, second, third, fourth⟩
    exact ⟨channels.mp first, rxPdos.mp second, txPdos.mp third, address.mp fourth⟩
  · rintro ⟨first, second, third, fourth⟩
    exact ⟨channels.mpr first, rxPdos.mpr second, txPdos.mpr third, address.mpr fourth⟩

/-! ## Accepted documents -/

def configsOf (root : Json) : List Json :=
  match root with
  | .array entries => (masterEntries 0 entries).map MasterEntry.configObj
  | root => [(root.item? "config").getD root]

def ExactConfig (configObj : Json) (inst : ParsedInstance) : Prop :=
  List.Forall₂ ExactSlave (configObj.items "slaves") inst.config.slaveList

def ConfigFits (configObj : Json) : Prop := ∀ slave ∈ configObj.items "slaves", SlaveFits slave

/-- Every number of the document that goes to a byte or a word is an integer it can hold. -/
def NumbersFit (root : Json) : Prop := ∀ configObj ∈ configsOf root, ConfigFits configObj

instance (configObj : Json) : Decidable (ConfigFits configObj) :=
  inferInstanceAs (Decidable (∀ _ ∈ _, _))

instance (root : Json) : Decidable (NumbersFit root) := inferInstanceAs (Decidable (∀ _ ∈ _, _))

/-- An accepted document has its numbers stored exactly, and one with a number
that does not fit is refused. -/
def NumbersKept (root : Json) (outcome : ParseOutcome) : Prop :=
  (outcome.failure = none →
    List.Forall₂ ExactConfig (configsOf root) (outcome.instances.take outcome.count)) ∧
  (¬ NumbersFit root → outcome.failure ≠ none)

theorem exactConfig_iff {libc : LibC} {alloc : Alloc} {configObj : Json} {inst : ParsedInstance}
    (read : configObj.Read) (accepted : parseSections libc alloc configObj = (inst.config, none)) :
    ExactConfig configObj inst ↔ ConfigFits configObj := by
  obtain ⟨_, slaves, _⟩ := parseSections_accepted accepted
  apply forall₂_iff_forall_mem slaves
  rintro slave member _ ⟨_, parsed⟩
  exact exactSlave_iff (read.mem_items member) parsed

theorem mem_of_masterEntries {i : Nat} {entries : List Json} {master : MasterEntry}
    (member : master ∈ masterEntries i entries) : master.entry ∈ entries := by
  have among := List.mem_map_of_mem (f := MasterEntry.entry) member
  rw [masterEntries_entry] at among
  exact List.mem_of_mem_filter among

theorem read_configsOf {root configObj : Json} (read : root.Read)
    (member : configObj ∈ configsOf root) : configObj.Read := by
  have bare (json : Json) (read : json.Read) : ((json.item? "config").getD json).Read := by
    cases found : json.item? "config" with
    | none => exact read
    | some item => exact read.item found
  cases read with
  | array entries each =>
      obtain ⟨master, among, rfl⟩ := List.mem_map.mp member
      exact (each _ (mem_of_masterEntries among)).item
        (masterEntries_config 0 entries master among)
  | null => rw [List.mem_singleton.mp member]; exact bare _ .null
  | bool value => rw [List.mem_singleton.mp member]; exact bare _ (.bool value)
  | number value => rw [List.mem_singleton.mp member]; exact bare _ (.number value)
  | string buffer => rw [List.mem_singleton.mp member]; exact bare _ (.string buffer)
  | object members each => rw [List.mem_singleton.mp member]; exact bare _ (.object members each)

section Accepted
variable (libc : LibC) (alloc : Alloc) {instances : List ParsedInstance} {maxMasters : Nat}

theorem parseBare_sections (root : Json) (size : instances.length = maxMasters)
    (positive : 1 ≤ maxMasters)
    (accepted : (parseBare libc alloc root instances).failure = none) :
    List.Forall₂ (fun configObj inst => ∃ alloc, parseSections libc alloc configObj =
        (inst.config, none)) [(root.item? "config").getD root]
      ((parseBare libc alloc root instances).instances.take
        (parseBare libc alloc root instances).count) := by
  cases instances with
  | nil =>
      simp only [List.length_nil] at size
      omega
  | cons first rest =>
      unfold parseBare at accepted ⊢
      dsimp only at accepted ⊢
      cases sections : parseSections libc alloc ((root.item? "config").getD root) with
      | mk config failure =>
      rw [sections] at accepted
      cases failure with
      | some failure => simp at accepted
      | none => exact .cons ⟨alloc, sections⟩ .nil

theorem parseEntries_sections (entries : List Json) (size : instances.length = maxMasters)
    (accepted : (parseEntries libc alloc maxMasters 0 entries instances 0).failure = none) :
    List.Forall₂ (fun configObj inst => ∃ alloc, parseSections libc alloc configObj =
        (inst.config, none)) ((masterEntries 0 entries).map MasterEntry.configObj)
      ((parseEntries libc alloc maxMasters 0 entries instances 0).instances.take
        (parseEntries libc alloc maxMasters 0 entries instances 0).count) := by
  obtain ⟨all, _, _, count, front, _⟩ := parseEntries_filled size accepted
  rw [count, front, List.forall₂_map_left_iff, List.forall₂_map_right_iff]
  apply List.forall₂_same.mpr
  intro master member
  have parsed := List.all_eq_true.mp all master member
  simp only [masterAccepted, parseMaster, Option.isNone_iff_eq_none] at parsed
  exact ⟨alloc.under master.index, Prod.ext rfl parsed⟩

theorem parseAll_sections (root : Json) (size : instances.length = maxMasters)
    (positive : 1 ≤ maxMasters)
    (accepted : (ecatConfigParseAll libc alloc (.document root) instances maxMasters).failure =
      none) :
    List.Forall₂ (fun configObj inst => ∃ alloc, parseSections libc alloc configObj =
        (inst.config, none)) (configsOf root)
      ((ecatConfigParseAll libc alloc (.document root) instances maxMasters).instances.take
        (ecatConfigParseAll libc alloc (.document root) instances maxMasters).count) := by
  cases root with
  | array entries => exact parseEntries_sections libc alloc entries size accepted
  | null => exact parseBare_sections libc alloc .null size positive accepted
  | bool value => exact parseBare_sections libc alloc (.bool value) size positive accepted
  | number valueint valuedouble =>
      exact parseBare_sections libc alloc (.number valueint valuedouble) size positive accepted
  | string buffer => exact parseBare_sections libc alloc (.string buffer) size positive accepted
  | object members => exact parseBare_sections libc alloc (.object members) size positive accepted

theorem parseAll_configs_ne_nil (root : Json) (size : instances.length = maxMasters)
    (accepted : (ecatConfigParseAll libc alloc (.document root) instances maxMasters).failure =
      none) : configsOf root ≠ [] := by
  cases root with
  | array entries =>
      obtain ⟨_, _, nonempty, _⟩ := parseEntries_filled size accepted
      intro empty
      rw [configsOf, List.map_eq_nil_iff] at empty
      simp [empty] at nonempty
  | null | bool _ | number _ _ | string _ | object _ => simp [configsOf]

end Accepted

/-- An accepted document has its numbers stored exactly just if they all fit:
none that does not is refused. -/
theorem accepted_numbers_kept_iff_fit (libc : LibC) (alloc : Alloc) (root : Json)
    (instances : List ParsedInstance) (maxMasters : Nat) (positive : 1 ≤ maxMasters)
    (size : instances.length = maxMasters) (read : root.Read)
    (accepted : (ecatConfigParseAll libc alloc (.document root) instances maxMasters).failure =
      none) :
    NumbersKept root (ecatConfigParseAll libc alloc (.document root) instances maxMasters) ↔
      NumbersFit root := by
  have exact_iff : List.Forall₂ ExactConfig (configsOf root) _ ↔
      ∀ configObj ∈ configsOf root, ConfigFits configObj :=
    forall₂_iff_forall_mem (parseAll_sections libc alloc root size positive accepted) (by
      rintro configObj member _ ⟨_, parsed⟩
      exact exactConfig_iff (read_configsOf read member) parsed)
  constructor
  · rintro ⟨stored, _⟩
    exact exact_iff.mp (stored accepted)
  · intro fit
    exact ⟨fun _ => exact_iff.mpr fit, fun misfit => absurd fit misfit⟩

/-! ## A bit length of 264 -/

def wideEntryJson (bitLength : Int) : Json :=
  jsonObject [("index", jsonText "0x7000"), ("subindex", jsonInt 1),
    ("bit_length", jsonInt bitLength)]

def widePdoJson (bitLength : Int) : Json :=
  jsonObject [("index", jsonText "0x1600"), ("entries", .array [wideEntryJson bitLength])]

def wideSlaveJson (bitLength : Int) : Json :=
  fakeSlaveJson [("rx_pdos", .array [widePdoJson bitLength])]

def wideConfigJson (bitLength : Int) : Json :=
  jsonObject [("master", jsonObject [("interface", jsonText "eth0")]),
    ("slaves", .array [wideSlaveJson bitLength])]

def wideRootJson (bitLength : Int) : Json :=
  .array [jsonObject [("protocol", jsonText "ETHERCAT"), ("config", wideConfigJson bitLength)]]

theorem jsonInt_read {v : Int} (low : 0 ≤ v) (small : v < 2 ^ 16) : (jsonInt v).Read := by
  obtain ⟨value, rfl⟩ := Int.eq_ofNat_of_zero_le low
  have same : valueintOf (.finite ((value : Int) : Rat)) = value := by
    exact_mod_cast valueintOf_nat (by omega)
  have read := Json.Read.number (.finite ((value : Int) : Rat))
  rw [same] at read
  exact read

theorem jsonObject_read {members : List (String × Json)} (each : ∀ m ∈ members, m.2.Read) :
    (jsonObject members).Read := by
  refine .object _ ?_
  intro member among
  obtain ⟨m, listed, rfl⟩ := List.mem_map.mp among
  exact each m listed

theorem wideRootJson_read {bitLength : Int} (low : 0 ≤ bitLength) (small : bitLength < 2 ^ 16) :
    (wideRootJson bitLength).Read := by
  have word (s : String) : (jsonText s).Read := .string _
  have one : (jsonInt 1).Read := jsonInt_read (by decide) (by decide)
  have entry : (wideEntryJson bitLength).Read :=
    jsonObject_read (by simp [word, one, jsonInt_read low small])
  have pdo : (widePdoJson bitLength).Read :=
    jsonObject_read (by
      simp [word, Json.Read.array [wideEntryJson bitLength] (by simpa using entry)])
  have slave : (wideSlaveJson bitLength).Read :=
    jsonObject_read (by
      simp [word, one, Json.Read.array [widePdoJson bitLength] (by simpa using pdo)])
  have master : (jsonObject [("interface", jsonText "eth0")]).Read :=
    jsonObject_read (by simp [word])
  have config : (wideConfigJson bitLength).Read :=
    jsonObject_read (by
      simp [master, Json.Read.array [wideSlaveJson bitLength] (by simpa using slave)])
  exact .array _ (by simpa using jsonObject_read (by simp [word, config]))

/-- The entry is taken with a bit length of 8. -/
theorem bit_length_264_accepted :
    ¬ ∀ (libc : LibC) (alloc : Alloc) (root : Json) (instances : List ParsedInstance)
        (maxMasters : Nat), 1 ≤ maxMasters → instances.length = maxMasters → root.Read →
        NumbersKept root (ecatConfigParseAll libc alloc (.document root) instances maxMasters) := by
  intro always
  have kept := always noLibC (fun _ => true) (wideRootJson 264) (List.replicate 4 emptyInstance) 4
    (by decide) rfl (wideRootJson_read (by decide) (by decide))
  exact kept.2 (by decide) (by decide)

theorem accepted_numbers_kept_iff_fit_byte :
    NumbersKept (wideRootJson 8) (ecatConfigParseAll noLibC (fun _ => true)
      (.document (wideRootJson 8)) (List.replicate 4 emptyInstance) 4) := by
  refine (accepted_numbers_kept_iff_fit noLibC (fun _ => true) _ _ 4 (by decide) rfl
    (wideRootJson_read (by decide) (by decide)) (by decide)).mpr ?_
  decide

end EtherDog
