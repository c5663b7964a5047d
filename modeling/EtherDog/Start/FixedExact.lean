import EtherDog.Start.Configured
import EtherDog.Config.Valid

/-!
# What the check of fixed PDOs compares (src/master.c)

`ChecksConfigured` is the check a reader of the configuration expects: it looks
up every fixed PDO by the number its text denotes and compares the numbers of its
entries.  The source reads the texts again with `strtoul`, which finds nothing
behind `#`, so the two agree exactly where no such text matters.
-/

set_option autoImplicit false

namespace EtherDog

open CString Trail

/-- The number a text denotes in any spelling. -/
def numericIndex (index : Text) : UInt32 := UInt32.ofNat (hexValue index)

def HashSpelled (index : Text) : Prop := ∃ rest, index = 35 :: rest

/-! ## The texts of an accepted configuration -/

structure FixedTexts (pdo : EcatPdo) : Prop where
  index : ∃ v, parseHexU32 pdo.index = some v ∧ v ≠ 0 ∧ v ≤ 0xFFFF
  entries : ∀ entry ∈ pdo.entries, ∃ v, parseHexU32 entry.index = some v ∧ v ≤ 0xFFFF

theorem numericIndex_eq {index : Text} {v : UInt32} (parsed : parseHexU32 index = some v) :
    numericIndex index = v := by
  rw [numericIndex, ← parseHexU32_value parsed]
  exact UInt32.ofNat_toNat

theorem strtoulIndex_plain {index : Text} {v : UInt32} (parsed : parseHexU32 index = some v)
    (plain : ¬ HashSpelled index) : strtoulIndex index = numericIndex index := by
  obtain ⟨lead, mark, digits, spelled⟩ := parseHexU32_spelling parsed
  rcases spelled.lead with rfl | rfl
  · rw [strtoulIndex, spelled.strtoul_zero, numericIndex]
  · exact absurd ⟨_, spelled.text⟩ plain

theorem strtoulIndex_hash {index : Text} {v : UInt32} (parsed : parseHexU32 index = some v)
    (hash : HashSpelled index) : strtoulIndex index = 0 := by
  obtain ⟨rest, shape⟩ := hash
  obtain ⟨lead, mark, digits, spelled⟩ := parseHexU32_spelling parsed
  have first : lead = 35 := by
    have same := spelled.text.symm.trans shape
    simp only [List.cons.injEq] at same
    exact same.1
  subst first
  rw [strtoulIndex, spelled.strtoul_hash]
  rfl

theorem parsePdoEntry_index {json : Json} {entry : EcatPdoEntry}
    (parsed : parsePdoEntry json = .ok entry) :
    ∃ v, parseHexU32 entry.index = some v ∧ v ≤ 0xFFFF := by
  unfold parsePdoEntry at parsed
  obtain ⟨_, checked, parsed⟩ := Checked.bind_eq_ok.mp parsed
  cases parsed
  rw [Checked.require_eq_ok, Option.any_eq_true] at checked
  simpa using checked

theorem PdoOf.fixedTexts {json : Json} {pdo : EcatPdo} (read : PdoOf json pdo) :
    FixedTexts pdo := by
  constructor
  · simpa using (Option.any_eq_true _ _).mp read.indexValue
  · intro entry member
    obtain ⟨json, _, parsed⟩ := exists_source read.entries member
    exact parsePdoEntry_index parsed

theorem accepted_fixedTexts {libc : LibC} {alloc : Alloc} {configObj : Json} {config : EcatConfig}
    (accepted : parseSections libc alloc configObj = (config, none)) :
    ∀ slave ∈ config.slaveList, ∀ pdo ∈ slave.pdos, FixedTexts pdo := by
  intro slave listed pdo among
  obtain ⟨json, _, alloc, from_⟩ := exists_source (parseSections_accepted accepted).2.1 listed
  have read := parseSlave_ok from_
  rcases List.mem_append.mp among with received | sent
  · obtain ⟨json, _, from_⟩ := exists_source read.rxPdos received
    exact from_.fixedTexts
  · obtain ⟨json, _, from_⟩ := exists_source read.txPdos sent
    exact from_.fixedTexts

/-! ## The check that is meant -/

/-- A read of a fixed PDO's mapping object, at the number of the PDO. -/
def ReadsConfigured (config : EcatConfig) (oracle : Oracle) (call : StartCall) : Prop :=
  ∃ slave ∈ config.slaveList, checkedSlave oracle slave = true ∧
    ∃ pdo ∈ slave.pdos, pdo.fixed = true ∧ ∃ subindex answer,
      call = .sdoRead slave.position (numericIndex pdo.index).toUInt16 subindex
        (sdoTimeoutUs slave) answer

/-- The first read of a PDO, with its index read by `value`. -/
def countRead (value : Text → UInt32) (oracle : Oracle) (slave : EcatSlave) (pdo : EcatPdo) :
    StartCall :=
  .sdoRead slave.position (value pdo.index).toUInt16 0 (sdoTimeoutUs slave)
    (mappingObject value oracle slave pdo 0)

structure ChecksConfigured (config : EcatConfig) (oracle : Oracle) : Prop where
  reads : (ecatMasterVerifyFixedPdos config oracle).All (ReadsConfigured config oracle)
  covers : (ecatMasterVerifyFixedPdos config oracle).ok = true →
    ∀ slave ∈ config.slaveList, checkedSlave oracle slave = true →
      ∀ pdo ∈ slave.pdos, pdo.fixed = true →
        countRead numericIndex oracle slave pdo ∈ (ecatMasterVerifyFixedPdos config oracle).events
  verdict : (ecatMasterVerifyFixedPdos config oracle).ok = true ↔
    ∀ slave ∈ config.slaveList, checkedSlave oracle slave = true →
      ∀ pdo ∈ slave.pdos, pdo.fixed = true → ¬ PdoDiffers numericIndex oracle slave pdo

/-- A `#` that hides the PDO, or an entry where the entry counts can agree. -/
def HashMisread (pdo : EcatPdo) : Prop :=
  HashSpelled pdo.index ∨ (pdo.entries.length ≤ 255 ∧
    ∃ entry ∈ pdo.entries, HashSpelled entry.index ∧ hexValue entry.index ≠ 0)

/-! ## The calls of the check -/

theorem verifyMapping_countRead (read : UInt8 → SdoAnswer)
    (call : UInt8 → SdoAnswer → StartCall) (expected : List UInt32) :
    call 0 (read 0) ∈ (verifyMapping read call expected).events := by
  unfold verifyMapping
  split
  · simp
  · exact mem_andThen.mpr (Or.inl (by simp))

theorem verifyFixedPdos_countRead {config : EcatConfig} {oracle : Oracle}
    (passed : (ecatMasterVerifyFixedPdos config oracle).ok = true) {slave : EcatSlave}
    (listed : slave ∈ config.slaveList) (checked : checkedSlave oracle slave = true)
    {pdo : EcatPdo} (among : pdo ∈ slave.pdos) (fixed : pdo.fixed = true) :
    countRead strtoulIndex oracle slave pdo ∈ (ecatMasterVerifyFixedPdos config oracle).events := by
  have one : countRead strtoulIndex oracle slave pdo ∈ (verifyFixedPdo oracle slave pdo).events := by
    rw [verifyFixedPdo, if_neg (by simp [fixed])]
    exact verifyMapping_countRead _ _ _
  unfold ecatMasterVerifyFixedPdos at passed ⊢
  have slaves := (each_ok_iff _ _).mp passed
  rw [each_events _ _ slaves, List.mem_flatMap]
  refine ⟨slave, listed, ?_⟩
  have both := slaves slave listed
  rw [if_neg (by simp [checked]), andThen_ok, Bool.and_eq_true] at both
  rw [if_neg (by simp [checked]), andThen_events both.1, List.mem_append]
  unfold verifyFixedDirection at both ⊢
  rw [each_events _ _ ((each_ok_iff _ _).mp both.1), each_events _ _ ((each_ok_iff _ _).mp both.2)]
  simp only [List.mem_flatMap]
  rcases List.mem_append.mp among with received | sent
  · exact Or.inl ⟨pdo, received, one⟩
  · exact Or.inr ⟨pdo, sent, one⟩

theorem verifyFixedPdos_reads {config : EcatConfig} {oracle : Oracle}
    (rightly : ∀ slave ∈ config.slaveList, checkedSlave oracle slave = true →
      ∀ pdo ∈ slave.pdos, pdo.fixed = true → strtoulIndex pdo.index = numericIndex pdo.index) :
    (ecatMasterVerifyFixedPdos config oracle).All (ReadsConfigured config oracle) := by
  apply all_each
  intro slave listed
  split
  · exact all_done
  · rename_i checked
    rw [Bool.not_eq_false] at checked
    have one : ∀ pdo ∈ slave.pdos,
        (verifyFixedPdo oracle slave pdo).All (ReadsConfigured config oracle) := by
      intro pdo among
      unfold verifyFixedPdo
      split
      · exact all_done
      · rename_i fixed
        rw [Bool.not_eq_false] at fixed
        apply verifyMapping_calls
        intro subindex answer
        rw [rightly slave listed checked pdo among fixed]
        exact ⟨slave, listed, checked, pdo, among, fixed, subindex, answer, rfl⟩
    refine all_andThen (all_each fun pdo received => ?_) (all_each fun pdo sent => ?_)
    · exact one pdo (List.mem_append_left _ received)
    · exact one pdo (List.mem_append_right _ sent)

/-! ## Where no text is misread -/

/-- A mapping with more entries than an entry count can say never agrees. -/
theorem mappingDiffers_long {read : UInt8 → SdoAnswer} {expected : List UInt32}
    (long : 255 < expected.length) :
    MappingDiffers read expected ↔ ∃ n, readCount (read 0) = some n := by
  constructor
  · rintro ⟨n, counted, _⟩
    exact ⟨n, counted⟩
  · rintro ⟨n, counted⟩
    have small := UInt8.toNat_lt n
    exact ⟨n, counted, Or.inl (by omega)⟩

theorem pdoDiffers_numeric {pdo : EcatPdo} (texts : FixedTexts pdo) (rightly : ¬ HashMisread pdo)
    (oracle : Oracle) (slave : EcatSlave) :
    PdoDiffers strtoulIndex oracle slave pdo ↔ PdoDiffers numericIndex oracle slave pdo := by
  simp only [HashMisread, not_or, not_and, not_exists, not_not] at rightly
  obtain ⟨plain, entries⟩ := rightly
  obtain ⟨v, parsed, _⟩ := texts.index
  have sameObject : mappingObject strtoulIndex oracle slave pdo =
      mappingObject numericIndex oracle slave pdo := by
    funext subindex
    rw [mappingObject, mappingObject, strtoulIndex_plain parsed plain]
  unfold PdoDiffers
  rw [sameObject]
  by_cases long : 255 < pdo.entries.length
  · rw [mappingDiffers_long (by simpa [expectedMapping] using long),
      mappingDiffers_long (by simpa [expectedMapping] using long)]
  · have sameEntries : expectedMapping strtoulIndex pdo = expectedMapping numericIndex pdo := by
      apply List.map_congr_left
      intro entry member
      obtain ⟨w, parsedEntry, _⟩ := texts.entries entry member
      by_cases hash : HashSpelled entry.index
      · -- a zero behind `#` is read as the zero it is
        have zero := entries (by omega) entry member hash
        rw [strtoulIndex_hash parsedEntry hash, numericIndex, zero]
        rfl
      · rw [strtoulIndex_plain parsedEntry hash]
    rw [sameEntries]

theorem checksConfigured_of_plain {config : EcatConfig} {oracle : Oracle}
    (texts : ∀ slave ∈ config.slaveList, ∀ pdo ∈ slave.pdos, FixedTexts pdo)
    (rightly : ∀ slave ∈ config.slaveList, checkedSlave oracle slave = true →
      ∀ pdo ∈ slave.pdos, pdo.fixed = true → ¬ HashMisread pdo) :
    ChecksConfigured config oracle := by
  have sameIndex : ∀ slave ∈ config.slaveList, checkedSlave oracle slave = true →
      ∀ pdo ∈ slave.pdos, pdo.fixed = true → strtoulIndex pdo.index = numericIndex pdo.index := by
    intro slave listed checked pdo among fixed
    obtain ⟨v, parsed, _⟩ := (texts slave listed pdo among).index
    exact strtoulIndex_plain parsed fun hash =>
      rightly slave listed checked pdo among fixed (Or.inl hash)
  refine ⟨verifyFixedPdos_reads sameIndex, ?_, ?_⟩
  · intro passed slave listed checked pdo among fixed
    have counted := verifyFixedPdos_countRead passed listed checked among fixed
    unfold countRead mappingObject at counted ⊢
    rwa [sameIndex slave listed checked pdo among fixed] at counted
  · rw [verifyFixedPdos_ok_iff]
    refine forall₂_congr fun slave listed => forall_congr' fun checked => ?_
    refine forall₂_congr fun pdo among => forall_congr' fun fixed => not_congr ?_
    exact pdoDiffers_numeric (texts slave listed pdo among)
      (rightly slave listed checked pdo among fixed) oracle slave

/-! ## Devices that show the difference -/

/-- The same bus with other answers to SDO reads. -/
def Oracle.answering (scan : Oracle)
    (device : Int → EcatPdo → UInt16 → UInt8 → SdoAnswer) : Oracle :=
  { scan with sdoRead := device }

def silentDevice : Int → EcatPdo → UInt16 → UInt8 → SdoAnswer := fun _ _ _ _ => ⟨0, []⟩

def mappingAnswer (words : List UInt32) (subindex : UInt8) : SdoAnswer :=
  if subindex = 0 then ⟨1, [UInt8.ofNat words.length]⟩
  else ⟨1, LittleEndian.bytesOf 4 (words.getD (subindex.toNat - 1) 0).toNat⟩

/-- A device with one mapping object that can be read. -/
def oneMapping (position : Int) (index : UInt16) (words : List UInt32) :
    Int → EcatPdo → UInt16 → UInt8 → SdoAnswer :=
  fun asked _ object subindex =>
    if asked = position ∧ object = index then mappingAnswer words subindex else ⟨0, []⟩

theorem unreadable_same {read : UInt8 → SdoAnswer} {expected : List UInt32}
    (silent : (read 0).wkc = 0) : ¬ MappingDiffers read expected := by
  rintro ⟨n, counted, _⟩
  simp [readCount, silent] at counted

theorem readCount_mappingAnswer (words : List UInt32) :
    readCount (mappingAnswer words 0) = some (UInt8.ofNat words.length) := rfl

theorem readEntry_mappingAnswer {words : List UInt32} (short : words.length ≤ 255) {i : Nat}
    (inside : i < words.length) :
    readEntry (mappingAnswer words (UInt8.ofNat (0 + i + 1))) = words[i]? := by
  have place : (UInt8.ofNat (0 + i + 1)).toNat = i + 1 := by
    rw [UInt8.toNat_ofNat']
    omega
  have nonzero : UInt8.ofNat (0 + i + 1) ≠ 0 := by
    intro zero
    have same := congrArg UInt8.toNat zero
    rw [place] at same
    simp at same
  have bounded := UInt32.toNat_lt words[i]
  have length : (LittleEndian.bytesOf 4 words[i].toNat).length = 4 := LittleEndian.length_bytesOf _ _
  rw [mappingAnswer, if_neg nonzero, place, Nat.add_sub_cancel,
    List.getD_eq_getElem _ _ inside, readEntry, if_neg (by simp [length]),
    LittleEndian.valueOf_bytesOf, Nat.mod_eq_of_lt (by omega), UInt32.ofNat_toNat,
    List.getElem?_eq_getElem inside]

theorem mappingAnswer_same {words : List UInt32} (short : words.length ≤ 255) :
    ¬ MappingDiffers (mappingAnswer words) words := by
  rintro ⟨n, counted, differs⟩
  rw [readCount_mappingAnswer, Option.some.injEq] at counted
  subst counted
  rcases differs with length | ⟨i, value, here, _, other⟩
  · rw [UInt8.toNat_ofNat'] at length
    omega
  · have inside := (List.getElem?_eq_some_iff.mp here).1
    rw [readEntry_mappingAnswer short inside] at other
    exact other here

theorem mappingAnswer_differs {words expected : List UInt32} (short : words.length ≤ 255)
    (length : expected.length = words.length) (other : expected ≠ words) :
    MappingDiffers (mappingAnswer words) expected := by
  obtain ⟨i, inside, differs⟩ : ∃ i, i < words.length ∧ expected[i]? ≠ words[i]? := by
    by_contra none
    simp only [not_exists, not_and, not_not] at none
    refine other (List.ext_getElem? fun i => ?_)
    by_cases inside : i < words.length
    · exact none i inside
    · rw [List.getElem?_eq_none (by omega), List.getElem?_eq_none (by omega)]
  refine ⟨_, readCount_mappingAnswer words, Or.inr ⟨i, expected[i], by simp, ?_, ?_⟩⟩
  · intro j below
    rw [readEntry_mappingAnswer short (by omega), List.getElem?_eq_getElem (by omega)]
    exact Option.some_ne_none _
  · rw [readEntry_mappingAnswer short inside]
    intro same
    exact differs (by rw [same]; simp)

/-! ## Where a text is misread -/

theorem toNat_shiftOr {v low : UInt32} {bits : Nat} (wide : bits < 32)
    (room : v.toNat < 2 ^ (32 - bits)) (small : low.toNat < 2 ^ bits) :
    (v <<< UInt32.ofNat bits ||| low).toNat = v.toNat * 2 ^ bits + low.toNat := by
  have places : (UInt32.ofNat bits).toNat = bits := by
    rw [UInt32.toNat_ofNat']
    omega
  have fits : v.toNat <<< bits < 2 ^ 32 := by
    rw [Nat.shiftLeft_eq, show 32 = (32 - bits) + bits by omega, pow_add]
    exact Nat.mul_lt_mul_of_pos_right room (by positivity)
  have shifted : (v <<< UInt32.ofNat bits).toNat = v.toNat <<< bits := by
    rw [UInt32.toNat_shiftLeft, places, Nat.mod_eq_of_lt wide, Nat.mod_eq_of_lt fits]
  rw [UInt32.toNat_or, shifted, ← Nat.shiftLeft_add_eq_or_of_lt small, Nat.shiftLeft_eq]

/-- The word of an entry: the index above the sub-index above the bit length. -/
theorem toNat_mappingWord {index : UInt32} (small : index.toNat ≤ 0xFFFF) (entry : EcatPdoEntry) :
    (mappingWord index entry).toNat =
      index.toNat * 2 ^ 16 + (entry.subindex.toNat * 2 ^ 8 + entry.bitLength.toNat) := by
  have sub := UInt8.toNat_lt entry.subindex
  have bits := UInt8.toNat_lt entry.bitLength
  have low : (entry.subindex.toUInt32 <<< 8 ||| entry.bitLength.toUInt32).toNat =
      entry.subindex.toNat * 2 ^ 8 + entry.bitLength.toNat :=
    @toNat_shiftOr _ _ 8 (by decide) (by simp; omega) (by simp; omega)
  have whole := @toNat_shiftOr index
    (entry.subindex.toUInt32 <<< 8 ||| entry.bitLength.toUInt32) 16 (by decide) (by omega)
    (by rw [low]; omega)
  rw [low] at whole
  rw [mappingWord, UInt32.or_assoc]
  exact whole

theorem expectedMapping_other {pdo : EcatPdo} (texts : FixedTexts pdo) {entry : EcatPdoEntry}
    (member : entry ∈ pdo.entries) (hash : HashSpelled entry.index)
    (nonzero : hexValue entry.index ≠ 0) :
    expectedMapping strtoulIndex pdo ≠ expectedMapping numericIndex pdo := by
  intro same
  obtain ⟨v, parsed, small⟩ := texts.entries entry member
  have words := congrArg UInt32.toNat (List.map_inj_left.mp same entry member)
  rw [strtoulIndex_hash parsed hash, numericIndex_eq parsed, toNat_mappingWord (by simp),
    toNat_mappingWord (UInt32.le_iff_toNat_le.mp small)] at words
  have value := parseHexU32_value parsed
  simp only [UInt32.toNat_zero] at words
  omega

theorem toUInt16_inj_of_small {v w : UInt32} (vSmall : v ≤ 0xFFFF) (wSmall : w ≤ 0xFFFF)
    (same : v.toUInt16 = w.toUInt16) : v = w := by
  have vBound := UInt32.le_iff_toNat_le.mp vSmall
  have wBound := UInt32.le_iff_toNat_le.mp wSmall
  have halves := congrArg UInt16.toNat same
  rw [UInt32.toNat_toUInt16, UInt32.toNat_toUInt16] at halves
  simp only [UInt32.reduceToNat] at vBound wBound
  apply UInt32.toNat_inj.mp
  omega

/-- A PDO behind `#` is looked up at index 0, where no PDO is. -/
theorem hash_index_unfaithful {config : EcatConfig} {scan : Oracle}
    (texts : ∀ slave ∈ config.slaveList, ∀ pdo ∈ slave.pdos, FixedTexts pdo) {slave : EcatSlave}
    (listed : slave ∈ config.slaveList) (checked : checkedSlave scan slave = true)
    {pdo : EcatPdo} (among : pdo ∈ slave.pdos) (fixed : pdo.fixed = true)
    (hash : HashSpelled pdo.index) :
    ¬ ChecksConfigured config (scan.answering silentDevice) := by
  intro checks
  have passed : (ecatMasterVerifyFixedPdos config (scan.answering silentDevice)).ok = true :=
    checks.verdict.mpr fun _ _ _ _ _ _ => unreadable_same rfl
  have counted := verifyFixedPdos_countRead passed listed checked among fixed
  obtain ⟨other, otherListed, _, pdo', among', _, subindex, answer, same⟩ := checks.reads _ counted
  obtain ⟨v, parsed, _⟩ := (texts slave listed pdo among).index
  obtain ⟨w, parsed', nonzero, small⟩ := (texts other otherListed pdo' among').index
  simp only [countRead, StartCall.sdoRead.injEq] at same
  rw [strtoulIndex_hash parsed hash, numericIndex_eq parsed'] at same
  exact nonzero (toUInt16_inj_of_small (v := 0) (by decide) small same.2.1).symm

/-- Positions and indices that are assigned once name one PDO. -/
theorem same_pdo_of_address {config : EcatConfig}
    (texts : ∀ slave ∈ config.slaveList, ∀ pdo ∈ slave.pdos, FixedTexts pdo)
    (positions : config.slaveList.Pairwise fun a b => a.position ≠ b.position)
    (indices : ∀ slave ∈ config.slaveList,
      slave.pdos.Pairwise fun a b => pdoIndexValue a.index ≠ pdoIndexValue b.index)
    {a b : EcatSlave} (aListed : a ∈ config.slaveList) (bListed : b ∈ config.slaveList)
    {p q : EcatPdo} (pAmong : p ∈ a.pdos) (qAmong : q ∈ b.pdos)
    (samePosition : a.position = b.position)
    (sameIndex : (numericIndex p.index).toUInt16 = (numericIndex q.index).toUInt16) :
    a = b ∧ p = q := by
  have positionSymm : Std.Symm fun a b : EcatSlave => a.position ≠ b.position :=
    ⟨fun _ _ apart => apart.symm⟩
  have indexSymm : Std.Symm fun a b : EcatPdo =>
      pdoIndexValue a.index ≠ pdoIndexValue b.index := ⟨fun _ _ apart => apart.symm⟩
  have sameSlave : a = b := by
    by_contra apart
    exact List.Pairwise.forall positions aListed bListed apart samePosition
  subst sameSlave
  refine ⟨rfl, ?_⟩
  by_contra apart
  obtain ⟨v, vParsed, _, vSmall⟩ := (texts a aListed p pAmong).index
  obtain ⟨w, wParsed, _, wSmall⟩ := (texts a aListed q qAmong).index
  refine List.Pairwise.forall (indices a aListed) pAmong qAmong apart ?_
  rw [numericIndex_eq vParsed, numericIndex_eq wParsed] at sameIndex
  simp [pdoIndexValue, vParsed, wParsed, toUInt16_inj_of_small vSmall wSmall sameIndex]

/-- An entry behind `#` is compared with index 0: a device that maps what is
configured is refused. -/
theorem hash_entry_unfaithful {config : EcatConfig} {scan : Oracle}
    (texts : ∀ slave ∈ config.slaveList, ∀ pdo ∈ slave.pdos, FixedTexts pdo)
    (positions : config.slaveList.Pairwise fun a b => a.position ≠ b.position)
    (indices : ∀ slave ∈ config.slaveList,
      slave.pdos.Pairwise fun a b => pdoIndexValue a.index ≠ pdoIndexValue b.index)
    {slave : EcatSlave} (listed : slave ∈ config.slaveList)
    (checked : checkedSlave scan slave = true) {pdo : EcatPdo} (among : pdo ∈ slave.pdos)
    (fixed : pdo.fixed = true) (plain : ¬ HashSpelled pdo.index)
    (short : pdo.entries.length ≤ 255) {entry : EcatPdoEntry} (member : entry ∈ pdo.entries)
    (hash : HashSpelled entry.index) (nonzero : hexValue entry.index ≠ 0) :
    ¬ ChecksConfigured config (scan.answering (oneMapping slave.position
      (numericIndex pdo.index).toUInt16 (expectedMapping numericIndex pdo))) := by
  intro checks
  have wordsShort : (expectedMapping numericIndex pdo).length ≤ 255 := by
    simpa [expectedMapping] using short
  obtain ⟨v, parsed, vNonzero, small⟩ := (texts slave listed pdo among).index
  -- the device has this mapping alone, and as configured
  have passed := checks.verdict.mpr (by
    intro other otherListed _ pdo' among' _
    by_cases here : other.position = slave.position ∧
        (numericIndex pdo'.index).toUInt16 = (numericIndex pdo.index).toUInt16
    · obtain ⟨rfl, rfl⟩ := same_pdo_of_address texts positions indices otherListed listed among'
        among here.1 here.2
      have read : mappingObject numericIndex (scan.answering (oneMapping other.position
          (numericIndex pdo'.index).toUInt16 (expectedMapping numericIndex pdo'))) other pdo' =
          mappingAnswer (expectedMapping numericIndex pdo') := by
        funext subindex
        exact if_pos ⟨rfl, rfl⟩
      rw [PdoDiffers, read]
      exact mappingAnswer_same wordsShort
    · have silent : mappingObject numericIndex (scan.answering (oneMapping slave.position
          (numericIndex pdo.index).toUInt16 (expectedMapping numericIndex pdo))) other pdo' 0 =
          ⟨0, []⟩ := if_neg here
      exact unreadable_same (congrArg SdoAnswer.wkc silent))
  have verified := (verifyFixedPdos_ok_iff _ _).mp passed slave listed checked pdo among fixed
  refine verified ?_
  have read : mappingObject strtoulIndex (scan.answering (oneMapping slave.position
      (numericIndex pdo.index).toUInt16 (expectedMapping numericIndex pdo))) slave pdo =
      mappingAnswer (expectedMapping numericIndex pdo) := by
    funext subindex
    rw [mappingObject, strtoulIndex_plain parsed plain]
    exact if_pos ⟨rfl, rfl⟩
  rw [PdoDiffers, read]
  exact mappingAnswer_differs wordsShort (by simp [expectedMapping])
    (expectedMapping_other (texts slave listed pdo among) member hash nonzero)

/-! ## The check is the one that is meant -/

/-- For a bus as scanned, the check compares what is configured on every device
exactly where `#` hides no fixed PDO of a checked slave and none of its entries. -/
theorem fixed_check_configured_iff (libc : LibC) (alloc : Alloc) (configObj : Json)
    (config : EcatConfig) (scan : Oracle)
    (accepted : parseSections libc alloc configObj = (config, none)) :
    (∀ device, ChecksConfigured config (scan.answering device)) ↔
      ∀ slave ∈ config.slaveList, checkedSlave scan slave = true →
        ∀ pdo ∈ slave.pdos, pdo.fixed = true → ¬ HashMisread pdo := by
  have texts := accepted_fixedTexts accepted
  constructor
  · intro checks slave listed checked pdo among fixed misread
    by_cases hash : HashSpelled pdo.index
    · exact hash_index_unfaithful texts listed checked among fixed hash (checks silentDevice)
    · rcases misread with hash' | ⟨short, entry, member, entryHash, nonzero⟩
      · exact hash hash'
      · obtain ⟨valid, positions⟩ := (validateSlaves_ok_iff _).mp
          (ecatConfigValidate_slaves (parseSections_accepted accepted).2.2.2)
        have indices : ∀ slave ∈ config.slaveList,
            slave.pdos.Pairwise fun a b => pdoIndexValue a.index ≠ pdoIndexValue b.index := by
          intro slave listed
          have pdos := (valid slave listed).pdos
          unfold validatePdos at pdos
          obtain ⟨_, apart, _⟩ := Checked.bind_eq_ok.mp pdos
          rw [Checked.require_eq_ok, Bool.not_eq_true'] at apart
          exact (assignedTwice_iff _).mp apart
        exact hash_entry_unfaithful texts positions indices listed checked among fixed hash short
          member entryHash nonzero (checks _)
  · intro rightly device
    exact checksConfigured_of_plain texts rightly

def fixedConfig (index : String) : Json :=
  jsonObject [("slaves", .array [fixedSlave index])]

theorem hashSpelled_iff (index : Text) : HashSpelled index ↔ index.head? = some 35 := by
  cases index <;> simp [HashSpelled]

theorem fixed_check_configured_iff_plain :
    ChecksConfigured (parseSections noLibC (fun _ => true) (fixedConfig "0x1A00")).1
      ((fixedOracle 1).answering silentDevice) := by
  have facts : (parseSections noLibC (fun _ => true) (fixedConfig "0x1A00")).2 = none ∧
      ∀ slave ∈ (parseSections noLibC (fun _ => true) (fixedConfig "0x1A00")).1.slaveList,
        ∀ pdo ∈ slave.pdos, pdo.index.head? ≠ some 35 ∧
          ∀ entry ∈ pdo.entries, entry.index.head? ≠ some 35 := by
    decide +kernel
  refine (fixed_check_configured_iff noLibC (fun _ => true) (fixedConfig "0x1A00") _
    (fixedOracle 1) (Prod.ext rfl facts.1)).mpr ?_ silentDevice
  intro slave listed _ pdo among _ misread
  obtain ⟨plain, entries⟩ := facts.2 slave listed pdo among
  rcases misread with hash | ⟨_, entry, member, hash, _⟩
  · exact plain ((hashSpelled_iff _).mp hash)
  · exact entries entry member ((hashSpelled_iff _).mp hash)

/-- Spelled `#x1A00`, the PDO is read at index 0. -/
theorem hash_pdo_read_at_zero :
    ¬ ∀ (libc : LibC) (alloc : Alloc) (configObj : Json) (config : EcatConfig) (scan : Oracle),
      parseSections libc alloc configObj = (config, none) →
      ∀ device, ChecksConfigured config (scan.answering device) := by
  intro always
  have facts : (parseSections noLibC (fun _ => true) (fixedConfig "#x1A00")).2 = none ∧
      ∃ slave ∈ (parseSections noLibC (fun _ => true) (fixedConfig "#x1A00")).1.slaveList,
        checkedSlave (fixedOracle 1) slave = true ∧
          ∃ pdo ∈ slave.pdos, pdo.fixed = true ∧ pdo.index.head? = some 35 := by
    decide +kernel
  obtain ⟨accepted, slave, listed, checked, pdo, among, fixed, hash⟩ := facts
  have parsed : parseSections noLibC (fun _ => true) (fixedConfig "#x1A00") =
      ((parseSections noLibC (fun _ => true) (fixedConfig "#x1A00")).1, none) :=
    Prod.ext rfl accepted
  exact hash_index_unfaithful (accepted_fixedTexts parsed) listed checked among fixed
    ((hashSpelled_iff _).mpr hash)
    (always noLibC (fun _ => true) (fixedConfig "#x1A00") _ (fixedOracle 1) parsed silentDevice)

end EtherDog
