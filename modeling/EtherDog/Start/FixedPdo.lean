import EtherDog.Start.Sdo
import EtherDog.Config.Index
import EtherDog.Config.Validate

/-!
# The check of fixed PDO mappings (src/master.c)

Before anything is mapped, every fixed PDO of a plain CoE slave is compared
with the mapping object of the device.  What cannot be read is not compared.
The check reads index texts with `strtoul`, the validation with
`parse_hex_u32`; the two agree on `0x` and `0X` and differ on `#x` and `#X`.
-/

set_option autoImplicit false

namespace EtherDog

open CString Trail

/-! ## One mapping object -/

def readCount (answer : SdoAnswer) : Option UInt8 :=
  if answer.wkc ≤ 0 then none
  else
    match answer.bytes with
    | [n] => some n
    | _ => none

def readEntry (answer : SdoAnswer) : Option UInt32 :=
  if answer.wkc ≤ 0 ∨ answer.bytes.length ≠ 4 then none
  else some (UInt32.ofNat (LittleEndian.valueOf answer.bytes))

/-- The loop over the entries from subindex `k + 1` on; an unreadable one ends it. -/
def verifyEntries (read : UInt8 → SdoAnswer) (call : UInt8 → SdoAnswer → StartCall) (k : Nat) :
    List UInt32 → Trail StartCall
  | [] => done
  | expected :: rest =>
      let subindex := UInt8.ofNat (k + 1)
      match readEntry (read subindex) with
      | none => step (call subindex (read subindex)) true
      | some actual =>
          (step (call subindex (read subindex)) (actual == expected)).andThen
            (verifyEntries read call (k + 1) rest)

def verifyMapping (read : UInt8 → SdoAnswer) (call : UInt8 → SdoAnswer → StartCall)
    (expected : List UInt32) : Trail StartCall :=
  match readCount (read 0) with
  | none => step (call 0 (read 0)) true
  | some n =>
      (step (call 0 (read 0)) (n.toNat == expected.length)).andThen
        (verifyEntries read call 0 expected)

/-- An entry differs, and it and those before it are readable. -/
def EntryDiffers (read : UInt8 → SdoAnswer) (k : Nat) (expected : List UInt32) : Prop :=
  ∃ i value, expected[i]? = some value ∧
    (∀ j ≤ i, readEntry (read (UInt8.ofNat (k + j + 1))) ≠ none) ∧
    readEntry (read (UInt8.ofNat (k + i + 1))) ≠ some value

/-- The readable part of a mapping is not the expected one. -/
def MappingDiffers (read : UInt8 → SdoAnswer) (expected : List UInt32) : Prop :=
  ∃ n, readCount (read 0) = some n ∧
    (n.toNat ≠ expected.length ∨ EntryDiffers read 0 expected)

theorem entryDiffers_cons (read : UInt8 → SdoAnswer) (k : Nat) (value : UInt32)
    (rest : List UInt32) :
    EntryDiffers read k (value :: rest) ↔
      ∃ actual, readEntry (read (UInt8.ofNat (k + 1))) = some actual ∧
        (actual ≠ value ∨ EntryDiffers read (k + 1) rest) := by
  constructor
  · rintro ⟨i, wanted, found, readable, differs⟩
    obtain ⟨actual, here⟩ := Option.ne_none_iff_exists'.mp (readable 0 (Nat.zero_le i))
    refine ⟨actual, here, ?_⟩
    cases i with
    | zero =>
        cases found
        refine Or.inl fun same => differs ?_
        rw [← same]
        exact here
    | succ i =>
        refine Or.inr ⟨i, wanted, found, ?_, ?_⟩
        · intro j below
          have further := readable (j + 1) (Nat.succ_le_succ below)
          rwa [← Nat.add_assoc, Nat.add_right_comm k j 1] at further
        · rwa [← Nat.add_assoc, Nat.add_right_comm k i 1] at differs
  · rintro ⟨actual, here, differs | ⟨i, wanted, found, readable, differs⟩⟩
    · refine ⟨0, value, rfl, ?_, ?_⟩
      · intro j below
        cases Nat.le_zero.mp below
        rw [Nat.add_zero, here]
        exact Option.some_ne_none actual
      · rw [Nat.add_zero, here]
        exact fun same => differs (Option.some.inj same)
    · refine ⟨i + 1, wanted, found, ?_, ?_⟩
      · intro j below
        cases j with
        | zero =>
            rw [Nat.add_zero, here]
            exact Option.some_ne_none actual
        | succ j =>
            rw [← Nat.add_assoc, Nat.add_right_comm k j 1]
            exact readable j (Nat.le_of_succ_le_succ below)
      · rwa [← Nat.add_assoc, Nat.add_right_comm k i 1]

theorem verifyEntries_ok_iff (read : UInt8 → SdoAnswer) (call : UInt8 → SdoAnswer → StartCall)
    (k : Nat) (expected : List UInt32) :
    (verifyEntries read call k expected).ok = true ↔ ¬ EntryDiffers read k expected := by
  induction expected generalizing k with
  | nil => simp [verifyEntries, EntryDiffers]
  | cons value rest ih =>
      rw [entryDiffers_cons, verifyEntries]
      cases here : readEntry (read (UInt8.ofNat (k + 1))) with
      | none => simp
      | some actual => simp [ih]

theorem verifyMapping_ok_iff (read : UInt8 → SdoAnswer) (call : UInt8 → SdoAnswer → StartCall)
    (expected : List UInt32) :
    (verifyMapping read call expected).ok = true ↔ ¬ MappingDiffers read expected := by
  unfold verifyMapping MappingDiffers
  cases counted : readCount (read 0) with
  | none => simp
  | some n => simp [verifyEntries_ok_iff]

theorem verifyEntries_calls {p : StartCall → Prop} {call : UInt8 → SdoAnswer → StartCall}
    (holds : ∀ subindex answer, p (call subindex answer)) (read : UInt8 → SdoAnswer) (k : Nat)
    (expected : List UInt32) : (verifyEntries read call k expected).All p := by
  induction expected generalizing k with
  | nil => exact all_done
  | cons value rest ih =>
      unfold verifyEntries
      dsimp only
      split
      · exact all_step (holds _ _) true
      · exact all_andThen (all_step (holds _ _) _) (ih (k + 1))

theorem verifyMapping_calls {p : StartCall → Prop} {call : UInt8 → SdoAnswer → StartCall}
    (holds : ∀ subindex answer, p (call subindex answer)) (read : UInt8 → SdoAnswer)
    (expected : List UInt32) : (verifyMapping read call expected).All p := by
  unfold verifyMapping
  split
  · exact all_step (holds _ _) true
  · exact all_andThen (all_step (holds _ _) _) (verifyEntries_calls holds read 0 expected)

/-! ## The fixed PDOs of a configuration -/

/-- How the check reads an index text. -/
def strtoulIndex (index : Text) : UInt32 := UInt32.ofNat (strtoul 16 index).1

/-- An entry as a mapping object holds it. -/
def mappingWord (index : UInt32) (entry : EcatPdoEntry) : UInt32 :=
  index <<< 16 ||| entry.subindex.toUInt32 <<< 8 ||| entry.bitLength.toUInt32

def mappingObject (value : Text → UInt32) (oracle : Oracle) (slave : EcatSlave) (pdo : EcatPdo)
    (subindex : UInt8) : SdoAnswer :=
  oracle.sdoRead slave.position pdo (value pdo.index).toUInt16 subindex

def expectedMapping (value : Text → UInt32) (pdo : EcatPdo) : List UInt32 :=
  pdo.entries.map fun entry => mappingWord (value entry.index) entry

def verifyFixedPdo (oracle : Oracle) (slave : EcatSlave) (pdo : EcatPdo) : Trail StartCall :=
  if pdo.fixed = false then done
  else
    verifyMapping (mappingObject strtoulIndex oracle slave pdo)
      (fun subindex answer => .sdoRead slave.position (strtoulIndex pdo.index).toUInt16 subindex
        (sdoTimeoutUs slave) answer)
      (expectedMapping strtoulIndex pdo)

def verifyFixedDirection (oracle : Oracle) (slave : EcatSlave) (pdos : List EcatPdo) :
    Trail StartCall :=
  each (verifyFixedPdo oracle slave) pdos

/-- Only plain CoE slaves are checked. -/
def checkedSlave (oracle : Oracle) (slave : EcatSlave) : Bool :=
  !slave.modular.present && (oracle.slave? slave.position).any EcSlave.hasCoe

def ecatMasterVerifyFixedPdos (config : EcatConfig) (oracle : Oracle) : Trail StartCall :=
  each (fun slave =>
    if checkedSlave oracle slave = false then done
    else
      (verifyFixedDirection oracle slave slave.rxPdos).andThen
        (verifyFixedDirection oracle slave slave.txPdos)) config.slaveList

/-- The device maps the PDO differently, with the index texts read by `value`. -/
def PdoDiffers (value : Text → UInt32) (oracle : Oracle) (slave : EcatSlave) (pdo : EcatPdo) :
    Prop :=
  MappingDiffers (mappingObject value oracle slave pdo) (expectedMapping value pdo)

theorem verifyFixedPdos_ok_iff (config : EcatConfig) (oracle : Oracle) :
    (ecatMasterVerifyFixedPdos config oracle).ok = true ↔
      ∀ slave ∈ config.slaveList, checkedSlave oracle slave = true →
        ∀ pdo ∈ slave.pdos, pdo.fixed = true → ¬ PdoDiffers strtoulIndex oracle slave pdo := by
  have one : ∀ slave pdo, (verifyFixedPdo oracle slave pdo).ok = true ↔
      (pdo.fixed = true → ¬ PdoDiffers strtoulIndex oracle slave pdo) := by
    intro slave pdo
    unfold verifyFixedPdo PdoDiffers
    cases fixed : pdo.fixed with
    | false => simp
    | true => simp [verifyMapping_ok_iff]
  have direction : ∀ slave pdos, (verifyFixedDirection oracle slave pdos).ok = true ↔
      ∀ pdo ∈ pdos, pdo.fixed = true → ¬ PdoDiffers strtoulIndex oracle slave pdo := by
    intro slave pdos
    simp only [verifyFixedDirection, each_ok_iff, one]
  unfold ecatMasterVerifyFixedPdos
  rw [each_ok_iff]
  apply forall₂_congr
  intro slave _
  cases checked : checkedSlave oracle slave with
  | false => simp
  | true =>
      simp only [Bool.true_eq_false, if_false, andThen_ok, Bool.and_eq_true, direction,
        EcatSlave.pdos, List.forall_mem_append, true_imp_iff]

/-! ## Texts the check misreads -/

def Misread (pdo : EcatPdo) : Prop :=
  strtoulIndex pdo.index ≠ pdoIndexValue pdo.index ∨
    ∃ entry ∈ pdo.entries, strtoulIndex entry.index ≠ pdoIndexValue entry.index

theorem pdoDiffers_read {pdo : EcatPdo} (rightly : ¬ Misread pdo) (oracle : Oracle)
    (slave : EcatSlave) :
    PdoDiffers strtoulIndex oracle slave pdo ↔ PdoDiffers pdoIndexValue oracle slave pdo := by
  simp only [Misread, not_or, not_exists, not_and, not_not] at rightly
  have sameObject : mappingObject strtoulIndex oracle slave pdo =
      mappingObject pdoIndexValue oracle slave pdo := by
    funext subindex
    rw [mappingObject, mappingObject, rightly.1]
  have sameEntries : expectedMapping strtoulIndex pdo = expectedMapping pdoIndexValue pdo := by
    apply List.map_congr_left
    intro entry member
    rw [rightly.2 entry member]
  rw [PdoDiffers, PdoDiffers, sameObject, sameEntries]

/-- A text is misread if and only if it starts with `#` and is not zero. -/
theorem Spelling.misread_iff {s : Text} {lead mark : UInt8} {digits : Text}
    (spelled : Spelling s lead mark digits) :
    strtoulIndex s ≠ pdoIndexValue s ↔ lead = 35 ∧ hexValue s ≠ 0 := by
  obtain ⟨v, parsed, value⟩ := spelled.parse
  have read : pdoIndexValue s = v := by simp [pdoIndexValue, parsed]
  rw [read, strtoulIndex]
  rcases spelled.lead with rfl | rfl
  · rw [spelled.strtoul_zero, ← value]
    simp
  · rw [spelled.strtoul_hash, ← value]
    simp [← UInt32.toNat_inj, eq_comm]

end EtherDog
