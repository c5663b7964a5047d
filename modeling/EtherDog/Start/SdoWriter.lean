import EtherDog.Start.Configured
import EtherDog.Config.ValueBytes

/-!
# The parser and the writer of SDOs (src/config.c, src/master.c)

`parse_sdo` decides by the member `value_bytes` whether an entry is a byte string,
`ecat_master_write_sdos` by the stored bytes.  The two part where the member is
there and stores no byte, and where it stores more than an `int` counts.
-/

set_option autoImplicit false

namespace EtherDog

open CString Checked

/-- `float` and `double` have the sizes of their wire types. -/
def FloatLayout.Sized (host : FloatLayout) : Prop :=
  ∀ v, (host.real32 v).length = 4 ∧ (host.real64 v).length = 8

/-- The entries and what `parse_sdo` made of each, with its own allocations. -/
def ParsedEntries (libc : LibC) (entries : List Json) (sdos : List EcatSdoConfig) : Prop :=
  List.Forall₂ (fun json sdo => ∃ alloc, parseSdo libc alloc json = .ok sdo) entries sdos

/-! ## The index -/

theorem parseSdoIndex_bounds {json : Json} {idx : Nat} (parsed : parseSdoIndex json = .ok idx) :
    idx ≠ 0 ∧ idx ≤ 0xFFFF := by
  unfold parseSdoIndex at parsed
  split at parsed
  · cases parsed
  · obtain ⟨_, _, rest⟩ := bind_eq_ok.mp parsed
    obtain ⟨_, checked, same⟩ := bind_eq_ok.mp rest
    rw [require_eq_ok, decide_eq_true_eq] at checked
    cases same
    exact checked.2.2

theorem strtoll_formatIndex {idx : Nat} (small : idx ≤ 0xFFFF) :
    strtoll 16 (formatIndex idx) = ((idx : Int), []) := by
  obtain ⟨digits, spelled, value⟩ := formatIndex_spelling small
  have number : numeral 16 digits = idx := by
    rw [← value, spelled.text, hexValue]
    rfl
  rw [spelled.text, strtoll_hexMark spelled.mark]
  refine ⟨spelled.nonempty, fun c member => (hexDigit_spec c (spelled.hex c member)).2.2, ?_⟩
  rw [number, min_eq_left (by omega)]

theorem sdoIndex_sdoOf {json : Json} {idx : Nat} {subindex : UInt8} {dt : EcatDataType}
    (head : SdoHead json idx subindex dt) (value : Double) (valueBytes : Option (List UInt8)) :
    (sdoIndex (sdoOf json idx subindex dt value valueBytes)).toNat = idx := by
  have small := (parseSdoIndex_bounds head.index).2
  change (UInt16.ofInt (strtoll 16 (formatIndex idx)).1).toNat = idx
  rw [strtoll_formatIndex small]
  rw [UInt16.ofInt, UInt16.toNat_ofNat']
  omega

/-! ## The payload -/

theorem encodeSdoValue_length {host : FloatLayout} (sized : host.Sized) (dt : EcatDataType)
    (value : Double) : (encodeSdoValue host dt value).length = ecatDataTypeSize dt := by
  unfold encodeSdoValue
  split_ifs with none single double
  · exact none.symm
  · rw [single]
    exact (sized value).1
  · rw [double]
    exact (sized value).2
  · exact LittleEndian.length_bytesOf _ _

def storedLength (s : Text) : Nat := if hexPrefixed s then (s.length - 2) / 2 else s.length

theorem hexPairs_length {digits : Text} {bytes : List UInt8}
    (read : hexPairs digits = some bytes) : bytes.length = digits.length / 2 := by
  induction digits using hexPairs.induct generalizing bytes with
  | case1 =>
      cases read
      rfl
  | case2 c => cases read
  | case3 a b rest hex ih =>
      rw [hexPairs, if_pos hex] at read
      obtain ⟨later, readRest, rfl⟩ := Option.map_eq_some_iff.mp read
      rw [List.length_cons, ih readRest, List.length_cons, List.length_cons]
      omega
  | case4 a b rest hex =>
      rw [hexPairs, if_neg hex] at read
      cases read

theorem valueBytesOfText_length {alloc : Alloc} {s : Text} {payload : List UInt8}
    (read : valueBytesOfText alloc s = .ok payload) : payload.length = storedLength s := by
  unfold storedLength
  cases prefixed : hexPrefixed s with
  | true =>
      obtain ⟨mark, digits, rfl, marked⟩ := hexPrefixed_cases prefixed
      rw [valueBytesOfText, if_pos marked] at read
      obtain ⟨_, _, rest⟩ := bind_eq_ok.mp read
      obtain ⟨_, _, rest⟩ := bind_eq_ok.mp rest
      cases pairs : hexPairs digits with
      | none =>
          rw [pairs] at rest
          cases rest
      | some bytes =>
          rw [pairs] at rest
          cases rest
          simp [hexPairs_length pairs]
  | false =>
      unfold valueBytesOfText at read
      split at read
      · rename_i mark digits
        have unmarked : isHexMark mark = false := prefixed
        rw [unmarked] at read
        obtain ⟨_, _, same⟩ := bind_eq_ok.mp read
        cases same
        rfl
      · obtain ⟨_, _, same⟩ := bind_eq_ok.mp read
        cases same
        rfl

theorem valueBytesOfText_hex_nonempty {alloc : Alloc} {s : Text} {payload : List UInt8}
    (read : valueBytesOfText alloc s = .ok payload) (prefixed : hexPrefixed s = true) :
    payload ≠ [] := by
  have length := valueBytesOfText_length read
  obtain ⟨mark, digits, rfl, marked⟩ := hexPrefixed_cases prefixed
  rw [valueBytesOfText, if_pos marked] at read
  obtain ⟨_, checked, _⟩ := bind_eq_ok.mp read
  rw [require_eq_ok, decide_eq_true_eq] at checked
  rintro rfl
  rw [storedLength, if_pos prefixed] at length
  simp only [List.length_cons, List.length_nil] at length
  omega

/-! ## The loop -/

section Loop

variable (host : FloatLayout) (oracle : Oracle) (slave : EcatSlave)

theorem writeSdosFrom_length (k : Nat) (sdos : List EcatSdoConfig) :
    (writeSdosFrom host oracle slave k sdos).1.length =
      sdos.countP fun sdo => (sdoPayload host sdo).isSome := by
  induction sdos generalizing k with
  | nil => rfl
  | cons sdo rest ih =>
      rw [writeSdosFrom, List.countP_cons, ← ih (k + 1)]
      cases payload : sdoPayload host sdo <;> simp

/-- The write of an SDO at a place of the list. -/
def sdoWriteAt (k : Nat) (sdo : EcatSdoConfig) : StartCall :=
  .sdoWrite slave.position (sdoIndex sdo) sdo.subindex sdo.completeAccess
    ((sdoPayload host sdo).getD []) (sdoTimeoutUs slave) (oracle.sdoWrite slave.position k)

theorem writeSdosFrom_calls {k : Nat} {sdos : List EcatSdoConfig}
    (payloads : ∀ sdo ∈ sdos, (sdoPayload host sdo).isSome = true) :
    (writeSdosFrom host oracle slave k sdos).1 =
      sdos.mapIdx fun i sdo => sdoWriteAt host oracle slave (k + i) sdo := by
  induction sdos generalizing k with
  | nil => rfl
  | cons sdo rest ih =>
      obtain ⟨bytes, payload⟩ := Option.isSome_iff_exists.mp (payloads sdo (by simp))
      have later := @ih (k + 1) fun other member => payloads other (List.mem_cons_of_mem _ member)
      rw [writeSdosFrom, List.mapIdx_cons, payload]
      dsimp only
      rw [later, sdoWriteAt, payload]
      simp only [Option.getD_some, add_zero, Nat.add_assoc, Nat.add_comm 1]

theorem writeSdosFrom_succeeds {k : Nat} {sdos : List EcatSdoConfig}
    (payloads : ∀ sdo ∈ sdos, (sdoPayload host sdo).isSome = true) :
    sdos.length ≤ (writeSdosFrom host oracle slave k sdos).2 ↔
      ∀ i < sdos.length, 0 < oracle.sdoWrite slave.position (k + i) := by
  induction sdos generalizing k with
  | nil => simp
  | cons sdo rest ih =>
      obtain ⟨bytes, payload⟩ := Option.isSome_iff_exists.mp (payloads sdo (by simp))
      have later := @ih (k + 1) fun other member => payloads other (List.mem_cons_of_mem _ member)
      have bound := writeSdosFrom_le host oracle slave (k + 1) rest
      have shifted : (∀ i < (sdo :: rest).length, 0 < oracle.sdoWrite slave.position (k + i)) ↔
          0 < oracle.sdoWrite slave.position k ∧
            ∀ i < rest.length, 0 < oracle.sdoWrite slave.position (k + 1 + i) := by
        rw [List.length_cons, Nat.forall_lt_succ_left]
        simp only [add_zero, Nat.add_assoc, Nat.add_comm 1]
      rw [shifted, ← later, writeSdosFrom, payload, List.length_cons]
      dsimp only
      split
      · rename_i failed
        omega
      · rename_i succeeded
        omega

end Loop

/-! ## Entries and their writes -/

/-- The write an entry asks for, answered with `wkc`. -/
inductive EntryWrite (libc : LibC) (host : FloatLayout) (slave : EcatSlave) (wkc : Int)
    (json : Json) : StartCall → Prop where
  | bytes {idx : Nat} {subindex : UInt8} {index : UInt16} {s : Text} {alloc : Alloc}
      {payload : List UInt8} (head : SdoHead json idx subindex .bytestring)
      (same : index.toNat = idx) (given : getString? json "value_bytes" = some s)
      (read : valueBytesOfText alloc s = .ok payload) :
      EntryWrite libc host slave wkc json
        (.sdoWrite slave.position index subindex (getBool json "complete_access" false) payload
          (sdoTimeoutUs slave) wkc)
  | number {idx : Nat} {subindex : UInt8} {index : UInt16} {dt : EcatDataType}
      {payload : List UInt8} (head : SdoHead json idx subindex dt)
      (same : index.toNat = idx) (absent : getString? json "value_bytes" = none)
      (encoded : payload =
        encodeSdoValue host dt (getNumericValue libc json "value" (.finite 0)))
      (length : payload.length = ecatDataTypeSize dt) :
      EntryWrite libc host slave wkc json
        (.sdoWrite slave.position index subindex (getBool json "complete_access" false) payload
          (sdoTimeoutUs slave) wkc)

/-- The branch that takes an SDO for one of an unknown type. -/
def TakenForUnknown (host : FloatLayout) (sdo : EcatSdoConfig) : Prop :=
  sdo.valueBytes.getD [] = [] ∧ encodeSdoValue host sdo.parsedType sdo.value = []

/-- Every entry is written once and in order, and the verdict is that of the writes. -/
structure WriterAgrees (libc : LibC) (host : FloatLayout) (oracle : Oracle) (slave : EcatSlave)
    (entries : List Json) : Prop where
  known : ∀ sdo ∈ slave.sdoConfigs, ¬ TakenForUnknown host sdo
  once : (ecatMasterWriteSdos host oracle slave).events.length = entries.length
  inOrder : ∀ k json, entries[k]? = some json →
    ∃ call, (ecatMasterWriteSdos host oracle slave).events[k]? = some call ∧
      EntryWrite libc host slave (oracle.sdoWrite slave.position k) json call
  verdict : (ecatMasterWriteSdos host oracle slave).ok = true ↔
    ∀ k < entries.length, 0 < oracle.sdoWrite slave.position k

/-- A byte string stores at least one byte and no more than an `int` counts. -/
def Writable (json : Json) : Prop :=
  ∀ s, getString? json "value_bytes" = some s → s ≠ [] ∧ storedLength s ≤ intMax

theorem sdoPayload_bytes (host : FloatLayout) {json : Json} {idx : Nat} {subindex : UInt8}
    {payload : List UInt8} (nonempty : payload ≠ []) :
    sdoPayload host (sdoOf json idx subindex .bytestring (.finite 0) (some payload)) =
      if payload.length > intMax then none else some payload := by
  rw [sdoPayload, if_pos]
  · rfl
  · exact nonempty

/-- Without a byte the string is encoded as a number of a type without a size. -/
theorem sdoPayload_empty (host : FloatLayout) (json : Json) (idx : Nat) (subindex : UInt8) :
    sdoPayload host (sdoOf json idx subindex .bytestring (.finite 0) (some [])) = none := rfl

theorem sdoPayload_number {host : FloatLayout} (sized : host.Sized) {json : Json} {idx : Nat}
    {subindex : UInt8} {dt : EcatDataType} {value : Double}
    (inRange : sdoValueInRange dt value = true) :
    sdoPayload host (sdoOf json idx subindex dt value none) =
      some (encodeSdoValue host dt value) := by
  have positive : ecatDataTypeSize dt ≠ 0 := by
    have known := sdoValueInRange_numeric inRange
    cases dt <;> simp_all [ecatDataTypeSize]
  have nonempty : encodeSdoValue host dt value ≠ [] := by
    intro empty
    rw [← encodeSdoValue_length sized dt value, empty] at positive
    exact positive rfl
  rw [sdoPayload, if_neg fun given => given rfl]
  exact if_neg nonempty

section Entry

variable {libc : LibC} {host : FloatLayout} {alloc : Alloc} {json : Json} {sdo : EcatSdoConfig}

/-- What is accepted has a payload exactly where its byte string can be written. -/
theorem sdoPayload_isSome_iff (sized : host.Sized) (accepted : parseSdo libc alloc json = .ok sdo) :
    (sdoPayload host sdo).isSome = true ↔ Writable json := by
  cases (parseSdo_ok_iff libc alloc json sdo).mp accepted with
  | @bytes idx subindex s payload head given read =>
      have length := valueBytesOfText_length read
      have same : Writable json ↔ s ≠ [] ∧ storedLength s ≤ intMax := by
        simp [Writable, given]
      rw [same, ← length]
      by_cases empty : payload = []
      · subst empty
        rw [sdoPayload_empty]
        constructor
        · intro found
          cases found
        · rintro ⟨nonempty, _⟩
          exfalso
          cases prefixed : hexPrefixed s with
          | true => exact valueBytesOfText_hex_nonempty read prefixed rfl
          | false =>
              rw [storedLength, prefixed] at length
              exact nonempty (List.length_eq_zero_iff.mp length.symm)
      · have nonempty : s ≠ [] := by
          rintro rfl
          exact empty (List.length_eq_zero_iff.mp length)
        rw [sdoPayload_bytes host empty]
        simp [nonempty]
  | number head numeric absent inRange =>
      rw [sdoPayload_number sized inRange]
      simp [Writable, absent]

theorem entryWrite_of_payload (sized : host.Sized) (accepted : parseSdo libc alloc json = .ok sdo)
    (oracle : Oracle) (slave : EcatSlave) (k : Nat)
    (payload : (sdoPayload host sdo).isSome = true) :
    EntryWrite libc host slave (oracle.sdoWrite slave.position k) json
      (sdoWriteAt host oracle slave k sdo) := by
  cases (parseSdo_ok_iff libc alloc json sdo).mp accepted with
  | @bytes idx subindex s stored head given read =>
      by_cases empty : stored = []
      · subst empty
        cases payload
      · rw [sdoPayload_bytes host empty] at payload
        split at payload
        · cases payload
        · rename_i short
          rw [sdoWriteAt, sdoPayload_bytes host empty, if_neg short]
          exact .bytes head (sdoIndex_sdoOf head _ _) given read
  | number head numeric absent inRange =>
      rw [sdoWriteAt, sdoPayload_number sized inRange]
      exact .number head (sdoIndex_sdoOf head _ _) absent rfl (encodeSdoValue_length sized _ _)

theorem known_of_payload (payload : (sdoPayload host sdo).isSome = true) :
    ¬ TakenForUnknown host sdo := by
  rintro ⟨noBytes, noNumber⟩
  rw [sdoPayload, if_neg (not_not.mpr noBytes)] at payload
  dsimp only at payload
  rw [if_pos noNumber] at payload
  cases payload

end Entry

/-! ## The agreement -/

theorem ecatMasterWriteSdos_coe {host : FloatLayout} {oracle : Oracle} {slave : EcatSlave}
    {found : EcSlave} (present : oracle.slave? slave.position = some found)
    (coe : found.hasCoe = true) :
    ecatMasterWriteSdos host oracle slave =
      ⟨(writeSdosFrom host oracle slave 0 slave.sdoConfigs).1,
        slave.sdoConfigs.length ≤ (writeSdosFrom host oracle slave 0 slave.sdoConfigs).2⟩ := by
  rw [ecatMasterWriteSdos, present]
  dsimp only
  rw [if_neg (by simp [coe])]

/-- Parser and writer agree exactly where every byte string can be written. -/
theorem parser_writer_agree_iff (libc : LibC) (host : FloatLayout) (sized : host.Sized)
    (oracle : Oracle) (slave : EcatSlave) (found : EcSlave)
    (present : oracle.slave? slave.position = some found) (coe : found.hasCoe = true)
    (entries : List Json) (parsed : ParsedEntries libc entries slave.sdoConfigs) :
    WriterAgrees libc host oracle slave entries ↔ ∀ json ∈ entries, Writable json := by
  have length : entries.length = slave.sdoConfigs.length := parsed.length_eq
  have written := @ecatMasterWriteSdos_coe host oracle slave found present coe
  constructor
  · intro agrees
    have once := agrees.once
    rw [written, length, writeSdosFrom_length, List.countP_eq_length] at once
    intro json member
    obtain ⟨k, inside, rfl⟩ := List.getElem_of_mem member
    obtain ⟨alloc, accepted⟩ := parsed.get inside (by omega)
    exact (sdoPayload_isSome_iff sized accepted).mp (once _ (List.getElem_mem _))
  · intro writable
    have payloads : ∀ sdo ∈ slave.sdoConfigs, (sdoPayload host sdo).isSome = true := by
      intro sdo member
      obtain ⟨k, inside, rfl⟩ := List.getElem_of_mem member
      obtain ⟨alloc, accepted⟩ := parsed.get (by omega) inside
      exact (sdoPayload_isSome_iff sized accepted).mpr (writable _ (List.getElem_mem _))
    have calls := @writeSdosFrom_calls host oracle slave 0 _ payloads
    have succeeds := @writeSdosFrom_succeeds host oracle slave 0 _ payloads
    refine ⟨fun sdo member => known_of_payload (payloads sdo member), ?_, ?_, ?_⟩
    · rw [written, calls, length, List.length_mapIdx]
    · intro k json here
      obtain ⟨inside, rfl⟩ := List.getElem?_eq_some_iff.mp here
      obtain ⟨alloc, accepted⟩ := parsed.get inside (by omega)
      refine ⟨sdoWriteAt host oracle slave k slave.sdoConfigs[k], ?_, ?_⟩
      · rw [written, calls, List.getElem?_mapIdx, List.getElem?_eq_getElem (by omega), Nat.zero_add]
        rfl
      · exact entryWrite_of_payload sized accepted oracle slave k
          (payloads _ (List.getElem_mem _))
    · rw [written, length]
      simpa using succeeds

theorem zeroFloats_sized : zeroFloats.Sized := fun _ => ⟨rfl, rfl⟩

def stringSlave (string : String) (payload : List UInt8) : EcatSlave :=
  { fakeSlave [] [] with
    sdoConfigs := [sdoOf (stringEntry string) 0x8010 0 .bytestring (.finite 0) (some payload)] }

theorem parser_writer_agree_iff_string :
    WriterAgrees noLibC zeroFloats (fixedOracle 1) (stringSlave "0XaBc0" [0xAB, 0xC0])
      [stringEntry "0XaBc0"] := by
  have facts : parseSdo noLibC (fun _ => true) (stringEntry "0XaBc0") =
        .ok (sdoOf (stringEntry "0XaBc0") 0x8010 0 .bytestring (.finite 0) (some [0xAB, 0xC0])) ∧
      getString? (stringEntry "0XaBc0") "value_bytes" = some (text "0XaBc0") ∧
      text "0XaBc0" ≠ [] ∧ storedLength (text "0XaBc0") ≤ intMax := by
    decide +kernel
  obtain ⟨accepted, given, writable⟩ := facts
  refine (parser_writer_agree_iff noLibC zeroFloats zeroFloats_sized (fixedOracle 1)
    (stringSlave "0XaBc0" [0xAB, 0xC0]) _ rfl rfl [stringEntry "0XaBc0"]
    (.cons ⟨_, accepted⟩ .nil)).mpr ?_
  intro json member s here
  rw [List.mem_singleton.mp member, given] at here
  cases here
  exact writable

/-- An empty string is accepted and then taken for an unknown type. -/
theorem empty_string_skipped :
    ¬ ∀ (libc : LibC) (host : FloatLayout), host.Sized → ∀ (oracle : Oracle) (slave : EcatSlave)
      (found : EcSlave), oracle.slave? slave.position = some found → found.hasCoe = true →
      ∀ entries : List Json, ParsedEntries libc entries slave.sdoConfigs →
        WriterAgrees libc host oracle slave entries := by
  intro always
  have accepted : parseSdo noLibC (fun _ => true) (stringEntry "") =
      .ok (sdoOf (stringEntry "") 0x8010 0 .bytestring (.finite 0) (some [])) := by
    decide +kernel
  have agrees := always noLibC zeroFloats zeroFloats_sized (fixedOracle 1) (stringSlave "" []) _
    rfl rfl [stringEntry ""] (.cons ⟨_, accepted⟩ .nil)
  exact agrees.known _ (List.mem_singleton_self _) ⟨rfl, rfl⟩

end EtherDog
