import EtherDog.Config.Parse
import EtherDog.Config.Index

/-!
# What parse_sdo accepts (src/config.c)

An accepted entry is of one of two kinds: a byte string with a payload that
could be read, or a number in the range of its type.  `SdoRead` lists them with
everything `parse_sdo` has checked on the way.
-/

set_option autoImplicit false

namespace EtherDog

open CString Checked

/-- `0x` or `0X` stands first. -/
def hexPrefixed (s : Text) : Bool :=
  match s with
  | 48 :: mark :: _ => isHexMark mark
  | _ => false

theorem hexPrefixed_cases {s : Text} (marked : hexPrefixed s = true) :
    ∃ mark digits, s = 48 :: mark :: digits ∧ isHexMark mark = true := by
  unfold hexPrefixed at marked
  split at marked
  · rename_i mark digits
    exact ⟨mark, digits, rfl, marked⟩
  · cases marked

/-- What `parse_sdo` has read of an entry when it comes to the payload. -/
structure SdoHead (json : Json) (idx : Nat) (subindex : UInt8) (dt : EcatDataType) : Prop where
  index : parseSdoIndex json = .ok idx
  subindex : parseSdoSubindex json = .ok subindex
  dataType : ecatParseDataType (getString json "data_type" "") = dt

def sdoOf (json : Json) (idx : Nat) (subindex : UInt8) (dt : EcatDataType) (value : Double)
    (valueBytes : Option (List UInt8)) : EcatSdoConfig where
  index := formatIndex idx
  subindex := subindex
  value := value
  valueBytes := valueBytes
  parsedType := dt
  completeAccess := getBool json "complete_access" false
  name := safeStrcpy (getString json "name" "") ecatMaxNameLen

inductive SdoRead (libc : LibC) (alloc : Alloc) (json : Json) : EcatSdoConfig → Prop where
  | bytes {idx : Nat} {subindex : UInt8} {s : Text} {payload : List UInt8}
      (head : SdoHead json idx subindex .bytestring)
      (given : getString? json "value_bytes" = some s)
      (read : valueBytesOfText alloc s = .ok payload) :
      SdoRead libc alloc json (sdoOf json idx subindex .bytestring (.finite 0) (some payload))
  | number {idx : Nat} {subindex : UInt8} {dt : EcatDataType}
      (head : SdoHead json idx subindex dt)
      (numeric : dt ≠ .bytestring)
      (absent : getString? json "value_bytes" = none)
      (inRange : sdoValueInRange dt (getNumericValue libc json "value" (.finite 0)) = true) :
      SdoRead libc alloc json
        (sdoOf json idx subindex dt (getNumericValue libc json "value" (.finite 0)) none)

theorem sdoValueInRange_numeric {dt : EcatDataType} {v : Double}
    (inRange : sdoValueInRange dt v = true) :
    dt ≠ .unknown ∧ dt ≠ .pad ∧ dt ≠ .bytestring := by
  cases v with
  | finite q => cases dt <;> simp_all [sdoValueInRange]
  | infinite negative => simp [sdoValueInRange] at inRange
  | nan => simp [sdoValueInRange] at inRange

theorem parseSdo_ok_iff (libc : LibC) (alloc : Alloc) (json : Json) (sdo : EcatSdoConfig) :
    parseSdo libc alloc json = .ok sdo ↔ SdoRead libc alloc json sdo := by
  constructor
  · intro accepted
    unfold parseSdo at accepted
    obtain ⟨idx, index, rest⟩ := bind_eq_ok.mp accepted
    obtain ⟨subindex, sub, rest⟩ := bind_eq_ok.mp rest
    obtain ⟨_, known, rest⟩ := bind_eq_ok.mp rest
    obtain ⟨_, onlyBytes, rest⟩ := bind_eq_ok.mp rest
    obtain ⟨_, needsBytes, rest⟩ := bind_eq_ok.mp rest
    rw [require_eq_ok] at known onlyBytes needsBytes
    cases given : getString? json "value_bytes" with
    | some s =>
        rw [given] at rest onlyBytes
        obtain ⟨payload, read, filled⟩ := bind_eq_ok.mp rest
        cases filled
        have typed : ecatParseDataType (getString json "data_type" "") = .bytestring := by
          simpa using onlyBytes
        rw [typed]
        exact .bytes ⟨index, sub, typed⟩ given read
    | none =>
        rw [given] at rest needsBytes
        obtain ⟨_, inRange, filled⟩ := bind_eq_ok.mp rest
        cases filled
        exact .number ⟨index, sub, rfl⟩ (by simpa using needsBytes) given
          (require_eq_ok.mp inRange)
  · intro read
    cases read with
    | @bytes idx subindex s payload head given read =>
        unfold parseSdo
        rw [head.index, head.subindex, head.dataType, given]
        simp only [Except.bind, Bind.bind, read]
        rfl
    | @number idx subindex dt head numeric absent inRange =>
        have known := sdoValueInRange_numeric inRange
        unfold parseSdo
        rw [head.index, head.subindex, head.dataType, absent]
        simp [Except.bind, Bind.bind, inRange, known, require]
        rfl

/-! ## The index it writes -/

theorem upperHexDigit_value {v : Nat} (below : v < 16) :
    isXDigit (upperHexDigit v) = true ∧ digitValue (upperHexDigit v) = some v := by
  have all : ∀ v : Fin 16, isXDigit (upperHexDigit v.val) = true ∧
      digitValue (upperHexDigit v.val) = some v.val := by decide
  exact all ⟨v, below⟩

theorem formatIndex_spelling {idx : Nat} (small : idx ≤ 0xFFFF) :
    ∃ digits, Spelling (formatIndex idx) 48 120 digits ∧ hexValue (formatIndex idx) = idx := by
  obtain ⟨hex3, value3⟩ := upperHexDigit_value (v := idx / 4096 % 16) (by omega)
  obtain ⟨hex2, value2⟩ := upperHexDigit_value (v := idx / 256 % 16) (by omega)
  obtain ⟨hex1, value1⟩ := upperHexDigit_value (v := idx / 16 % 16) (by omega)
  obtain ⟨hex0, value0⟩ := upperHexDigit_value (v := idx % 16) (by omega)
  have marked : text "0x" = [48, 120] := by decide
  refine ⟨[upperHexDigit (idx / 4096 % 16), upperHexDigit (idx / 256 % 16),
    upperHexDigit (idx / 16 % 16), upperHexDigit (idx % 16)],
    ⟨by rw [formatIndex, marked]; rfl, Or.inl rfl, by decide, by simp, by simp, ?_⟩, ?_⟩
  · intro c member
    simp only [List.mem_cons, List.not_mem_nil, or_false] at member
    rcases member with rfl | rfl | rfl | rfl
    · exact hex3
    · exact hex2
    · exact hex1
    · exact hex0
  · simp only [hexValue, formatIndex, marked, List.cons_append, List.nil_append,
      List.drop_succ_cons, List.drop_zero, numeral, List.foldl_cons, List.foldl_nil, value3,
      value2, value1, value0, Option.getD_some]
    omega

end EtherDog
