import EtherDog.Config.SdoEntry
import EtherDog.Config.Index

/-!
# The byte payload of an SDO (src/config.c, docs/BUSCONFIG.md)

`value_bytes` is either `0x` with two hex digits a byte or a plain string.
`HexText` says which texts spell which bytes, without reading them.
-/

set_option autoImplicit false

namespace EtherDog

open CString Checked

def lowerHexDigit (v : Nat) : UInt8 := UInt8.ofNat (if v < 10 then 48 + v else 87 + v)

/-- The digits spell the bytes, two for each byte and in any letter case. -/
inductive HexText : Text → List UInt8 → Prop where
  | nil : HexText [] []
  | cons {high low b : UInt8} {digits : Text} {bytes : List UInt8}
      (highSpells : toLower high = lowerHexDigit (b.toNat / 16))
      (lowSpells : toLower low = lowerHexDigit (b.toNat % 16))
      (rest : HexText digits bytes) : HexText (high :: low :: digits) (b :: bytes)

/-! ## Hex digits -/

theorem spelled_digit {c : UInt8} {v : Nat} (below : v < 16)
    (spells : toLower c = lowerHexDigit v) : isXDigit c = true ∧ digitValue c = some v := by
  have all : ∀ n : Fin 256, ∀ v : Fin 16, toLower (UInt8.ofNat n) = lowerHexDigit v →
      isXDigit (UInt8.ofNat n) = true ∧ digitValue (UInt8.ofNat n) = some v.val := by
    decide +kernel
  have same := all ⟨c.toNat, UInt8.toNat_lt c⟩ ⟨v, below⟩
  simp only [UInt8.ofNat_toNat] at same
  exact same spells

theorem isXDigit_plain {c : UInt8} (hex : isXDigit c = true) :
    isSpace c = false ∧ c ≠ 45 ∧ c ≠ 43 := by
  have all : ∀ n : Fin 256, isXDigit (UInt8.ofNat n) = true →
      isSpace (UInt8.ofNat n) = false ∧ UInt8.ofNat n ≠ 45 ∧ UInt8.ofNat n ≠ 43 := by
    decide +kernel
  have same := all ⟨c.toNat, UInt8.toNat_lt c⟩
  simp only [UInt8.ofNat_toNat] at same
  exact same hex

theorem strtoul_pair {a b : UInt8} {high low : Nat} (aHex : isXDigit a = true)
    (bHex : isXDigit b = true) (aValue : digitValue a = some high)
    (bValue : digitValue b = some low) (highSmall : high < 16) (lowSmall : low < 16) :
    (strtoul 16 [a, b]).1 = high * 16 + low := by
  obtain ⟨aSpace, aMinus, aPlus⟩ := isXDigit_plain aHex
  have unsigned : sign ([a, b].dropWhile isSpace) = (false, [a, b]) := by
    rw [List.dropWhile_cons_of_neg (by simp [aSpace])]
    unfold sign
    split
    · rename_i same
      cases same
      exact absurd rfl aMinus
    · rename_i same
      cases same
      exact absurd rfl aPlus
    · rfl
  have based : radix 16 [a, b] = (16, [a, b]) := by
    unfold radix
    split
    · rename_i same
      simp at same
    · rename_i same
      rfl
    · rfl
  have aDigit : digitIn 16 a = true := (hexDigit_spec a aHex).2.2
  have bDigit : digitIn 16 b = true := (hexDigit_spec b bHex).2.2
  have scanned : scan 16 [a, b] = some ⟨false, high * 16 + low, []⟩ := by
    unfold scan
    rw [unsigned]
    dsimp only
    rw [based]
    simp [aDigit, bDigit, numeral, aValue, bValue]
  rw [strtoul, scanned]
  have small : ¬ high * 16 + low > ulongMax := by
    unfold ulongMax
    omega
  simp [small]

/-! ## The pairs -/

theorem HexText.even {digits : Text} {bytes : List UInt8} (spells : HexText digits bytes) :
    digits.length = 2 * bytes.length := by
  induction spells with
  | nil => rfl
  | cons _ _ _ ih =>
      simp only [List.length_cons, ih]
      omega

theorem HexText.read {digits : Text} {bytes : List UInt8} (spells : HexText digits bytes) :
    hexPairs digits = some bytes := by
  induction spells with
  | nil => rfl
  | @cons high low b digits bytes highSpells lowSpells rest ih =>
      have small := UInt8.toNat_lt b
      obtain ⟨highHex, highValue⟩ := spelled_digit (by omega) highSpells
      obtain ⟨lowHex, lowValue⟩ := spelled_digit (by omega) lowSpells
      have pair := strtoul_pair highHex lowHex highValue lowValue (by omega) (by omega)
      have joined : b.toNat / 16 * 16 + b.toNat % 16 = b.toNat := by omega
      simp [hexPairs, highHex, lowHex, ih, pair, joined]

theorem hexPairs_some {digits : Text} {bytes : List UInt8} (read : hexPairs digits = some bytes) :
    ∀ c ∈ digits, isXDigit c = true := by
  induction digits using hexPairs.induct generalizing bytes with
  | case1 => simp
  | case2 => simp [hexPairs] at read
  | case3 a b rest hex ih =>
      rw [hexPairs, if_pos hex, Option.map_eq_some_iff] at read
      obtain ⟨later, readRest, _⟩ := read
      rw [Bool.and_eq_true] at hex
      simpa [hex.1, hex.2] using ih readRest
  | case4 a b rest hex =>
      rw [hexPairs, if_neg hex] at read
      simp at read

theorem valueBytes_hex {alloc : Alloc} {mark : UInt8} {digits : Text} {bytes : List UInt8}
    (allocated : alloc [] = true) (marked : isHexMark mark = true) (spells : HexText digits bytes)
    (nonempty : bytes ≠ []) : valueBytesOfText alloc (48 :: mark :: digits) = .ok bytes := by
  have length := spells.even
  have positive := List.length_pos_iff.mpr nonempty
  have pairs : decide (digits.length ≠ 0 ∧ digits.length % 2 = 0) = true := by
    rw [decide_eq_true_eq]
    omega
  rw [valueBytesOfText, if_pos marked, pairs, allocated, spells.read]
  rfl

theorem valueBytes_plain {alloc : Alloc} {s : Text} (allocated : alloc [] = true)
    (plain : hexPrefixed s = false) : valueBytesOfText alloc s = .ok s := by
  unfold valueBytesOfText
  split
  · rename_i mark digits
    have unmarked : isHexMark mark = false := plain
    rw [unmarked, allocated]
    rfl
  · rw [allocated]
    rfl

/-- Whatever `alloc` answers. -/
theorem valueBytes_refused {alloc : Alloc} {mark : UInt8} {digits : Text}
    (marked : isHexMark mark = true)
    (broken : ¬ (digits ≠ [] ∧ digits.length % 2 = 0 ∧ ∀ c ∈ digits, isXDigit c = true)) :
    ∃ failure, valueBytesOfText alloc (48 :: mark :: digits) = .error failure := by
  cases outcome : valueBytesOfText alloc (48 :: mark :: digits) with
  | error failure => exact ⟨failure, rfl⟩
  | ok bytes =>
      exfalso
      rw [valueBytesOfText, if_pos marked, bind_eq_ok] at outcome
      obtain ⟨_, paired, rest⟩ := outcome
      rw [require_eq_ok, decide_eq_true_eq] at paired
      obtain ⟨_, _, reading⟩ := bind_eq_ok.mp rest
      split at reading
      · simp at reading
      · rename_i found read
        refine broken ⟨?_, paired.2, hexPairs_some read⟩
        rintro rfl
        exact paired.1 rfl

/-! ## The entry they stand in -/

/-- Hex pairs and plain strings are stored byte for byte; a broken hex text is
refused.  All three speak of the text before a NUL: `0xAB\u0000zz` is the byte AB. -/
theorem value_bytes_decode_exactly (libc : LibC) (alloc : Alloc) (json : Json) (s : Text)
    (given : getString? json "value_bytes" = some s) :
    (∀ idx subindex, SdoHead json idx subindex .bytestring → alloc [] = true →
      (∀ mark digits bytes, s = 48 :: mark :: digits → isHexMark mark = true →
        HexText digits bytes → bytes ≠ [] →
          parseSdo libc alloc json =
            .ok (sdoOf json idx subindex .bytestring (.finite 0) (some bytes))) ∧
      (hexPrefixed s = false →
        parseSdo libc alloc json =
          .ok (sdoOf json idx subindex .bytestring (.finite 0) (some s)))) ∧
    (∀ mark digits, s = 48 :: mark :: digits → isHexMark mark = true →
      ¬ (digits ≠ [] ∧ digits.length % 2 = 0 ∧ ∀ c ∈ digits, isXDigit c = true) →
        ∃ failure, parseSdo libc alloc json = .error failure) := by
  refine ⟨fun idx subindex head allocated => ⟨?_, ?_⟩, ?_⟩
  · intro mark digits bytes shape marked spells nonempty
    have read := valueBytes_hex allocated marked spells nonempty
    rw [← shape] at read
    exact (parseSdo_ok_iff _ _ _ _).mpr (.bytes head given read)
  · intro plain
    exact (parseSdo_ok_iff _ _ _ _).mpr (.bytes head given (valueBytes_plain allocated plain))
  · intro mark digits shape marked broken
    obtain ⟨failure, refused⟩ := @valueBytes_refused alloc mark digits marked broken
    cases outcome : parseSdo libc alloc json with
    | error other => exact ⟨other, rfl⟩
    | ok sdo =>
        exfalso
        cases (parseSdo_ok_iff _ _ _ _).mp outcome with
        | bytes head again read =>
            rw [given] at again
            cases again
            rw [shape, refused] at read
            simp at read
        | number head numeric absent inRange =>
            rw [given] at absent
            simp at absent

def stringEntry (payload : String) : Json :=
  .object [(text "index", .string (text "0x8010")),
    (text "data_type", .string (text "STRING")),
    (text "value_bytes", .string (text payload))]

theorem value_bytes_decode_exactly_mixed_case :
    parseSdo ⟨fun s => (.finite 0, s), fun v => .finite v⟩ (fun _ => true) (stringEntry "0XaBc0") =
      .ok (sdoOf (stringEntry "0XaBc0") 0x8010 0 .bytestring (.finite 0) (some [0xAB, 0xC0])) := by
  have facts : getString? (stringEntry "0XaBc0") "value_bytes" = some (text "0XaBc0") ∧
      parseSdoIndex (stringEntry "0XaBc0") = .ok 0x8010 ∧
      parseSdoSubindex (stringEntry "0XaBc0") = .ok 0 ∧
      ecatParseDataType (getString (stringEntry "0XaBc0") "data_type" "") = .bytestring ∧
      text "0XaBc0" = 48 :: 88 :: [97, 66, 99, 48] := by
    decide
  obtain ⟨given, index, subindex, dataType, shape⟩ := facts
  have spells : HexText [97, 66, 99, 48] [0xAB, 0xC0] :=
    .cons (by decide) (by decide) (.cons (by decide) (by decide) .nil)
  have decoded := value_bytes_decode_exactly ⟨fun s => (.finite 0, s), fun v => .finite v⟩
    (fun _ => true) (stringEntry "0XaBc0") _ given
  exact (decoded.1 0x8010 0 ⟨index, subindex, dataType⟩ rfl).1 88 _ _ shape (by decide) spells
    (by decide)

end EtherDog
