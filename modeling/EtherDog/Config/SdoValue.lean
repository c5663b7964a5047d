import EtherDog.Lib.Binary64
import EtherDog.Lib.Strtod
import EtherDog.Config.SdoEntry

/-!
# The numbers of startup SDOs (src/config.c)

`get_numeric_value` falls back to its default where a member is no number, and
the default 0 is in the range of every type: such an entry is accepted and 0 is
written.  Behind `0x` it reads with `strtoll`, which stops at 2^63 - 1.
-/

set_option autoImplicit false

namespace EtherDog

open CString Checked Strtod

/-! ## The library -/

def nearestDouble (q : Rat) : Double :=
  if Binary64.overflows q then .infinite (q < 0) else .finite (Binary64.round q)

def doubleOf : Number → Double
  | .finite q => nearestDouble q
  | .infinite negative => .infinite negative
  | .nan => .nan

def strtod (s : Text) : Double × Text :=
  match read s with
  | none => (.finite 0, s)
  | some (number, rest) => (doubleOf number, rest)

/-- The library as C defines it, with the default rounding. -/
def cLibrary : LibC := ⟨strtod, fun v => nearestDouble v⟩

/-! ## What a text is read as -/

inductive HexLiteral : Text → Nat → Prop where
  | mk {mark : UInt8} {digits : Text} (marked : isHexMark mark = true) (nonempty : digits ≠ [])
      (hex : ∀ c ∈ digits, digitIn 16 c = true) :
      HexLiteral (48 :: mark :: digits) (numeral 16 digits)

inductive ReadAs : Text → Double → Prop where
  | hex {t : Text} {m : Nat} (literal : HexLiteral t m) :
      ReadAs t (nearestDouble (min (m : Int) (2 ^ 63 - 1) : Int))
  | numeral {t : Text} {q : Rat} (plain : hexPrefixed t = false) (numeral : Numeral t q) :
      ReadAs t (nearestDouble q)
  | infinite {t : Text} {negative : Bool} (plain : hexPrefixed t = false)
      (word : read t = some (.infinite negative, [])) : ReadAs t (.infinite negative)
  | nan {t : Text} (plain : hexPrefixed t = false) (word : read t = some (.nan, [])) :
      ReadAs t .nan

theorem whole_eq_some {s : Text} (nonempty : s ≠ []) {value v : Double} {rest : Text} :
    whole s (value, rest) = some v ↔ rest = [] ∧ value = v := by
  unfold whole
  dsimp only
  by_cases empty : rest = []
  · subst empty
    simp [nonempty.symm]
  · simp [empty]

theorem numberOfText_hex_iff {mark : UInt8} (marked : isHexMark mark = true) (digits : Text)
    (v : Double) :
    numberOfText cLibrary (48 :: mark :: digits) = some v ↔
      digits ≠ [] ∧ (∀ c ∈ digits, digitIn 16 c = true) ∧
        v = nearestDouble (min (CString.numeral 16 digits : Int) (2 ^ 63 - 1) : Int) := by
  have nonempty : 48 :: mark :: digits ≠ [] := by simp
  rw [numberOfText, if_pos marked]
  change whole _ (nearestDouble (strtoll 16 (48 :: mark :: digits)).1,
    (strtoll 16 (48 :: mark :: digits)).2) = some v ↔ _
  rw [whole_eq_some nonempty]
  constructor
  · intro found
    generalize reading : strtoll 16 (48 :: mark :: digits) = pair at found
    obtain ⟨value, rest⟩ := pair
    obtain ⟨rfl, rfl⟩ := found
    obtain ⟨some, hex, rfl⟩ := (strtoll_hexMark marked digits value).mp reading
    exact ⟨some, hex, rfl⟩
  · rintro ⟨some, hex, rfl⟩
    rw [(strtoll_hexMark marked digits _).mpr ⟨some, hex, rfl⟩]
    exact ⟨rfl, rfl⟩

theorem numberOfText_plain_iff {t : Text} (plain : hexPrefixed t = false) (nonempty : t ≠ [])
    (v : Double) :
    numberOfText cLibrary t = some v ↔ ∃ number, read t = some (number, []) ∧ v = doubleOf number := by
  have read : numberOfText cLibrary t = whole t (strtod t) := by
    unfold numberOfText
    split
    · exact absurd rfl nonempty
    · rename_i mark digits
      have unmarked : isHexMark mark = false := plain
      rw [unmarked]
      rfl
    · rfl
  rw [read, strtod]
  cases reading : Strtod.read t with
  | none => simp [whole]
  | some pair =>
      obtain ⟨number, rest⟩ := pair
      dsimp only
      rw [whole_eq_some nonempty]
      constructor
      · rintro ⟨rfl, rfl⟩
        exact ⟨number, rfl, rfl⟩
      · rintro ⟨other, same, rfl⟩
        cases same
        exact ⟨rfl, rfl⟩

theorem HexLiteral.marked {t : Text} {m : Nat} (literal : HexLiteral t m) :
    hexPrefixed t = true := by
  cases literal with
  | mk marked => exact marked

theorem numberOfText_iff (t : Text) (v : Double) :
    numberOfText cLibrary t = some v ↔ ReadAs t v := by
  by_cases empty : t = []
  · subst empty
    constructor
    · intro found
      cases found
    · intro readAs
      cases readAs with
      | hex literal => cases literal
      | numeral _ numeral => cases numeral.complete
      | infinite _ word | nan _ word => cases word
  · cases prefixed : hexPrefixed t with
    | true =>
        obtain ⟨mark, digits, rfl, marked⟩ := hexPrefixed_cases prefixed
        rw [numberOfText_hex_iff marked]
        constructor
        · rintro ⟨nonempty, hex, rfl⟩
          exact .hex (.mk marked nonempty hex)
        · intro readAs
          cases readAs with
          | hex literal =>
              cases literal with
              | mk _ nonempty hex => exact ⟨nonempty, hex, rfl⟩
          | numeral plain | infinite plain | nan plain => cases prefixed.symm.trans plain
    | false =>
        rw [numberOfText_plain_iff prefixed empty]
        constructor
        · rintro ⟨number, reading, rfl⟩
          cases number with
          | finite q => exact .numeral prefixed (read_numeral_iff.mp reading)
          | infinite negative => exact .infinite prefixed reading
          | nan => exact .nan prefixed reading
        · intro readAs
          cases readAs with
          | hex literal => cases prefixed.symm.trans literal.marked
          | numeral _ numeral => exact ⟨_, numeral.complete, rfl⟩
          | infinite _ word | nan _ word => exact ⟨_, word, rfl⟩

theorem HexLiteral.numeral {t : Text} {m : Nat} (literal : HexLiteral t m) : Numeral t m := by
  cases literal with
  | @mk mark digits marked nonempty hex =>
      have inside : Literal hexadecimal digits (CString.numeral 16 digits : Nat) := by
        have literal := Literal.mk (n := hexadecimal) hex .absent (by simpa using nonempty) .absent
        simpa [LiteralKind.value, hexadecimal] using literal
      exact @Numeral.mk [] [] _ false _ (by simp) .absent (.hexadecimal marked inside)

/-! ## Clipped literals -/

theorem nearestDouble_eq_iff (q : Rat) :
    nearestDouble q = .finite (2 ^ 63) ↔ Binary64.round q = 2 ^ 63 := by
  unfold nearestDouble Binary64.overflows
  constructor
  · intro same
    split at same
    · cases same
    · exact Double.finite.inj same
  · intro rounded
    have small : ¬ (2 : Rat) ^ 1024 ≤ |2 ^ 63| := by
      rw [abs_of_nonneg (by positivity), not_le]
      exact pow_lt_pow_right₀ one_lt_two (by norm_num)
    rw [rounded, if_neg (by simpa using small)]

theorem nearestDouble_clipped : nearestDouble ((2 ^ 63 - 1 : Int) : Rat) = .finite (2 ^ 63) := by
  have below := Binary64.round_eq_pow_of_below (x := ((2 ^ 63 - 1 : Int) : Rat)) (e := 62)
    (by norm_num) (by norm_num) (by norm_num)
  rw [nearestDouble_eq_iff, below]
  norm_num

/-- The clipped value is that of the literal up to half a place above 2^63. -/
theorem nearestDouble_min_iff (m : Nat) :
    nearestDouble ((min (m : Int) (2 ^ 63 - 1) : Int) : Rat) = nearestDouble m ↔
      m ≤ 2 ^ 63 + 2 ^ 10 := by
  by_cases small : m ≤ 2 ^ 63 - 1
  · rw [min_eq_left (by omega)]
    exact ⟨fun _ => by omega, fun _ => rfl⟩
  · have large : (2 : Rat) ^ (63 : Int) ≤ m := by
      have whole : 2 ^ 63 ≤ m := by omega
      exact_mod_cast whole
    have rounding := Binary64.round_eq_pow_iff (e := 63) (by norm_num) large
    rw [min_eq_right (by omega), nearestDouble_clipped, eq_comm, nearestDouble_eq_iff]
    norm_num at rounding ⊢
    exact_mod_cast rounding

/-! ## The value in the file -/

/-- The number a member gives. -/
inductive NumberGiven : Json → Double → Prop where
  | number (valueint : Int) (value : Double) : NumberGiven (.number valueint value) value
  | text {buffer : List UInt8} {q : Rat} (numeral : Numeral buffer q) :
      NumberGiven (.string buffer) (nearestDouble q)

def WrittenAsGiven (alloc : Alloc) (json : Json) : Prop :=
  ∀ member sdo, json.item? "value" = some member → member ≠ .string [] →
    parseSdo cLibrary alloc json = .ok sdo → NumberGiven member sdo.value

def NumericEntry (json : Json) (dt : EcatDataType) : Prop :=
  (∃ idx subindex, SdoHead json idx subindex dt) ∧
    dt ≠ .unknown ∧ dt ≠ .pad ∧ dt ≠ .bytestring

def OutOfRange (dt : EcatDataType) (t : Text) : Prop :=
  ∃ v, ReadAs t v ∧ sdoValueInRange dt v = false

/-- Behind `0x`: hex digits up to half a place above 2^63, or a literal of another
form that is zero. -/
def HexWithin (t : Text) (q : Rat) : Prop :=
  (∃ m, HexLiteral t m ∧ m ≤ 2 ^ 63 + 2 ^ 10) ∨
    (¬ ∃ m, HexLiteral t m) ∧ nearestDouble q = .finite 0

/-- The member is read as it is meant, or the entry is refused for its range. -/
def ReadRight (dt : EcatDataType) (member : Json) : Prop :=
  match member with
  | .number _ _ => True
  | .string buffer =>
      OutOfRange dt (cstr buffer) ∨
        ∃ q, Numeral buffer q ∧ (hexPrefixed buffer = true → HexWithin buffer q)
  | _ => False

theorem zero_inRange {dt : EcatDataType}
    (known : dt ≠ .unknown ∧ dt ≠ .pad ∧ dt ≠ .bytestring) :
    sdoValueInRange dt (.finite 0) = true := by
  cases dt with
  | unknown | pad | bytestring => simp at known
  | _ => norm_num [sdoValueInRange]

theorem NumericEntry.accepted {json : Json} {dt : EcatDataType} (entry : NumericEntry json dt)
    (absent : getString? json "value_bytes" = none) (libc : LibC) (alloc : Alloc)
    (inRange : sdoValueInRange dt (getNumericValue libc json "value" (.finite 0)) = true) :
    ∃ sdo, parseSdo libc alloc json = .ok sdo ∧
      sdo.value = getNumericValue libc json "value" (.finite 0) := by
  obtain ⟨⟨idx, subindex, head⟩, _, _, numeric⟩ := entry
  exact ⟨_, (parseSdo_ok_iff libc alloc json _).mpr (.number head numeric absent inRange), rfl⟩

theorem OutOfRange.refused {dt : EcatDataType} {t : Text} (out : OutOfRange dt t) :
    sdoValueInRange dt ((numberOfText cLibrary t).getD (.finite 0)) = false := by
  obtain ⟨v, readAs, outside⟩ := out
  rw [(numberOfText_iff t v).mpr readAs]
  exact outside

theorem inRange_of_not_outOfRange {dt : EcatDataType}
    (known : dt ≠ .unknown ∧ dt ≠ .pad ∧ dt ≠ .bytestring) {t : Text}
    (within : ¬ OutOfRange dt t) :
    sdoValueInRange dt ((numberOfText cLibrary t).getD (.finite 0)) = true := by
  cases found : numberOfText cLibrary t with
  | none => exact zero_inRange known
  | some v =>
      by_contra outside
      exact within ⟨v, (numberOfText_iff t v).mp found, by simpa using outside⟩

theorem HexLiteral.value_eq {t : Text} {m : Nat} {q : Rat} (literal : HexLiteral t m)
    (numeral : Numeral t q) : q = m :=
  numeral.unique literal.numeral

theorem numberOfText_none {t : Text} (marked : hexPrefixed t = true)
    (other : ¬ ∃ m, HexLiteral t m) : numberOfText cLibrary t = none := by
  cases found : numberOfText cLibrary t with
  | none => rfl
  | some v =>
      cases (numberOfText_iff t v).mp found with
      | hex literal => exact absurd ⟨_, literal⟩ other
      | numeral plain | infinite plain | nan plain => cases marked.symm.trans plain

/-- A numeral is read right exactly within these bounds. -/
theorem numberOfText_right_iff {t : Text} {q : Rat} (numeral : Numeral t q) :
    (numberOfText cLibrary t).getD (.finite 0) = nearestDouble q ↔
      (hexPrefixed t = true → HexWithin t q) := by
  cases prefixed : hexPrefixed t with
  | false =>
      rw [(numberOfText_iff t _).mpr (.numeral prefixed numeral)]
      simp
  | true =>
      by_cases literal : ∃ m, HexLiteral t m
      · obtain ⟨m, literal⟩ := literal
        have value := literal.value_eq numeral
        subst value
        rw [(numberOfText_iff t _).mpr (.hex literal), Option.getD_some, nearestDouble_min_iff]
        constructor
        · intro small _
          exact Or.inl ⟨m, literal, small⟩
        · intro within
          rcases within rfl with ⟨m', literal', small⟩ | ⟨other, _⟩
          · have same : m = m' := by exact_mod_cast literal'.value_eq numeral
            rw [same]
            exact small
          · exact absurd ⟨m, literal⟩ other
      · rw [numberOfText_none prefixed literal, Option.getD_none]
        constructor
        · intro zero _
          exact Or.inr ⟨literal, zero.symm⟩
        · intro within
          rcases within rfl with ⟨m, found, _⟩ | ⟨_, zero⟩
          · exact absurd ⟨m, found⟩ literal
          · exact zero.symm

theorem getNumericValue_string {json : Json} {key : String} {buffer : List UInt8}
    (present : json.item? key = some (.string buffer)) (libc : LibC) (default : Double) :
    getNumericValue libc json key default = (numberOfText libc (cstr buffer)).getD default := by
  rw [getNumericValue, present]

/-- Every accepted value is the one in the file exactly where the member is read
right: other kinds of members and texts that are no numbers are accepted as 0,
and hex literals are clipped. -/
theorem sdo_value_written_iff (alloc : Alloc) (json : Json)
    (absent : getString? json "value_bytes" = none) :
    WrittenAsGiven alloc json ↔
      ∀ member dt, json.item? "value" = some member → member ≠ .string [] →
        NumericEntry json dt → ReadRight dt member := by
  constructor
  · intro written member dt present nonempty entry
    cases member with
    | number => trivial
    | string buffer =>
        by_cases out : OutOfRange dt (cstr buffer)
        · exact Or.inl out
        · have read := getNumericValue_string present cLibrary (.finite 0)
          obtain ⟨sdo, accepted, value⟩ := entry.accepted absent cLibrary alloc (by
            rw [read]
            exact inRange_of_not_outOfRange entry.2 out)
          have given := written _ sdo present nonempty accepted
          rw [value, read] at given
          generalize stored : (numberOfText cLibrary (cstr buffer)).getD (.finite 0) = v at given
          cases given with
          | text numeral =>
              rw [cstr_free numeral.nonzero] at stored
              exact Or.inr ⟨_, numeral, (numberOfText_right_iff numeral).mp stored⟩
    | null | bool | array | object =>
        -- the default is accepted for what is neither a number nor a text
        obtain ⟨sdo, accepted, _⟩ := entry.accepted absent cLibrary alloc (by
          rw [getNumericValue, present]
          exact zero_inRange entry.2)
        cases written _ sdo present nonempty accepted
  · intro right member sdo present nonempty accepted
    cases (parseSdo_ok_iff cLibrary alloc json sdo).mp accepted with
    | bytes head given => cases absent.symm.trans given
    | @number idx subindex dt head numeric _ inRange =>
        have known := sdoValueInRange_numeric inRange
        have readRight := right member dt present nonempty ⟨⟨idx, subindex, head⟩, known⟩
        change NumberGiven member (getNumericValue cLibrary json "value" (.finite 0))
        cases member with
        | number valueint value =>
            rw [getNumericValue, present]
            exact .number valueint value
        | string buffer =>
            have read := getNumericValue_string present cLibrary (.finite 0)
            rw [read] at inRange ⊢
            rcases readRight with out | ⟨q, numeral, within⟩
            · cases inRange.symm.trans out.refused
            · rw [cstr_free numeral.nonzero, (numberOfText_right_iff numeral).mpr within]
              exact .text numeral
        | null | bool | array | object => cases readRight

def numericEntry (dataType value : String) : Json :=
  .object [(text "index", .string (text "0x8010")),
    (text "data_type", .string (text dataType)),
    (text "value", .string (text value))]

theorem sdo_value_written_iff_hex :
    WrittenAsGiven (fun _ => true) (numericEntry "UINT8" "0xFF") := by
  have facts : getString? (numericEntry "UINT8" "0xFF") "value_bytes" = none ∧
      text "0xFF" = 48 :: 120 :: [70, 70] ∧ CString.numeral 16 [70, 70] = 255 := by
    decide +kernel
  obtain ⟨absent, shape, number⟩ := facts
  have literal : HexLiteral (text "0xFF") 255 := by
    rw [shape, ← number]
    exact .mk rfl (by simp) (by simp [digitIn, digitValue, isDigit, toLower, isUpper, isLower])
  refine (sdo_value_written_iff (fun _ => true) (numericEntry "UINT8" "0xFF") absent).mpr ?_
  intro member dt present _ _
  have given : (numericEntry "UINT8" "0xFF").item? "value" = some (.string (text "0xFF")) := rfl
  cases given.symm.trans present
  exact Or.inr ⟨_, literal.numeral, fun _ => Or.inl ⟨255, literal, by norm_num⟩⟩

/-- A text that is no number is accepted, and 0 is written. -/
theorem sdo_value_word_accepted :
    ¬ ∀ (alloc : Alloc) (json : Json), getString? json "value_bytes" = none →
      WrittenAsGiven alloc json := by
  intro always
  have facts : getString? (numericEntry "UINT16" "fast") "value_bytes" = none ∧
      parseSdoIndex (numericEntry "UINT16" "fast") = .ok 0x8010 ∧
      parseSdoSubindex (numericEntry "UINT16" "fast") = .ok 0 ∧
      ecatParseDataType (getString (numericEntry "UINT16" "fast") "data_type" "") = .uint16 ∧
      text "fast" ≠ [] ∧ read (text "fast") = none ∧
      getNumericValue cLibrary (numericEntry "UINT16" "fast") "value" (.finite 0) =
        .finite 0 := by
    decide +kernel
  obtain ⟨absent, index, subindex, dataType, nonempty, unread, stored⟩ := facts
  have entry : NumericEntry (numericEntry "UINT16" "fast") .uint16 :=
    ⟨⟨0x8010, 0, index, subindex, dataType⟩, by decide⟩
  obtain ⟨sdo, accepted, _⟩ := entry.accepted absent cLibrary (fun _ => true) (by
    rw [stored]
    exact zero_inRange entry.2)
  have given := always _ _ absent (.string (text "fast")) sdo rfl (by simpa using nonempty) accepted
  generalize sdo.value = v at given
  cases given with
  | text numeral => cases unread.symm.trans numeral.complete

end EtherDog
