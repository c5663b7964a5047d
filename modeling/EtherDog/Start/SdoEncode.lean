import EtherDog.Start.Configured
import EtherDog.Config.SdoEntry

/-!
# Numbers on the wire (src/master.c)

`encode_sdo_value` casts every integer type through `int64_t`, and its comment
leaves the range to `sdo_value_in_range` of the parser.  That check admits 2^63
for INT64 and everything up to the top of UINT64, which the cast cannot hold.
-/

set_option autoImplicit false

namespace EtherDog

def signedTypes : List EcatDataType := [.int8, .int16, .int32, .int64]

def unsignedTypes : List EcatDataType := [.bool, .uint8, .uint16, .uint32, .uint64]

def integerTypes : List EcatDataType := signedTypes ++ unsignedTypes

/-- The bytes read back as a value of the type. -/
def decodeInteger (dt : EcatDataType) (bytes : List UInt8) : Int :=
  if dt ∈ signedTypes then (LittleEndian.valueOf bytes : Int).bmod (256 ^ ecatDataTypeSize dt)
  else LittleEndian.valueOf bytes

def towardZero (q : Rat) : Int := if 0 ≤ q then ⌊q⌋ else ⌈q⌉

/-- The cast is defined and the bytes say what the value is without its fraction. -/
structure EncodedExactly (host : FloatLayout) (dt : EcatDataType) (q : Rat) : Prop where
  castDefined : -2 ^ 63 ≤ towardZero q ∧ towardZero q ≤ 2 ^ 63 - 1
  length : (encodeSdoValue host dt (.finite q)).length = ecatDataTypeSize dt
  value : decodeInteger dt (encodeSdoValue host dt (.finite q)) = towardZero q

/-! ## The truncation -/

theorem truncate_eq (q : Rat) : (Double.finite q).truncate = towardZero q := by
  change q.num.tdiv q.den = towardZero q
  unfold towardZero
  split
  · rename_i positive
    rw [Rat.floor_def', Int.tdiv_eq_ediv_of_nonneg (Rat.num_nonneg.mpr positive)]
  · rename_i negative
    have below : 0 ≤ -q.num := by
      have sign := Rat.num_nonneg (q := q)
      by_contra above
      exact negative (sign.mp (by omega))
    rw [Rat.ceil_def', ← Int.tdiv_eq_ediv_of_nonneg below, Int.neg_tdiv, neg_neg]

/-- An integer bound on the value is one on its truncation. -/
theorem towardZero_bounds {q : Rat} {low high : Int} (lowSign : low ≤ 0) (highSign : 0 ≤ high)
    (above : (low : Rat) ≤ q) (below : q ≤ high) : low ≤ towardZero q ∧ towardZero q ≤ high := by
  unfold towardZero
  split
  · rename_i positive
    have nonneg : 0 ≤ ⌊q⌋ := Int.floor_nonneg.mpr positive
    have small : ⌊q⌋ ≤ high := by
      have floor := Int.floor_le q
      exact_mod_cast floor.trans below
    exact ⟨by omega, small⟩
  · rename_i negative
    have small : ⌈q⌉ ≤ 0 := Int.ceil_le.mpr (by push_cast; linarith [not_le.mp negative])
    have large : low ≤ ⌈q⌉ := by
      have ceil := Int.le_ceil q
      exact_mod_cast above.trans ceil
    exact ⟨large, by omega⟩

theorem towardZero_large {q : Rat} (large : 2 ^ 63 ≤ q) : 2 ^ 63 ≤ towardZero q := by
  have positive : 0 ≤ q := le_trans (by norm_num) large
  rw [towardZero, if_pos positive]
  exact Int.le_floor.mpr (by exact_mod_cast large)

theorem towardZero_below {q : Rat} (low : -2 ^ 63 ≤ q) (high : q < 2 ^ 63) :
    -2 ^ 63 ≤ towardZero q ∧ towardZero q ≤ 2 ^ 63 - 1 := by
  have whole := @towardZero_bounds q (-2 ^ 63) (2 ^ 63) (by norm_num)
    (by norm_num) (by exact_mod_cast low) (by exact_mod_cast high.le)
  refine ⟨whole.1, ?_⟩
  by_cases positive : 0 ≤ q
  · rw [towardZero, if_pos positive]
    have floor : ⌊q⌋ < 2 ^ 63 := Int.floor_lt.mpr (by exact_mod_cast high)
    omega
  · have small := (@towardZero_bounds q (-2 ^ 63) 0 (by norm_num) le_rfl
      (by exact_mod_cast low) (by push_cast; linarith [not_le.mp positive])).2
    omega

/-! ## The bytes -/

theorem encodeSdoValue_integer {dt : EcatDataType} (integer : dt ∈ integerTypes)
    (host : FloatLayout) (q : Rat) :
    encodeSdoValue host dt (.finite q) =
      LittleEndian.bytesOf (ecatDataTypeSize dt) (towardZero q % 2 ^ 64).toNat := by
  have sized : ecatDataTypeSize dt ≠ 0 ∧ dt ≠ .real32 ∧ dt ≠ .real64 := by
    revert dt
    decide
  rw [encodeSdoValue, if_neg sized.1, if_neg sized.2.1, if_neg sized.2.2, truncate_eq]

theorem valueOf_lowBytes (size : Nat) (small : size ≤ 8) (v : Int) :
    (LittleEndian.valueOf (LittleEndian.bytesOf size (v % 2 ^ 64).toNat) : Int) =
      v % 256 ^ size := by
  have nonneg : 0 ≤ v % 2 ^ 64 := Int.emod_nonneg v (by norm_num)
  have divides : (256 ^ size : Int) ∣ 2 ^ 64 := by
    have power : (2 : Int) ^ 64 = 256 ^ 8 := by norm_num
    rw [power]
    exact pow_dvd_pow _ small
  rw [LittleEndian.valueOf_bytesOf, Int.natCast_emod, Int.toNat_of_nonneg nonneg, Nat.cast_pow]
  exact Int.emod_emod_of_dvd v divides

/-! ## What the parser's range leaves -/

/-- The least and the greatest whole value of an integer type. -/
def integerRange (dt : EcatDataType) : Int × Int :=
  if dt ∈ signedTypes then
    (-(256 ^ ecatDataTypeSize dt / 2), 256 ^ ecatDataTypeSize dt / 2 - 1)
  else (0, 256 ^ ecatDataTypeSize dt - 1)

theorem integerRange_signed {dt : EcatDataType} (signed : dt ∈ signedTypes) :
    integerRange dt = (-(256 ^ ecatDataTypeSize dt / 2), 256 ^ ecatDataTypeSize dt / 2 - 1) :=
  if_pos signed

theorem integerRange_unsigned {dt : EcatDataType} (unsigned : dt ∉ signedTypes) :
    integerRange dt = (0, 256 ^ ecatDataTypeSize dt - 1) :=
  if_neg unsigned

theorem integerRange_sign {dt : EcatDataType} (integer : dt ∈ integerTypes) :
    -2 ^ 63 ≤ (integerRange dt).1 ∧ (integerRange dt).1 ≤ 0 ∧ 0 ≤ (integerRange dt).2 := by
  revert dt
  decide

/-- The check of a type bounds its values, and only that of INT64 one too far. -/
theorem inRange_bounds {dt : EcatDataType} (integer : dt ∈ integerTypes) {q : Rat}
    (inRange : sdoValueInRange dt (.finite q) = true) :
    (integerRange dt).1 ≤ q ∧ (dt ≠ .int64 → q ≤ (integerRange dt).2) := by
  cases dt with
  | bool =>
      have range : integerRange .bool = (0, 255) := by decide
      have either : q = 0 ∨ q = 1 := by simpa [sdoValueInRange] using inRange
      rw [range]
      rcases either with rfl | rfl <;> norm_num
  | int64 =>
      have range : integerRange .int64 = (-2 ^ 63, 2 ^ 63 - 1) := by decide
      have bounds : -2 ^ 63 ≤ q ∧ q ≤ 2 ^ 63 := by simpa [sdoValueInRange] using inRange
      rw [range]
      exact ⟨by exact_mod_cast bounds.1, fun short => absurd rfl short⟩
  | uint64 =>
      have range : integerRange .uint64 = (0, 2 ^ 64 - 1) := by decide
      have bounds : 0 ≤ q ∧ q ≤ 2 ^ 64 - 2 ^ 11 := by simpa [sdoValueInRange] using inRange
      rw [range]
      exact ⟨by exact_mod_cast bounds.1, fun _ => by push_cast; linarith⟩
  | int8 | int16 | int32 | uint8 | uint16 | uint32 =>
      norm_num [sdoValueInRange] at inRange
      simpa [integerRange, signedTypes, ecatDataTypeSize] using inRange
  | _ => simp [integerTypes, signedTypes, unsignedTypes] at integer

/-- Below 2^63 the check leaves only truncations that the type can hold. -/
theorem inRange_truncation {dt : EcatDataType} (integer : dt ∈ integerTypes) {q : Rat}
    (inRange : sdoValueInRange dt (.finite q) = true) (below : q < 2 ^ 63) :
    (integerRange dt).1 ≤ towardZero q ∧ towardZero q ≤ (integerRange dt).2 := by
  have bounds := inRange_bounds integer inRange
  by_cases long : dt = .int64
  · subst long
    exact towardZero_below (by exact_mod_cast bounds.1) below
  · obtain ⟨_, low, high⟩ := integerRange_sign integer
    exact towardZero_bounds low high bounds.1 (bounds.2 long)

theorem inRange_low {dt : EcatDataType} (integer : dt ∈ integerTypes) {q : Rat}
    (inRange : sdoValueInRange dt (.finite q) = true) : -2 ^ 63 ≤ q := by
  have low : ((-2 ^ 63 : Int) : Rat) ≤ (integerRange dt).1 := by
    exact_mod_cast (integerRange_sign integer).1
  have bounds := (inRange_bounds integer inRange).1
  push_cast at low
  linarith

/-- What the type can hold is read back from its residue. -/
theorem decodeInteger_residue {dt : EcatDataType} (integer : dt ∈ integerTypes) {v : Int}
    (low : (integerRange dt).1 ≤ v) (high : v ≤ (integerRange dt).2) :
    decodeInteger dt (LittleEndian.bytesOf (ecatDataTypeSize dt) (v % 2 ^ 64).toNat) = v := by
  have sized : ecatDataTypeSize dt ≤ 8 ∧ 0 < ecatDataTypeSize dt := by
    clear low high
    revert dt
    decide
  have modulus : ((256 ^ ecatDataTypeSize dt : Nat) : Int) = 256 ^ ecatDataTypeSize dt := by
    push_cast
    rfl
  have even : (256 : Int) ^ ecatDataTypeSize dt = 2 * (256 ^ ecatDataTypeSize dt / 2) := by
    rw [Int.mul_ediv_cancel' (dvd_pow (by norm_num) (by omega))]
  unfold decodeInteger
  rw [valueOf_lowBytes _ sized.1]
  by_cases signed : dt ∈ signedTypes
  · rw [integerRange_signed signed] at low high
    rw [if_pos signed, ← modulus, Int.emod_bmod]
    dsimp only at low high
    exact Int.bmod_eq_of_le_mul_two (by rw [modulus]; omega) (by rw [modulus]; omega)
  · rw [integerRange_unsigned signed] at low high
    rw [if_neg signed]
    dsimp only at low high
    exact Int.emod_eq_of_lt low (by omega)

/-- Every admitted value is encoded exactly, but for those from 2^63 on. -/
theorem integer_encoded_exactly_iff (host : FloatLayout) (dt : EcatDataType)
    (integer : dt ∈ integerTypes) (q : Rat)
    (inRange : sdoValueInRange dt (.finite q) = true) :
    EncodedExactly host dt q ↔ q < 2 ^ 63 := by
  constructor
  · intro exact
    by_contra large
    have overflow := towardZero_large (not_lt.mp large)
    have defined := exact.castDefined.2
    omega
  · intro below
    obtain ⟨low, high⟩ := inRange_truncation integer inRange below
    refine ⟨towardZero_below (inRange_low integer inRange) below, ?_, ?_⟩
    · rw [encodeSdoValue_integer integer, LittleEndian.length_bytesOf]
    · rw [encodeSdoValue_integer integer, decodeInteger_residue integer low high]

theorem integer_encoded_exactly_iff_int8 :
    sdoValueInRange .int8 (.finite (-11 / 2)) = true ∧
      EncodedExactly zeroFloats .int8 (-11 / 2) := by
  have inRange : sdoValueInRange .int8 (.finite (-11 / 2)) = true := by
    norm_num [sdoValueInRange]
  exact ⟨inRange, (integer_encoded_exactly_iff zeroFloats .int8 (by decide) (-11 / 2) inRange).mpr
    (by norm_num)⟩

/-- The parser admits 2^63 for INT64, and the cast cannot hold it. -/
theorem int64_cast_overflows :
    ¬ ∀ (host : FloatLayout) (dt : EcatDataType), dt ∈ integerTypes → ∀ q : Rat,
      sdoValueInRange dt (.finite q) = true → EncodedExactly host dt q := by
  intro always
  have exact := always zeroFloats .int64 (by decide) (2 ^ 63) (by norm_num [sdoValueInRange])
  have defined := exact.castDefined.2
  have overflow := towardZero_large (q := 2 ^ 63) le_rfl
  omega

end EtherDog
