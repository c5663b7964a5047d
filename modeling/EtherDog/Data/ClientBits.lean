import EtherDog.Lib.BitImage
import EtherDog.Lib.CString

/-!
# Bit access of the client (tools/etherdog_client.py)

`read_bits` and `write_bits` move a value bit by bit; past the end of the image
they stop with an `IndexError`, and what was written before it stays.  An entry of
the layout is a range of bits in the region of its direction.  `DataSession.get`
looks the direction up, and `DataSession.set` writes to the outputs whatever it is.
-/

set_option autoImplicit false

namespace EtherDog

open BitImage CString

/-- The loop of `read_bits` from its turn `i` on; `none` is an `IndexError`. -/
def readBitsFrom (image : List UInt8) (bitOffset : Nat) : Nat → Nat → Nat → Option Nat
  | _, 0, value => some value
  | i, left + 1, value =>
      match bitAt image (bitOffset + i) with
      | none => none
      | some on =>
          readBitsFrom image bitOffset (i + 1) left (if on then value ||| (1 <<< i) else value)

def readBits (image : List UInt8) (bitOffset bitLength : Nat) : Option Nat :=
  readBitsFrom image bitOffset 0 bitLength 0

/-- The loop of `write_bits`, and whether it reaches its end. -/
def writeBitsFrom (bitOffset : Nat) (value : Int) :
    Nat → Nat → List UInt8 → List UInt8 × Bool
  | _, 0, image => (image, true)
  | i, left + 1, image =>
      match putBit image (bitOffset + i) (intBit value i) with
      | none => (image, false)
      | some next => writeBitsFrom bitOffset value (i + 1) left next

def writeBits (image : List UInt8) (bitOffset bitLength : Nat) (value : Int) : List UInt8 × Bool :=
  writeBitsFrom bitOffset value 0 bitLength image

structure ClientEntry where
  direction : Text
  bitOffset : Nat
  bitLength : Nat
  deriving DecidableEq, Repr

structure DataImages where
  outputs : List UInt8
  inputs : List UInt8
  deriving DecidableEq, Repr

/-- The image that `DataSession.get` reads. -/
def DataImages.region (s : DataImages) (entry : ClientEntry) : List UInt8 :=
  if entry.direction = text "input" then s.inputs else s.outputs

def DataImages.get (s : DataImages) (entry : ClientEntry) : Option Nat :=
  readBits (s.region entry) entry.bitOffset entry.bitLength

def DataImages.set (s : DataImages) (entry : ClientEntry) (value : Int) : DataImages × Bool :=
  let (outputs, done) := writeBits s.outputs entry.bitOffset entry.bitLength value
  ({ s with outputs := outputs }, done)

/-! ## The loops -/

theorem readBitsFrom_congr {first second : List UInt8} {bitOffset i left : Nat} (value : Nat)
    (same : ∀ k < left, bitAt first (bitOffset + i + k) = bitAt second (bitOffset + i + k)) :
    readBitsFrom first bitOffset i left value = readBitsFrom second bitOffset i left value := by
  induction left generalizing i value with
  | zero => rfl
  | succ left ih =>
      have here := same 0 (by omega)
      rw [Nat.add_zero] at here
      rw [readBitsFrom, readBitsFrom, here]
      split
      · rfl
      · apply ih
        intro k below
        have later := same (k + 1) (by omega)
        have shift : bitOffset + (i + 1) + k = bitOffset + i + (k + 1) := by omega
        rwa [shift]

theorem readBits_congr {first second : List UInt8} {bitOffset bitLength : Nat}
    (same : ∀ k < bitLength, bitAt first (bitOffset + k) = bitAt second (bitOffset + k)) :
    readBits first bitOffset bitLength = readBits second bitOffset bitLength :=
  readBitsFrom_congr 0 (by simpa using same)

theorem readBitsFrom_spec {image : List UInt8} {bitOffset i left : Nat} (value : Nat)
    (inside : bitOffset + i + left ≤ 8 * image.length) :
    ∃ n, readBitsFrom image bitOffset i left value = some n ∧
      ∀ j, n.testBit j = (value.testBit j ||
        (decide (i ≤ j ∧ j < i + left) && (bitAt image (bitOffset + j) == some true))) := by
  induction left generalizing i value with
  | zero =>
      refine ⟨value, rfl, ?_⟩
      intro j
      simp
  | succ left ih =>
      have within := (bitAt_isSome_iff image (bitOffset + i)).mpr (by omega)
      obtain ⟨on, here⟩ := Option.isSome_iff_exists.mp within
      obtain ⟨n, read, bits⟩ :=
        @ih (i + 1) (if on then value ||| (1 <<< i) else value) (by omega)
      refine ⟨n, by rw [readBitsFrom, here]; exact read, ?_⟩
      intro j
      rw [bits j]
      by_cases first : j = i
      · subst first
        cases on with
        | false => simp [here]
        | true => simp [here, Nat.testBit_shiftLeft]
      · have old : (if on then value ||| (1 <<< i) else value).testBit j = value.testBit j := by
          split
          · rw [Nat.testBit_or, Nat.one_shiftLeft, Nat.testBit_two_pow_of_ne (Ne.symm first),
              Bool.or_false]
          · rfl
        have turns : (i + 1 ≤ j ∧ j < i + 1 + left) ↔ (i ≤ j ∧ j < i + (left + 1)) := by omega
        rw [old, decide_eq_decide.mpr turns]

theorem readBits_spec {image : List UInt8} {bitOffset bitLength : Nat}
    (inside : bitOffset + bitLength ≤ 8 * image.length) :
    ∃ n, readBits image bitOffset bitLength = some n ∧
      ∀ j, n.testBit j =
        (decide (j < bitLength) && (bitAt image (bitOffset + j) == some true)) := by
  obtain ⟨n, read, bits⟩ := @readBitsFrom_spec image bitOffset 0 bitLength 0 (by omega)
  refine ⟨n, read, ?_⟩
  intro j
  rw [bits j]
  simp

theorem writeBitsFrom_spec (bitOffset : Nat) (value : Int) (i left : Nat) (image : List UInt8) :
    (writeBitsFrom bitOffset value i left image).1.length = image.length ∧
      (bitOffset + i + left ≤ 8 * image.length →
        (writeBitsFrom bitOffset value i left image).2 = true) ∧
      ∀ bit, bitAt (writeBitsFrom bitOffset value i left image).1 bit =
        if bitOffset + i ≤ bit ∧ bit < bitOffset + i + left then
          (bitAt image bit).map fun _ => intBit value (bit - bitOffset)
        else bitAt image bit := by
  induction left generalizing i image with
  | zero =>
      refine ⟨rfl, fun _ => rfl, ?_⟩
      intro bit
      rw [if_neg (by omega)]
      rfl
  | succ left ih =>
      rw [writeBitsFrom]
      cases written : putBit image (bitOffset + i) (intBit value i) with
      | none =>
          have ended := putBit_eq_none_iff.mp written
          refine ⟨rfl, fun inside => absurd inside (by omega), ?_⟩
          intro bit
          by_cases within : bitOffset + i ≤ bit ∧ bit < bitOffset + i + (left + 1)
          · have behind : bitAt image bit = none := by
              rw [← Option.not_isSome_iff_eq_none, bitAt_isSome_iff]
              omega
            rw [if_pos within, behind]
            rfl
          · rw [if_neg within]
      | some next =>
          obtain ⟨length, bits⟩ := putBit_spec written
          obtain ⟨later, done, rest⟩ := ih (i + 1) next
          refine ⟨later.trans length, fun inside => done (by omega), ?_⟩
          intro bit
          dsimp only
          rw [rest bit, bits bit]
          by_cases here : bit = bitOffset + i
          · have first : ∃ on, bitAt image bit = some on := by
              rw [← Option.isSome_iff_exists, bitAt_isSome_iff, here]
              by_contra ended
              have refused : putBit image (bitOffset + i) (intBit value i) = none :=
                putBit_eq_none_iff.mpr (Nat.le_of_not_lt ended)
              rw [written] at refused
              cases refused
            obtain ⟨on, old⟩ := first
            rw [if_neg (by omega), if_pos here, if_pos (by omega), old, Option.map_some, here,
              Nat.add_sub_cancel_left]
          · have turns : (bitOffset + (i + 1) ≤ bit ∧ bit < bitOffset + (i + 1) + left) ↔
                (bitOffset + i ≤ bit ∧ bit < bitOffset + i + (left + 1)) := by omega
            simp only [turns, if_neg here]

/-! ## The lens laws -/

/-- The ranges share no bit. -/
def BitsApart (offset length other otherLength : Nat) : Prop :=
  ∀ bit, offset ≤ bit → bit < offset + length → ¬ (other ≤ bit ∧ bit < other + otherLength)

structure LensLaws (image : List UInt8) : Prop where
  readWritten : ∀ offset length value, offset + length ≤ 8 * image.length →
    ∃ next n, writeBits image offset length value = (next, true) ∧ next.length = image.length ∧
      readBits next offset length = some n ∧ (n : Int) = value % 2 ^ length
  writeRead : ∀ offset length, offset + length ≤ 8 * image.length →
    ∃ n, readBits image offset length = some n ∧
      writeBits image offset length n = (image, true)
  elsewhere : ∀ offset length value other otherLength, offset + length ≤ 8 * image.length →
    other + otherLength ≤ 8 * image.length → BitsApart offset length other otherLength →
      readBits (writeBits image offset length value).1 other otherLength =
        readBits image other otherLength
  commute : ∀ offset length value other otherLength otherValue,
    offset + length ≤ 8 * image.length → other + otherLength ≤ 8 * image.length →
      BitsApart offset length other otherLength →
        writeBits (writeBits image offset length value).1 other otherLength otherValue =
          writeBits (writeBits image other otherLength otherValue).1 offset length value

theorem writeBits_spec (image : List UInt8) (bitOffset bitLength : Nat) (value : Int) :
    (writeBits image bitOffset bitLength value).1.length = image.length ∧
      (bitOffset + bitLength ≤ 8 * image.length →
        (writeBits image bitOffset bitLength value).2 = true) ∧
      ∀ bit, bitAt (writeBits image bitOffset bitLength value).1 bit =
        if bitOffset ≤ bit ∧ bit < bitOffset + bitLength then
          (bitAt image bit).map fun _ => intBit value (bit - bitOffset)
        else bitAt image bit :=
  writeBitsFrom_spec bitOffset value 0 bitLength image

theorem bitAt_within {image : List UInt8} {bit : Nat} (within : bit < 8 * image.length) :
    ∃ on, bitAt image bit = some on :=
  Option.isSome_iff_exists.mp ((bitAt_isSome_iff image bit).mpr within)

theorem readBits_writeBits {image : List UInt8} {offset length : Nat} (value : Int)
    (inside : offset + length ≤ 8 * image.length) :
    readBits (writeBits image offset length value).1 offset length =
      some (value % 2 ^ length).toNat := by
  obtain ⟨same, _, bits⟩ := writeBits_spec image offset length value
  rw [← same] at inside
  obtain ⟨n, read, digits⟩ := readBits_spec inside
  rw [read]
  congr 1
  apply Nat.eq_of_testBit_eq
  intro j
  rw [digits j, testBit_emod, bits]
  by_cases below : j < length
  · obtain ⟨on, old⟩ := @bitAt_within image (offset + j) (by omega)
    rw [if_pos (by omega), old, Option.map_some, Nat.add_sub_cancel_left]
    simp
  · simp [below]

theorem writeBits_readBits {image : List UInt8} {offset length n : Nat}
    (inside : offset + length ≤ 8 * image.length)
    (read : readBits image offset length = some n) :
    writeBits image offset length n = (image, true) := by
  obtain ⟨_, done, bits⟩ := writeBits_spec image offset length n
  obtain ⟨m, same, digits⟩ := readBits_spec inside
  rw [read] at same
  cases Option.some.inj same
  refine Prod.ext (eq_of_bitAt fun bit => ?_) (done inside)
  rw [bits bit]
  split
  · rename_i within
    obtain ⟨on, old⟩ := @bitAt_within image bit (by omega)
    have position : offset + (bit - offset) = bit := by omega
    have digit := digits (bit - offset)
    rw [position, old] at digit
    rw [old, Option.map_some, intBit_natCast, digit, decide_eq_true (by omega)]
    simp
  · rfl

theorem readBits_elsewhere {image : List UInt8} {offset length other otherLength : Nat}
    (value : Int) (apart : BitsApart offset length other otherLength) :
    readBits (writeBits image offset length value).1 other otherLength =
      readBits image other otherLength := by
  obtain ⟨_, _, bits⟩ := writeBits_spec image offset length value
  apply readBits_congr
  intro k below
  rw [bits (other + k)]
  apply if_neg
  rintro ⟨low, high⟩
  exact apart (other + k) low high ⟨by omega, by omega⟩

theorem writeBits_commute {image : List UInt8} {offset length other otherLength : Nat}
    (value otherValue : Int) (inside : offset + length ≤ 8 * image.length)
    (otherInside : other + otherLength ≤ 8 * image.length)
    (apart : BitsApart offset length other otherLength) :
    writeBits (writeBits image offset length value).1 other otherLength otherValue =
      writeBits (writeBits image other otherLength otherValue).1 offset length value := by
  obtain ⟨first, _, firstBits⟩ := writeBits_spec image offset length value
  obtain ⟨second, _, secondBits⟩ := writeBits_spec image other otherLength otherValue
  obtain ⟨_, leftDone, leftBits⟩ :=
    writeBits_spec (writeBits image offset length value).1 other otherLength otherValue
  obtain ⟨_, rightDone, rightBits⟩ :=
    writeBits_spec (writeBits image other otherLength otherValue).1 offset length value
  refine Prod.ext (eq_of_bitAt fun bit => ?_) ?_
  · rw [leftBits, rightBits, firstBits, secondBits]
    by_cases inFirst : offset ≤ bit ∧ bit < offset + length
    · have notSecond := apart bit inFirst.1 inFirst.2
      rw [if_neg notSecond, if_pos inFirst, if_pos inFirst, if_neg notSecond]
    · rw [if_neg inFirst, if_neg inFirst]
  · rw [leftDone (by omega), rightDone (by omega)]

theorem lensLaws (image : List UInt8) : LensLaws image where
  readWritten := by
    intro offset length value inside
    obtain ⟨same, done, _⟩ := writeBits_spec image offset length value
    refine ⟨_, _, Prod.ext rfl (done inside), same, readBits_writeBits value inside, ?_⟩
    exact Int.toNat_of_nonneg (Int.emod_nonneg _ (by positivity))
  writeRead := by
    intro offset length inside
    obtain ⟨n, read, _⟩ := readBits_spec inside
    exact ⟨n, read, writeBits_readBits inside read⟩
  elsewhere := by
    intro offset length value other otherLength _ _ apart
    exact readBits_elsewhere value apart
  commute := by
    intro offset length value other otherLength otherValue inside otherInside apart
    exact writeBits_commute value otherValue inside otherInside apart

/-! ## The entries of a layout -/

def ClientEntry.isInput (entry : ClientEntry) : Bool := decide (entry.direction = text "input")

def EntriesApart (e f : ClientEntry) : Prop :=
  BitsApart e.bitOffset e.bitLength f.bitOffset f.bitLength

/-- Every entry lies in the region of its direction, and no two of one direction
share a bit. -/
structure NonOverlapping (s : DataImages) (entries : List ClientEntry) : Prop where
  inside : ∀ e ∈ entries, e.bitOffset + e.bitLength ≤ 8 * (s.region e).length
  apart : entries.Pairwise fun e f => e.isInput = f.isInput → EntriesApart e f

/-- No value set on one entry shows in another. -/
def SetsUndisturbing (s : DataImages) (entries : List ClientEntry) : Prop :=
  ∀ (i j : Nat) (e f : ClientEntry), i ≠ j → entries[i]? = some e → entries[j]? = some f →
    ∀ value, (s.set e value).1.get f = s.get f

theorem EntriesApart.symm {e f : ClientEntry} (apart : EntriesApart e f) : EntriesApart f e :=
  fun bit low high within => apart bit within.1 within.2 ⟨low, high⟩

theorem NonOverlapping.entriesApart {s : DataImages} {entries : List ClientEntry}
    (layout : NonOverlapping s entries) {i j : Nat} {e f : ClientEntry} (distinct : i ≠ j)
    (atI : entries[i]? = some e) (atJ : entries[j]? = some f) (same : e.isInput = f.isInput) :
    EntriesApart e f := by
  obtain ⟨belowI, rfl⟩ := List.getElem?_eq_some_iff.mp atI
  obtain ⟨belowJ, rfl⟩ := List.getElem?_eq_some_iff.mp atJ
  have pairs := List.pairwise_iff_getElem.mp layout.apart
  rcases Nat.lt_or_gt_of_ne distinct with before | after
  · exact pairs i j belowI belowJ before same
  · exact (pairs j i belowJ belowI after same.symm).symm

theorem DataImages.region_eq (s : DataImages) (entry : ClientEntry) :
    s.region entry = if entry.isInput then s.inputs else s.outputs := by
  simp [DataImages.region, ClientEntry.isInput]

theorem DataImages.get_set_input (s : DataImages) (e : ClientEntry) {f : ClientEntry} (value : Int)
    (input : f.isInput = true) : (s.set e value).1.get f = s.get f := by
  rw [DataImages.get, DataImages.get, DataImages.region_eq, DataImages.region_eq, if_pos input,
    if_pos input]
  rfl

theorem DataImages.get_set_output (s : DataImages) (e : ClientEntry) {f : ClientEntry}
    (value : Int) (output : f.isInput = false) :
    (s.set e value).1.get f =
      readBits (writeBits s.outputs e.bitOffset e.bitLength value).1 f.bitOffset f.bitLength ∧
      s.get f = readBits s.outputs f.bitOffset f.bitLength := by
  rw [DataImages.get, DataImages.get, DataImages.region_eq, DataImages.region_eq, output]
  exact ⟨rfl, rfl⟩

/-- Some value shows in every range that shares a bit with the written one. -/
theorem readBits_disturbed {image : List UInt8} {offset length other otherLength bit : Nat}
    (otherInside : other + otherLength ≤ 8 * image.length)
    (inFirst : offset ≤ bit ∧ bit < offset + length)
    (inOther : other ≤ bit ∧ bit < other + otherLength) :
    ∃ value, readBits (writeBits image offset length value).1 other otherLength ≠
      readBits image other otherLength := by
  obtain ⟨on, old⟩ := @bitAt_within image bit (by omega)
  -- a value with the other bit there
  let n : Nat := if on then 0 else 2 ^ (bit - offset)
  have flipped : n.testBit (bit - offset) = !on := by
    cases on with
    | false => exact Nat.testBit_two_pow_self
    | true => exact Nat.zero_testBit _
  refine ⟨(n : Int), fun same => ?_⟩
  obtain ⟨size, _, bits⟩ := writeBits_spec image offset length n
  obtain ⟨before, read, digits⟩ := readBits_spec otherInside
  rw [← size] at otherInside
  obtain ⟨after, again, newDigits⟩ := readBits_spec otherInside
  rw [read, again] at same
  have agree := congrArg (fun m => m.testBit (bit - other)) (Option.some.inj same)
  have position : other + (bit - other) = bit := by omega
  simp only [digits, newDigits, position, bits, if_pos inFirst, old, Option.map_some,
    intBit_natCast, flipped] at agree
  rw [decide_eq_true (by omega)] at agree
  cases on with
  | false => cases agree
  | true => cases agree

/-- The lens laws hold on every image.  Setting an entry disturbs no other one exactly
where no input entry, which `set` writes to the outputs as well, lies over an
output entry. -/
theorem client_bits_lens_iff (s : DataImages) (entries : List ClientEntry)
    (layout : NonOverlapping s entries) :
    (∀ image, LensLaws image) ∧
      (SetsUndisturbing s entries ↔
        ∀ e ∈ entries, ∀ f ∈ entries, e.isInput = true → f.isInput = false →
          EntriesApart e f) := by
  refine ⟨lensLaws, ?_, ?_⟩
  · intro undisturbed e listed f among input output bit low high inOther
    obtain ⟨i, atI⟩ := List.mem_iff_getElem?.mp listed
    obtain ⟨j, atJ⟩ := List.mem_iff_getElem?.mp among
    have distinct : i ≠ j := by
      rintro rfl
      rw [atI] at atJ
      cases atJ
      rw [input] at output
      cases output
    have inside := layout.inside f among
    rw [DataImages.region_eq, output] at inside
    obtain ⟨value, shows⟩ := readBits_disturbed inside ⟨low, high⟩ inOther
    obtain ⟨after, before⟩ := s.get_set_output e value output
    have same := undisturbed i j e f distinct atI atJ value
    rw [after, before] at same
    exact shows same
  · intro clear i j e f distinct atI atJ value
    cases target : f.isInput with
    | true => exact s.get_set_input e value target
    | false =>
        obtain ⟨after, before⟩ := s.get_set_output e value target
        rw [after, before]
        apply readBits_elsewhere
        cases source : e.isInput with
        | true =>
            exact clear e (List.mem_of_getElem? atI) f (List.mem_of_getElem? atJ) source target
        | false => exact layout.entriesApart distinct atI atJ (by rw [source, target])

theorem client_bits_lens_iff_separate :
    SetsUndisturbing ⟨[0, 0, 0], [0, 0, 0, 0, 0]⟩
      [⟨text "output", 3, 1⟩, ⟨text "output", 5, 16⟩, ⟨text "input", 24, 16⟩] := by
  have directions : text "output" ≠ text "input" := by decide
  have layout : NonOverlapping ⟨[0, 0, 0], [0, 0, 0, 0, 0]⟩
      [⟨text "output", 3, 1⟩, ⟨text "output", 5, 16⟩, ⟨text "input", 24, 16⟩] := by
    constructor
    · simp [DataImages.region, directions]
    · simp only [List.pairwise_cons, List.mem_cons, List.not_mem_nil, or_false, forall_eq_or_imp,
        forall_eq, EntriesApart, BitsApart, ClientEntry.isInput]
      simp [directions]
      omega
  refine (client_bits_lens_iff _ _ layout).2.mpr ?_
  simp only [List.mem_cons, List.not_mem_nil, or_false, forall_eq_or_imp, forall_eq,
    ClientEntry.isInput, EntriesApart, BitsApart]
  simp [directions]
  constructor
  · omega
  · omega

/-- An input byte lies over an output byte, as in the layout of any bus with both:
setting the input entry changes the output. -/
theorem input_entry_set_changes_output :
    ¬ ∀ s entries, NonOverlapping s entries → SetsUndisturbing s entries := by
  intro always
  have directions : text "output" ≠ text "input" := by decide
  have layout : NonOverlapping ⟨[0], [0]⟩ [⟨text "output", 0, 8⟩, ⟨text "input", 0, 8⟩] := by
    constructor
    · simp [DataImages.region]
    · simp [ClientEntry.isInput, directions]
  have same := always _ _ layout 1 0 ⟨text "input", 0, 8⟩ ⟨text "output", 0, 8⟩ (by decide) rfl rfl 1
  revert same
  decide

end EtherDog
