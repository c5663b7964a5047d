import EtherDog.Config.Json

/-!
# Spellings of an object index

`parse_hex_u32` accepts `0x`, `0X`, `#x` or `#X` and one to eight hex digits.
`hexValue` is the number such a text denotes.  The configuration keeps the text,
and later code reads it again with other functions, so this module says what
`parse_hex_u32` and `strtoul` make of every spelling.
-/

set_option autoImplicit false

namespace EtherDog

open CString

def hexValue (s : Text) : Nat := numeral 16 (s.drop 2)

structure Spelling (s : Text) (lead mark : UInt8) (digits : Text) : Prop where
  text : s = lead :: mark :: digits
  lead : lead = 48 ∨ lead = 35
  mark : isHexMark mark = true
  nonempty : digits ≠ []
  atMostEight : digits.length ≤ 8
  hex : ∀ c ∈ digits, isXDigit c = true

/-! ## Hex digits -/

theorem hexDigit_spec (c : UInt8) (hex : isXDigit c = true) :
    digitValue c = some (hexDigit c).toNat ∧ (hexDigit c).toNat < 16 ∧ digitIn 16 c = true := by
  have all : ∀ n : Fin 256, isXDigit (UInt8.ofNat n) = true →
      digitValue (UInt8.ofNat n) = some (hexDigit (UInt8.ofNat n)).toNat ∧
        (hexDigit (UInt8.ofNat n)).toNat < 16 ∧ digitIn 16 (UInt8.ofNat n) = true := by
    decide +kernel
  have same := all ⟨c.toNat, UInt8.toNat_lt c⟩
  simp only [UInt8.ofNat_toNat] at same
  exact same hex

theorem numeral_from (base start : Nat) (digits : Text) :
    digits.foldl (fun value c => value * base + (digitValue c).getD 0) start =
      start * base ^ digits.length + numeral base digits := by
  unfold numeral
  induction digits generalizing start with
  | nil => simp
  | cons c rest ih =>
      rw [List.foldl_cons, List.foldl_cons, ih, ih (0 * base + _), List.length_cons, pow_succ]
      ring

theorem numeral_cons (base : Nat) (c : UInt8) (rest : Text) :
    numeral base (c :: rest) = (digitValue c).getD 0 * base ^ rest.length + numeral base rest := by
  have split := numeral_from base (0 * base + (digitValue c).getD 0) rest
  rw [numeral, List.foldl_cons, split]
  simp

theorem shiftHex (v d : UInt32) (room : v.toNat < 2 ^ 28) (small : d.toNat < 16) :
    ((v <<< 4) ||| d).toNat = v.toNat * 16 + d.toNat := by
  have shifted : (v <<< 4).toNat = v.toNat <<< 4 := by
    rw [UInt32.toNat_shiftLeft]
    apply Nat.mod_eq_of_lt
    rw [show (4 : UInt32).toNat % 32 = 4 from rfl, Nat.shiftLeft_eq]
    omega
  rw [UInt32.toNat_or, shifted, ← Nat.shiftLeft_add_eq_or_of_lt (by simpa using small),
    Nat.shiftLeft_eq]

/-- The loop reads the digits as one number: eight of them fit 32 bits. -/
theorem hexLoop_eq (v : UInt32) (digits : Text) (hex : ∀ c ∈ digits, isXDigit c = true)
    (short : digits.length ≤ 8) (room : v.toNat < 16 ^ (8 - digits.length)) :
    ∃ w, hexLoop v digits = some w ∧
      w.toNat = v.toNat * 16 ^ digits.length + numeral 16 digits := by
  induction digits generalizing v with
  | nil => exact ⟨v, rfl, by simp [numeral]⟩
  | cons c rest ih =>
      rw [List.length_cons] at short room
      obtain ⟨value, small, _⟩ := hexDigit_spec c (hex c (by simp))
      have grown : 16 ^ (8 - rest.length) = 16 * 16 ^ (8 - (rest.length + 1)) := by
        rw [← pow_succ']
        congr 1
        omega
      have below : 16 ^ (8 - (rest.length + 1)) ≤ 16 ^ 7 :=
        Nat.pow_le_pow_right (by decide) (by omega)
      have step := shiftHex v (hexDigit c) (by omega) small
      obtain ⟨w, done, total⟩ := ih ((v <<< 4) ||| hexDigit c)
        (fun d member => hex d (List.mem_cons_of_mem _ member)) (by omega) (by omega)
      refine ⟨w, by simpa [hexLoop, hex c (by simp)] using done, ?_⟩
      rw [total, step, numeral_cons, value, List.length_cons, pow_succ]
      simp only [Option.getD_some]
      ring

theorem hexLoop_some {v w : UInt32} {digits : Text} (done : hexLoop v digits = some w) :
    ∀ c ∈ digits, isXDigit c = true := by
  induction digits generalizing v with
  | nil => simp
  | cons c rest ih =>
      rw [hexLoop] at done
      split at done
      · rename_i hex
        intro d member
        rcases List.mem_cons.mp member with rfl | later
        · exact hex
        · exact ih done d later
      · simp at done

/-! ## parse_hex_u32 -/

theorem parseHexU32_spelling {s : Text} {v : UInt32} (parsed : parseHexU32 s = some v) :
    ∃ lead mark digits, Spelling s lead mark digits := by
  unfold parseHexU32 at parsed
  split at parsed
  · rename_i lead mark digits
    split at parsed
    · rename_i pre
      split at parsed
      · simp at parsed
      · rename_i length
        simp only [not_or, Nat.not_lt] at length
        refine ⟨lead, mark, digits, rfl, pre.1, pre.2, ?_, length.2, hexLoop_some parsed⟩
        rintro rfl
        exact length.1 rfl
    · simp at parsed
  · simp at parsed

theorem Spelling.parse {s : Text} {lead mark : UInt8} {digits : Text}
    (spelled : Spelling s lead mark digits) :
    ∃ v, parseHexU32 s = some v ∧ v.toNat = hexValue s := by
  obtain ⟨v, done, value⟩ := hexLoop_eq 0 digits spelled.hex spelled.atMostEight (by simp)
  have length : ¬ (digits.length = 0 ∨ 8 < digits.length) := by
    have nonempty := List.length_pos_iff.mpr spelled.nonempty
    have atMostEight := spelled.atMostEight
    omega
  refine ⟨v, ?_, ?_⟩
  · rw [spelled.text, parseHexU32, if_pos ⟨spelled.lead, spelled.mark⟩, if_neg length, done]
  · rw [value, spelled.text, hexValue]
    simp

theorem parseHexU32_value {s : Text} {v : UInt32} (parsed : parseHexU32 s = some v) :
    v.toNat = hexValue s := by
  obtain ⟨lead, mark, digits, spelled⟩ := parseHexU32_spelling parsed
  obtain ⟨w, again, value⟩ := spelled.parse
  rw [parsed] at again
  cases Option.some.inj again
  exact value

/-! ## strtoul on the same texts -/

theorem numeral_lt (digits : Text) (hex : ∀ c ∈ digits, isXDigit c = true) :
    numeral 16 digits < 16 ^ digits.length := by
  induction digits with
  | nil => simp [numeral]
  | cons c rest ih =>
      obtain ⟨value, small, _⟩ := hexDigit_spec c (hex c (by simp))
      have later := ih fun d member => hex d (List.mem_cons_of_mem _ member)
      rw [numeral_cons, value, List.length_cons, pow_succ]
      simp only [Option.getD_some]
      have scaled : (hexDigit c).toNat * 16 ^ rest.length ≤ 15 * 16 ^ rest.length :=
        Nat.mul_le_mul_right _ (by omega)
      omega

/-- Behind `0x` or `0X`, `strtoul` reads the same number to the end. -/
theorem Spelling.strtoul_zero {s : Text} {mark : UInt8} {digits : Text}
    (spelled : Spelling s 48 mark digits) : strtoul 16 s = (hexValue s, []) := by
  have inBase : ∀ c ∈ digits, digitIn 16 c = true := fun c member =>
    (hexDigit_spec c (spelled.hex c member)).2.2
  have prefixed : radix 16 s = (16, digits) := by
    rw [spelled.text]
    cases digits with
    | nil => exact absurd rfl spelled.nonempty
    | cons c rest => simp [radix, spelled.mark, inBase c (by simp)]
  have scanned : scan 16 s = some ⟨false, numeral 16 digits, []⟩ := by
    have unsigned : sign (s.dropWhile isSpace) = (false, s) := by
      rw [spelled.text]
      rfl
    unfold scan
    rw [unsigned]
    dsimp only
    rw [prefixed]
    dsimp only
    rw [List.takeWhile_eq_self_iff.mpr inBase, if_neg spelled.nonempty,
      List.dropWhile_eq_nil_iff.mpr inBase]
  have small : numeral 16 digits ≤ ulongMax := by
    have below := numeral_lt digits spelled.hex
    have short : 16 ^ digits.length ≤ 16 ^ 8 :=
      Nat.pow_le_pow_right (by decide) spelled.atMostEight
    unfold ulongMax
    omega
  rw [strtoul, scanned]
  simp [Nat.not_lt.mpr small, hexValue, spelled.text]

/-- At `#`, `strtoul` finds no digit. -/
theorem Spelling.strtoul_hash {s : Text} {mark : UInt8} {digits : Text}
    (spelled : Spelling s 35 mark digits) : strtoul 16 s = (0, s) := by
  have scanned : scan 16 s = none := by
    rw [spelled.text]
    rfl
  rw [strtoul, scanned]

/-! ## strtoll behind 0x -/

theorem digitIn_hexMark {mark : UInt8} (marked : isHexMark mark = true) :
    digitIn 16 mark = false := by
  have either : mark = 120 ∨ mark = 88 := by simpa [isHexMark] using marked
  rcases either with rfl | rfl <;> rfl

/-- Behind the prefix `strtoll` takes all hex digits, and without one the zero alone. -/
theorem scan_hexMark {mark : UInt8} (marked : isHexMark mark = true) (digits : Text) :
    scan 16 (48 :: mark :: digits) =
      if digits.takeWhile (digitIn 16) = [] then some ⟨false, 0, mark :: digits⟩
      else some ⟨false, numeral 16 (digits.takeWhile (digitIn 16)),
        digits.dropWhile (digitIn 16)⟩ := by
  have alone : digitIn 16 48 = true := rfl
  have unsigned : sign ((48 :: mark :: digits).dropWhile isSpace) =
      (false, 48 :: mark :: digits) := rfl
  unfold scan
  rw [unsigned]
  cases digits with
  | nil => simp [radix, alone, digitIn_hexMark marked, numeral, digitValue, isDigit]
  | cons c rest =>
      by_cases hex : digitIn 16 c = true
      · simp [radix, marked, hex]
      · simp [radix, hex, alone, digitIn_hexMark marked, numeral, digitValue, isDigit]

theorem strtoll_hexMark {mark : UInt8} (marked : isHexMark mark = true) (digits : Text) (v : Int) :
    strtoll 16 (48 :: mark :: digits) = (v, []) ↔
      digits ≠ [] ∧ (∀ c ∈ digits, digitIn 16 c = true) ∧
        v = min (numeral 16 digits : Int) (2 ^ 63 - 1) := by
  rw [strtoll, scan_hexMark marked]
  by_cases none : digits.takeWhile (digitIn 16) = []
  · rw [if_pos none]
    constructor
    · intro read
      simp at read
    · rintro ⟨nonempty, hex, _⟩
      rw [List.takeWhile_eq_self_iff.mpr hex] at none
      exact absurd none nonempty
  · rw [if_neg none]
    simp only [Bool.false_eq_true, if_false, Prod.mk.injEq, List.dropWhile_eq_nil_iff]
    constructor
    · rintro ⟨value, hex⟩
      rw [List.takeWhile_eq_self_iff.mpr hex] at none value
      exact ⟨none, hex, value.symm⟩
    · rintro ⟨_, hex, value⟩
      rw [List.takeWhile_eq_self_iff.mpr hex]
      exact ⟨value.symm, hex⟩

end EtherDog
