import EtherDog.Config.Complete
import EtherDog.Config.Index

/-!
# The index of a PDO and of its entries (src/config.c)

`parse_pdo` and `parse_pdo_entry` copy the index into a field of twelve bytes and
judge the copy.  The cut never changes what `parse_hex_u32` says of the text it is
given.  That text ends at the first NUL of the JSON string, and what stands behind
the NUL is never judged.
-/

set_option autoImplicit false

namespace EtherDog

open CString Checked

/-- The whole text is a prefix and one to eight hex digits, for a 16-bit number. -/
def IndexText (s : Text) : Prop :=
  (∃ lead mark digits, Spelling s lead mark digits) ∧ hexValue s ≤ 0xFFFF

/-! ## The copy -/

theorem parseHexU32_eq_some_iff {s : Text} {v : UInt32} :
    parseHexU32 s = some v ↔
      (∃ lead mark digits, Spelling s lead mark digits) ∧ v.toNat = hexValue s := by
  constructor
  · intro parsed
    exact ⟨parseHexU32_spelling parsed, parseHexU32_value parsed⟩
  · rintro ⟨⟨lead, mark, digits, spelled⟩, value⟩
    obtain ⟨w, parsed, same⟩ := spelled.parse
    rw [parsed, UInt32.toNat_inj.mp (value.trans same.symm)]

/-- A text that the field cuts has too many digits before and after. -/
theorem parseHexU32_safeStrcpy (s : Text) :
    parseHexU32 (safeStrcpy s indexFieldSize) = parseHexU32 s := by
  cases s with
  | nil => rfl
  | cons lead behind =>
      cases behind with
      | nil => rfl
      | cons mark digits =>
          by_cases short : digits.length ≤ 9
          · rw [safeStrcpy, List.take_of_length_le (by simp [indexFieldSize]; omega)]
          · have cut : (digits.take 9).length = 9 := by
              rw [List.length_take]
              omega
            have copy : safeStrcpy (lead :: mark :: digits) indexFieldSize =
                lead :: mark :: digits.take 9 := rfl
            rw [copy, parseHexU32, parseHexU32, if_pos (Or.inr (by omega)),
              if_pos (Or.inr (by omega))]

theorem any_parseHexU32_iff {s : Text} {p : UInt32 → Bool} {q : Nat → Prop}
    (same : ∀ v, p v = true ↔ q v.toNat) :
    (parseHexU32 (safeStrcpy s indexFieldSize)).any p = true ↔
      (∃ lead mark digits, Spelling s lead mark digits) ∧ q (hexValue s) := by
  rw [parseHexU32_safeStrcpy, Option.any_eq_true]
  constructor
  · rintro ⟨v, parsed, holds⟩
    rw [parseHexU32_eq_some_iff] at parsed
    rw [same, parsed.2] at holds
    exact ⟨parsed.1, holds⟩
  · rintro ⟨⟨lead, mark, digits, spelled⟩, holds⟩
    obtain ⟨v, parsed, value⟩ := spelled.parse
    rw [← value, ← same] at holds
    exact ⟨v, parsed, holds⟩

theorem indexText_any {s : Text} :
    (parseHexU32 (safeStrcpy s indexFieldSize)).any (· ≤ 0xFFFF) = true ↔ IndexText s := by
  apply any_parseHexU32_iff (q := fun n => n ≤ 0xFFFF)
  intro v
  rw [decide_eq_true_eq, UInt32.le_iff_toNat_le]
  rfl

theorem indexText_any_nonzero {s : Text} :
    (parseHexU32 (safeStrcpy s indexFieldSize)).any (fun v => v ≠ 0 ∧ v ≤ 0xFFFF) = true ↔
      IndexText s ∧ hexValue s ≠ 0 := by
  have split := @any_parseHexU32_iff s (fun v => decide (v ≠ 0 ∧ v ≤ 0xFFFF))
    (fun n => n ≤ 0xFFFF ∧ n ≠ 0) (by
      intro v
      rw [decide_eq_true_eq, UInt32.le_iff_toNat_le, Ne, ← UInt32.toNat_inj]
      exact and_comm)
  rw [split, IndexText, and_assoc]

/-! ## The parsers -/

section Given
variable {json : Json} {buffer : List UInt8} (given : json.item? "index" = some (.string buffer))
include given

theorem getString_index : getString json "index" "0x0000" = cstr buffer := by
  rw [getString, getString?, given]
  rfl

theorem parsePdoEntry_accepts_iff :
    (∃ entry, parsePdoEntry json = .ok entry) ↔ IndexText (cstr buffer) := by
  rw [← indexText_any]
  unfold parsePdoEntry
  rw [getString_index given]
  constructor
  · rintro ⟨entry, parsed⟩
    obtain ⟨_, checked, _⟩ := bind_eq_ok.mp parsed
    exact require_eq_ok.mp checked
  · intro fits
    exact ⟨_, bind_eq_ok.mpr ⟨(), require_eq_ok.mpr fits, rfl⟩⟩

theorem parsePdo_accepts_iff (alloc : Alloc) :
    (∃ pdo, parsePdo alloc json = .ok pdo) ↔
      (IndexText (cstr buffer) ∧ hexValue (cstr buffer) ≠ 0) ∧
        ∃ entries, parseArray alloc (json.items "entries") (fun _ => parsePdoEntry) =
          .ok entries := by
  rw [← indexText_any_nonzero]
  unfold parsePdo
  rw [getString_index given]
  constructor
  · rintro ⟨pdo, parsed⟩
    obtain ⟨_, checked, parsed⟩ := bind_eq_ok.mp parsed
    obtain ⟨entries, filled, _⟩ := bind_eq_ok.mp parsed
    exact ⟨require_eq_ok.mp checked, entries, filled⟩
  · rintro ⟨fits, entries, filled⟩
    exact ⟨_, bind_eq_ok.mpr ⟨(), require_eq_ok.mpr fits, bind_eq_ok.mpr ⟨entries, filled, rfl⟩⟩⟩

end Given

/-! ## The string in the document -/

/-- Both parsers decide by the whole string, and keep what it denotes. -/
structure JudgedWhole (buffer : List UInt8) : Prop where
  entry : ∀ json, json.item? "index" = some (.string buffer) →
    ((∃ entry, parsePdoEntry json = .ok entry) ↔ IndexText buffer)
  entryValue : ∀ json entry, json.item? "index" = some (.string buffer) →
    parsePdoEntry json = .ok entry → hexValue entry.index = hexValue buffer
  pdo : ∀ alloc json, json.item? "index" = some (.string buffer) →
    ((∃ pdo, parsePdo alloc json = .ok pdo) ↔
      (IndexText buffer ∧ hexValue buffer ≠ 0) ∧
        ∃ entries, parseArray alloc (json.items "entries") (fun _ => parsePdoEntry) = .ok entries)
  pdoValue : ∀ alloc json pdo, json.item? "index" = some (.string buffer) →
    parsePdo alloc json = .ok pdo → hexValue pdo.index = hexValue buffer

theorem Spelling.nonzero {s : Text} {lead mark : UInt8} {digits : Text}
    (spelled : Spelling s lead mark digits) : 0 ∉ s := by
  intro zero
  rw [spelled.text, List.mem_cons, List.mem_cons] at zero
  rcases zero with first | second | later
  · rcases spelled.lead with zeroChar | hash
    · exact absurd (first.trans zeroChar) (by decide)
    · exact absurd (first.trans hash) (by decide)
  · have marked := spelled.mark
    rw [← second] at marked
    exact absurd marked (by decide)
  · exact absurd (spelled.hex 0 later) (by decide)

theorem IndexText.cstr_eq {buffer : List UInt8} (whole : IndexText buffer) :
    cstr buffer = buffer := by
  obtain ⟨⟨_, _, _, spelled⟩, _⟩ := whole
  exact cstr_free spelled.nonzero

/-- What is accepted fits the field. -/
theorem IndexText.safeStrcpy_eq {s : Text} (whole : IndexText s) :
    safeStrcpy s indexFieldSize = s := by
  obtain ⟨⟨_, _, digits, spelled⟩, _⟩ := whole
  have short := spelled.atMostEight
  rw [safeStrcpy]
  apply List.take_of_length_le
  rw [spelled.text]
  simp [indexFieldSize]
  omega

theorem parsePdoEntry_index_eq {json : Json} {buffer : List UInt8} {entry : EcatPdoEntry}
    (given : json.item? "index" = some (.string buffer)) (parsed : parsePdoEntry json = .ok entry) :
    entry.index = cstr buffer := by
  have whole := (parsePdoEntry_accepts_iff given).mp ⟨entry, parsed⟩
  unfold parsePdoEntry at parsed
  obtain ⟨_, _, parsed⟩ := bind_eq_ok.mp parsed
  cases parsed
  rw [getString_index given]
  exact whole.safeStrcpy_eq

theorem parsePdo_index_eq {alloc : Alloc} {json : Json} {buffer : List UInt8} {pdo : EcatPdo}
    (given : json.item? "index" = some (.string buffer)) (parsed : parsePdo alloc json = .ok pdo) :
    pdo.index = cstr buffer := by
  have whole := ((parsePdo_accepts_iff given alloc).mp ⟨pdo, parsed⟩).1.1
  rw [(parsePdo_ok parsed).index, getString_index given]
  exact whole.safeStrcpy_eq

def bareIndex (buffer : List UInt8) : Json := .object [(text "index", .string buffer)]

theorem bareIndex_item (buffer : List UInt8) :
    (bareIndex buffer).item? "index" = some (.string buffer) := rfl

/-- The cut never changes the verdict on the C string; the verdict is one on the
whole string unless a NUL hides the end of it behind an acceptable index. -/
theorem index_judged_whole_iff (buffer : List UInt8) :
    parseHexU32 (safeStrcpy (cstr buffer) indexFieldSize) = parseHexU32 (cstr buffer) ∧
    (∀ v, parseHexU32 (cstr buffer) = some v ↔
      (∃ lead mark digits, Spelling (cstr buffer) lead mark digits) ∧
        v.toNat = hexValue (cstr buffer)) ∧
    (JudgedWhole buffer ↔ 0 ∉ buffer ∨ ¬ IndexText (cstr buffer)) := by
  refine ⟨parseHexU32_safeStrcpy _, fun v => parseHexU32_eq_some_iff, ?_, ?_⟩
  · intro judged
    by_contra neither
    obtain ⟨zero, acceptable⟩ := not_or.mp neither
    rw [not_not] at zero acceptable
    have accepted := (parsePdoEntry_accepts_iff (bareIndex_item buffer)).mpr acceptable
    obtain ⟨⟨_, _, _, spelled⟩, _⟩ := (judged.entry _ (bareIndex_item buffer)).mp accepted
    exact spelled.nonzero zero
  · intro harmless
    -- either way the string and its C string are acceptable together
    have together : IndexText (cstr buffer) ↔ IndexText buffer := by
      constructor
      · intro acceptable
        rcases harmless with free | never
        · rwa [cstr_free free] at acceptable
        · exact absurd acceptable never
      · intro whole
        rwa [whole.cstr_eq]
    have kept : IndexText (cstr buffer) → cstr buffer = buffer :=
      fun acceptable => (together.mp acceptable).cstr_eq
    constructor
    · intro json given
      rw [parsePdoEntry_accepts_iff given, together]
    · intro json entry given parsed
      rw [parsePdoEntry_index_eq given parsed,
        kept ((parsePdoEntry_accepts_iff given).mp ⟨entry, parsed⟩)]
    · intro alloc json given
      rw [parsePdo_accepts_iff given]
      constructor
      · rintro ⟨⟨acceptable, nonzero⟩, filled⟩
        have same := kept acceptable
        rw [same] at acceptable nonzero
        exact ⟨⟨acceptable, nonzero⟩, filled⟩
      · rintro ⟨⟨whole, nonzero⟩, filled⟩
        rw [whole.cstr_eq]
        exact ⟨⟨whole, nonzero⟩, filled⟩
    · intro alloc json pdo given parsed
      rw [parsePdo_index_eq given parsed,
        kept ((parsePdo_accepts_iff given alloc).mp ⟨pdo, parsed⟩).1.1]

/-- The index `0x1A00` with a NUL and other text behind it is accepted. -/
theorem index_behind_nul_ignored : ¬ ∀ buffer, JudgedWhole buffer := by
  intro always
  have judged := always (text "0x1A00" ++ 0 :: text "junk")
  have accepted : ∃ entry,
      parsePdoEntry (bareIndex (text "0x1A00" ++ 0 :: text "junk")) = .ok entry := by
    rw [parsePdoEntry_accepts_iff (bareIndex_item _), ← indexText_any]
    decide
  obtain ⟨⟨_, _, _, spelled⟩, _⟩ := (judged.entry _ (bareIndex_item _)).mp accepted
  exact spelled.nonzero (by decide)

end EtherDog
