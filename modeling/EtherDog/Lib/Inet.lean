import EtherDog.Lib.Framing
import EtherDog.Lib.KeyFile
import EtherDog.Lib.Strtod

/-!
# Addresses in text

`inetPton` reads an IPv4 address in dotted decimal as the C library does, without
leading zeros, and reads what `dotted` writes and nothing else.  `cutAtLast` cuts
a text at its last separator, as a caller of `strrchr` does, and `strtoll_whole_iff`
says which texts `strtoll` takes as a whole.
-/

set_option autoImplicit false

namespace Inet

open CString Framing

structure Address where
  a : UInt8
  b : UInt8
  c : UInt8
  d : UInt8
  deriving DecidableEq, Repr

def Address.toUInt32 (address : Address) : UInt32 :=
  .ofNat (((address.a.toNat * 256 + address.b.toNat) * 256 + address.c.toNat) * 256 +
    address.d.toNat)

def Address.dotted (address : Address) : Text :=
  digitsOf 10 address.a.toNat ++ 46 :: (digitsOf 10 address.b.toNat ++
    46 :: (digitsOf 10 address.c.toNat ++ 46 :: digitsOf 10 address.d.toNat))

def octet? (field : Text) : Option UInt8 :=
  if IsDecimal field ∧ numeral 10 field < 256 then some (.ofNat (numeral 10 field)) else none

def inetPton (s : Text) : Option Address :=
  match segments 46 s with
  | ([w, x, y], z) =>
      match octet? w, octet? x, octet? y, octet? z with
      | some a, some b, some c, some d => some ⟨a, b, c, d⟩
      | _, _, _, _ => none
  | _ => none

/-! ## Decimal fields -/

/-- Only zeros denote zero. -/
theorem head_of_numeral_zero {s : Text} (digits : ∀ c ∈ s, isDigit c = true)
    (zero : numeral 10 s = 0) : ∀ c ∈ s, c = 48 := by
  induction s using List.reverseRecOn with
  | nil => simp
  | append_singleton front c ih =>
      have digit := digitValue_digit (digits c (by simp))
      rw [numeral_snoc, digit.1, Option.getD_some] at zero
      intro d member
      rcases List.mem_append.mp member with early | last
      · exact ih (fun e among => digits e (List.mem_append_left _ among)) (by omega) d early
      · rw [List.mem_singleton.mp last]
        apply UInt8.toNat_inj.mp
        change c.toNat = 48
        omega

theorem isDecimal_front {front : Text} {c : UInt8} (decimal : IsDecimal (front ++ [c]))
    (nonempty : front ≠ []) : IsDecimal front ∧ numeral 10 front ≠ 0 := by
  obtain ⟨_, digits, canonical⟩ := decimal
  have frontDigits : ∀ d ∈ front, isDigit d = true :=
    fun d member => digits d (List.mem_append_left _ member)
  obtain ⟨d, rest, rfl⟩ := List.exists_cons_of_ne_nil nonempty
  have leading : d ≠ 48 := by
    rintro rfl
    have one := canonical rfl
    simp at one
  refine ⟨⟨nonempty, frontDigits, ?_⟩, ?_⟩
  · intro zero
    exact absurd (Option.some.inj zero) leading
  · intro zero
    exact leading (head_of_numeral_zero frontDigits zero d List.mem_cons_self)

theorem isDecimal_unique {s t : Text} (first : IsDecimal s) (second : IsDecimal t)
    (same : numeral 10 s = numeral 10 t) : s = t := by
  induction s using List.reverseRecOn generalizing t with
  | nil => exact absurd rfl first.1
  | append_singleton front c ih =>
      have back := List.dropLast_append_getLast second.1
      rw [← back] at second same ⊢
      generalize t.dropLast = other at second same
      generalize t.getLast _ = d at second same
      have here := digitValue_digit (first.2.1 c (by simp))
      have there := digitValue_digit (second.2.1 d (by simp))
      rw [numeral_snoc, numeral_snoc, here.1, there.1, Option.getD_some, Option.getD_some] at same
      have last : c = d := UInt8.toNat_inj.mp (by omega)
      subst last
      have before : numeral 10 front = numeral 10 other := by omega
      rcases eq_or_ne front [] with rfl | more
      · rcases eq_or_ne other [] with rfl | longer
        · rfl
        · exact absurd before.symm (isDecimal_front second longer).2
      · rcases eq_or_ne other [] with rfl | longer
        · exact absurd before (isDecimal_front first more).2
        · rw [ih (isDecimal_front first more).1 (isDecimal_front second longer).1 before]

theorem octet?_iff (field : Text) (b : UInt8) :
    octet? field = some b ↔ field = digitsOf 10 b.toNat := by
  unfold octet?
  constructor
  · intro found
    split at found
    · rename_i fits
      obtain ⟨decimal, small⟩ := fits
      have value : (UInt8.ofNat (numeral 10 field)).toNat = numeral 10 field :=
        UInt8.toNat_ofNat_of_lt' small
      rw [← Option.some.inj found, value]
      refine isDecimal_unique decimal ?_ (numeral_digitsOf _).symm
      have listed := isDecimal_digitsOf (UInt8.ofNat (numeral 10 field)).toNat
      rwa [value] at listed
    · contradiction
  · rintro rfl
    rw [numeral_digitsOf, if_pos ⟨isDecimal_digitsOf b.toNat, b.toNat_lt⟩, UInt8.ofNat_toNat]

theorem dot_free (b : UInt8) : (46 : UInt8) ∉ digitsOf 10 b.toNat := by
  intro member
  exact absurd ((isDecimal_digitsOf b.toNat).2.1 46 member) (by decide)

/-- What is read is what is written, and nothing else is read. -/
theorem inetPton_iff (s : Text) (address : Address) :
    inetPton s = some address ↔ s = address.dotted := by
  unfold inetPton
  constructor
  · intro found
    split at found
    · rename_i w x y z cut
      split at found
      · rename_i a b c d first second third fourth
        rw [octet?_iff] at first second third fourth
        rw [← segments_join 46 s, cut, ← Option.some.inj found, first, second, third, fourth]
        simp [Address.dotted]
      · contradiction
    · contradiction
  · rintro rfl
    have cut : segments 46 address.dotted =
        ([digitsOf 10 address.a.toNat, digitsOf 10 address.b.toNat,
          digitsOf 10 address.c.toNat], digitsOf 10 address.d.toNat) := by
      rw [Address.dotted, segments_closed 46 (dot_free _), segments_closed 46 (dot_free _),
        segments_closed 46 (dot_free _), segments_free 46 (dot_free _)]
    rw [cut]
    simp only [(octet?_iff _ _).mpr rfl]

theorem length_dotted (address : Address) : address.dotted.length ≤ 15 := by
  have all : ∀ n < 256, (digitsOf 10 n).length ≤ 3 := by decide +kernel
  have a := all _ address.a.toNat_lt
  have b := all _ address.b.toNat_lt
  have c := all _ address.c.toNat_lt
  have d := all _ address.d.toNat_lt
  simp only [Address.dotted, List.length_append, List.length_cons]
  omega

theorem toUInt32_shift (address : Address) : address.toUInt32 >>> 24 = address.a.toUInt32 := by
  have a := address.a.toNat_lt
  have b := address.b.toNat_lt
  have c := address.c.toNat_lt
  have d := address.d.toNat_lt
  apply UInt32.toNat_inj.mp
  rw [UInt32.toNat_shiftRight, Address.toUInt32, UInt32.toNat_ofNat', UInt8.toNat_toUInt32]
  rw [Nat.mod_eq_of_lt (by omega)]
  change _ >>> 24 = _
  rw [Nat.shiftRight_eq_div_pow]
  omega

/-! ## The last separator -/

/-- What stands before the last separator, and behind it. -/
def cutAtLast (sep : UInt8) : Text → Option (Text × Text)
  | [] => none
  | c :: rest =>
      match cutAtLast sep rest with
      | some (front, behind) => some (c :: front, behind)
      | none => if c = sep then some ([], rest) else none

theorem cutAtLast_free {sep : UInt8} {s : Text} (free : sep ∉ s) : cutAtLast sep s = none := by
  induction s with
  | nil => rfl
  | cons c rest ih =>
      obtain ⟨other, later⟩ := not_or.mp (mt List.mem_cons.mpr free)
      rw [cutAtLast, ih later]
      exact if_neg (Ne.symm other)

theorem cutAtLast_ne_none {sep : UInt8} {s : Text} (member : sep ∈ s) :
    cutAtLast sep s ≠ none := by
  induction s with
  | nil => contradiction
  | cons c rest ih =>
      rw [cutAtLast]
      cases later : cutAtLast sep rest with
      | some cut => simp
      | none =>
          rcases List.mem_cons.mp member with rfl | beyond
          · simp
          · exact absurd later (ih beyond)

theorem cutAtLast_iff (sep : UInt8) (s front behind : Text) :
    cutAtLast sep s = some (front, behind) ↔ s = front ++ sep :: behind ∧ sep ∉ behind := by
  constructor
  · intro found
    induction s generalizing front with
    | nil => contradiction
    | cons c rest ih =>
        rw [cutAtLast] at found
        cases later : cutAtLast sep rest with
        | some cut =>
            obtain ⟨before, after⟩ := cut
            rw [later] at found
            cases Option.some.inj found
            obtain ⟨joined, free⟩ := ih before later
            exact ⟨by rw [joined]; rfl, free⟩
        | none =>
            rw [later] at found
            dsimp only at found
            split at found
            · rename_i here
              cases Option.some.inj found
              refine ⟨by rw [here]; rfl, fun member => ?_⟩
              -- a separator further on would have been the last one
              exact cutAtLast_ne_none member later
            · contradiction
  · rintro ⟨rfl, free⟩
    induction front with
    | nil => rw [List.nil_append, cutAtLast, cutAtLast_free free, if_pos rfl]
    | cons c rest ih => rw [List.cons_append, cutAtLast, ih]

/-! ## Whole decimal numbers -/

/-- A sign and the number of the digits behind it. -/
inductive Signed : Text → Bool → Text → Prop where
  | plain (digits : Text) : Signed digits false digits
  | plus (digits : Text) : Signed (43 :: digits) false digits
  | minus (digits : Text) : Signed (45 :: digits) true digits

/-- Blanks, a sign and digits, which denote the number. -/
inductive WholeNumber : Text → Int → Prop where
  | mk {blanks body digits : Text} {negative : Bool} (blank : ∀ c ∈ blanks, isSpace c = true)
      (signed : Signed body negative digits) (decimal : ∀ c ∈ digits, isDigit c = true)
      (nonempty : digits ≠ []) :
      WholeNumber (blanks ++ body)
        (if negative then -(numeral 10 digits : Int) else numeral 10 digits)

theorem sign_sound (body : Text) : Signed body (sign body).1 (sign body).2 := by
  unfold sign
  split
  · exact .minus _
  · exact .plus _
  · exact .plain _

theorem Signed.sign_eq {body digits : Text} {negative : Bool} (signed : Signed body negative digits)
    (decimal : ∀ c ∈ digits, isDigit c = true) (nonempty : digits ≠ []) :
    sign (body.dropWhile isSpace) = (negative, digits) := by
  cases signed with
  | plain => exact KeyFile.sign_digits decimal
  | plus => rfl
  | minus => rfl

/-- The number of a text that is taken whole, kept within `long`. -/
theorem strtoll_whole_iff (s : Text) (v : Int) :
    strtoll 10 s = (v, []) ∧ s ≠ [] ↔
      ∃ n, WholeNumber s n ∧ v = max (-2 ^ 63) (min n (2 ^ 63 - 1)) := by
  constructor
  · rintro ⟨taken, nonempty⟩
    cases found : scan 10 s with
    | none =>
        rw [strtoll, found] at taken
        exact absurd (Prod.mk.inj taken).2 nonempty
    | some result =>
        rw [strtoll, found] at taken
        obtain ⟨value, whole⟩ := Prod.mk.inj taken
        have signed := sign_sound (s.dropWhile isSpace)
        generalize split : sign (s.dropWhile isSpace) = parts at signed
        obtain ⟨negative, digits⟩ := parts
        simp only [scan, split, KeyFile.radix_ten] at found
        split at found
        · contradiction
        · rename_i some
          cases Option.some.inj found
          have all : ∀ c ∈ digits, digitIn 10 c = true :=
            List.dropWhile_eq_nil_iff.mp whole
          rw [List.takeWhile_eq_self_iff.mpr all] at value some
          have blanks : ∀ c ∈ s.takeWhile isSpace, isSpace c = true :=
            fun c member => List.mem_takeWhile_imp member
          have shape := WholeNumber.mk blanks signed
            (fun c member => Strtod.isDigit_of_digitIn (all c member)) some
          rw [List.takeWhile_append_dropWhile] at shape
          refine ⟨_, shape, ?_⟩
          rw [← value]
          dsimp only
          split
          · omega
          · omega
  · rintro ⟨n, whole, rfl⟩
    cases whole with
    | mk blank signed decimal nonempty =>
        rename_i blanks body digits negative
        have split : sign ((blanks ++ body).dropWhile isSpace) = (negative, digits) := by
          rw [List.dropWhile_append_of_pos blank]
          exact signed.sign_eq decimal nonempty
        refine ⟨?_, ?_⟩
        · rw [strtoll, KeyFile.scan_ten split decimal nonempty]
          refine Prod.ext ?_ rfl
          dsimp only
          split
          · omega
          · omega
        · intro empty
          obtain ⟨_, rfl⟩ := List.append_eq_nil_iff.mp empty
          cases signed with
          | plain => exact nonempty rfl

theorem WholeNumber.colon_free {s : Text} {n : Int} (whole : WholeNumber s n) : 58 ∉ s := by
  cases whole with
  | mk blank signed decimal nonempty =>
      intro member
      rcases List.mem_append.mp member with among | among
      · exact absurd (blank 58 among) (by decide)
      · cases signed with
        | plain => exact absurd (decimal 58 among) (by decide)
        | plus =>
            rcases List.mem_cons.mp among with sign | later
            · exact absurd sign (by decide)
            · exact absurd (decimal 58 later) (by decide)
        | minus =>
            rcases List.mem_cons.mp among with sign | later
            · exact absurd sign (by decide)
            · exact absurd (decimal 58 later) (by decide)

theorem wholeNumber_digitsOf (n : Nat) : WholeNumber (digitsOf 10 n) n := by
  have whole := @WholeNumber.mk [] _ _ _ (by simp) (.plain (digitsOf 10 n))
    (fun c member => isDigit_of_mem_digitsOf member) (digitsOf_ne_nil n)
  simpa [numeral_digitsOf] using whole

end Inet
