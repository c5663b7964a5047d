import EtherDog.Config.Types

/-!
# Reading fields of a JSON document (src/config.c, src/cjson/cJSON.c)

`Json` is a tree as `cJSON_Parse` builds it.  A number carries the two readings
cJSON keeps: the double and the int it saturates to.  A string is its buffer, of
which C sees what stands before the first NUL.  A lookup finds the first member
with the name; anything but an object has no members.

`LibC` stands for the two library operations that round to `double`.  `strtod`
gives the value and the text behind it, which is the whole text where nothing
is read.  Error texts go to the log only and are left out.
-/

set_option autoImplicit false

namespace EtherDog

open CString

inductive Json where
  | null
  | bool (value : Bool)
  | number (valueint : Int) (valuedouble : Double)
  | string (buffer : List UInt8)
  | array (items : List Json)
  | object (members : List (List UInt8 × Json))

structure LibC where
  strtod : Text → Double × Text
  /-- the conversion of a `long long` to `double` -/
  ofLongLong : Int → Double

/-! ## cJSON -/

/-- `cJSON_GetObjectItemCaseSensitive`; `none` is NULL. -/
def Json.item? (json : Json) (key : String) : Option Json :=
  match json with
  | .object members => (members.find? fun m => cstr m.1 == text key).map Prod.snd
  | _ => none

/-- The elements of an array member; none where it is absent or something else. -/
def Json.items (json : Json) (key : String) : List Json :=
  match json.item? key with
  | some (.array items) => items
  | _ => []

def Json.valuestring? (json : Json) : Option Text :=
  match json with
  | .string buffer => some (cstr buffer)
  | _ => none

def Json.section? (json : Json) (key : String) : Option Json :=
  match json.item? key with
  | some (.object members) => some (.object members)
  | _ => none

/-! ## Helpers -/

/-- `safe_strcpy` into a field of `size` bytes. -/
def safeStrcpy (src : Text) (size : Nat) : Text := src.take (size - 1)

def getString? (obj : Json) (key : String) : Option Text := (obj.item? key).bind Json.valuestring?

def getString (obj : Json) (key : String) (default : String) : Text :=
  (getString? obj key).getD (text default)

def getInt (obj : Json) (key : String) (default : Int) : Int :=
  match obj.item? key with
  | some (.number valueint _) => valueint
  | _ => default

def getBool (obj : Json) (key : String) (default : Bool) : Bool :=
  match obj.item? key with
  | some (.bool value) => value
  | _ => default

/-- The value of a text that a reader consumed as a whole. -/
def whole (s : Text) (read : Double × Text) : Option Double :=
  if read.2 ≠ s ∧ read.2 = [] then some read.1 else none

def numberOfText (libc : LibC) (s : Text) : Option Double :=
  match s with
  | [] => none
  | 48 :: mark :: _ =>
      if isHexMark mark then
        let (value, rest) := strtoll 16 s
        whole s (libc.ofLongLong value, rest)
      else whole s (libc.strtod s)
  | _ => whole s (libc.strtod s)

def getNumericValue (libc : LibC) (obj : Json) (key : String) (default : Double) : Double :=
  match obj.item? key with
  | some (.number _ valuedouble) => valuedouble
  | some (.string buffer) => (numberOfText libc (cstr buffer)).getD default
  | _ => default

def hexDigit (c : UInt8) : UInt32 :=
  let lower := toLower c
  if lower ≤ 57 then (lower - 48).toUInt32 else (lower - 97 + 10).toUInt32

def hexLoop (v : UInt32) : Text → Option UInt32
  | [] => some v
  | c :: rest => if isXDigit c then hexLoop ((v <<< 4) ||| hexDigit c) rest else none

def parseHexU32 (s : Text) : Option UInt32 :=
  match s with
  | lead :: mark :: digits =>
      if (lead = 48 ∨ lead = 35) ∧ isHexMark mark = true then
        if digits.length = 0 ∨ 8 < digits.length then none else hexLoop 0 digits
      else none
  | _ => none

def getHexU32 (obj : Json) (key : String) (max : UInt32) : Option UInt32 :=
  match (getString? obj key).bind parseHexU32 with
  | some v => if v ≤ max then some v else none
  | none => none

def strcasecmpLocal : Text → Text → Int
  | a :: as, b :: bs =>
      let diff := ((toLower a).toNat : Int) - (toLower b).toNat
      if diff ≠ 0 then diff else strcasecmpLocal as bs
  | a :: _, [] => (toLower a).toNat
  | [], b :: _ => -(toLower b).toNat
  | [], [] => 0

def sameFolded (s : Text) (names : List String) : Bool :=
  names.any fun name => strcasecmpLocal s (text name) == 0

def ecatParseDataType (s : Text) : EcatDataType :=
  if s = [] then .unknown
  else if sameFolded s ["BOOL"] then .bool
  else if sameFolded s ["INT8", "SINT"] then .int8
  else if sameFolded s ["UINT8", "USINT", "BYTE"] then .uint8
  else if sameFolded s ["INT16", "INT"] then .int16
  else if sameFolded s ["UINT16", "UINT", "WORD"] then .uint16
  else if sameFolded s ["INT32", "DINT"] then .int32
  else if sameFolded s ["UINT32", "UDINT", "DWORD"] then .uint32
  else if sameFolded s ["INT64", "LINT"] then .int64
  else if sameFolded s ["UINT64", "ULINT", "LWORD"] then .uint64
  else if sameFolded s ["REAL", "REAL32", "FLOAT"] then .real32
  else if sameFolded s ["LREAL", "REAL64", "DOUBLE"] then .real64
  else if sameFolded s ["PAD"] then .pad
  else if sameFolded s ["VISIBLE_STRING", "OCTET_STRING", "STRING"] then .bytestring
  else .unknown

/-! ## What they compute -/

theorem getString_nul_free (obj : Json) (key : String) (default : String)
    (literal : 0 ∉ text default) : 0 ∉ getString obj key default := by
  unfold getString getString?
  cases obj.item? key with
  | none => simpa using literal
  | some item =>
      cases item with
      | string buffer => simpa [Json.valuestring?] using zero_not_mem_cstr buffer
      | _ => simpa [Json.valuestring?] using literal

theorem toNat_toLower_ne_zero {c : UInt8} (nonzero : c ≠ 0) : (toLower c).toNat ≠ 0 := by
  unfold toLower isUpper
  split
  · rename_i upper
    simp only [Bool.and_eq_true, decide_eq_true_eq] at upper
    have low := UInt8.le_iff_toNat_le.mp upper.1
    have high := UInt8.le_iff_toNat_le.mp upper.2
    intro wrapped
    rw [UInt8.toNat_add] at wrapped
    simp at low high wrapped
    omega
  · exact fun zero => nonzero (UInt8.toNat_inj.mp zero)

theorem strcasecmpLocal_eq_zero_iff (a b : Text) (aFree : 0 ∉ a) (bFree : 0 ∉ b) :
    strcasecmpLocal a b = 0 ↔ a.map toLower = b.map toLower := by
  induction a generalizing b with
  | nil =>
      cases b with
      | nil => simp [strcasecmpLocal]
      | cons c rest =>
          have positive : (toLower c).toNat ≠ 0 :=
            toNat_toLower_ne_zero (by rintro rfl; simp at bFree)
          simp only [strcasecmpLocal, List.map_nil, List.map_cons]
          simp [positive]
  | cons c rest ih =>
      cases b with
      | nil =>
          have positive : (toLower c).toNat ≠ 0 :=
            toNat_toLower_ne_zero (by rintro rfl; simp at aFree)
          simp only [strcasecmpLocal, List.map_nil, List.map_cons]
          simp [positive]
      | cons d others =>
          have restFree : 0 ∉ rest := fun member => aFree (List.mem_cons_of_mem _ member)
          have othersFree : 0 ∉ others := fun member => bFree (List.mem_cons_of_mem _ member)
          simp only [strcasecmpLocal, List.map_cons, List.cons.injEq]
          by_cases same : toLower c = toLower d
          · rw [if_neg (by simp [same]), ih others restFree othersFree]
            simp [same]
          · have apart : ((toLower c).toNat : Int) - (toLower d).toNat ≠ 0 := by
              intro zero
              apply same
              apply UInt8.toNat_inj.mp
              omega
            rw [if_pos apart]
            simp [same, apart]

end EtherDog
