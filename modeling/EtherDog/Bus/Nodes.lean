import EtherDog.Config.Exact
import EtherDog.Log.Paging

/-!
# Trees of replies (src/cjson/cJSON.c)

The nodes that `cJSON_Create*` makes and the members that the
`cJSON_Add*ToObject` add.  Numbers pass through a double.  The texts are those
of the replies that are written without a tree; a brace in them is a byte
`\x7b` or `\x7d`.
-/

set_option autoImplicit false

namespace EtherDog

open CString

def Json.ofDouble (value : Double) : Json := .number (valueintOf value) value

def Json.ofText (s : Text) : Json := .string s

/-- `(double)` of a signed integer. -/
def doubleOfInt (v : Int) : Double :=
  if 0 ≤ v then .finite (toDouble v.toNat) else .finite (-(toDouble v.natAbs))

def doubleOfNat (n : Nat) : Double := .finite (toDouble n)

/-! ## Texts -/

def errorText (message : String) : Text :=
  text "\x7b\"error\":\"" ++ text message ++ text "\"\x7d"

def statusErrorText (message : String) : Text :=
  text "\x7b\"status\":\"error\",\"message\":\"" ++ text message ++ text "\"\x7d"

def statusSuccess : Text := text "\x7b\"status\":\"success\"\x7d"

/-! ## Members -/

abbrev Member : Type := List UInt8 × Json

def member (key : String) (value : Json) : Member := (text key, value)

def textMember (key : String) (s : Text) : Member := member key (.ofText s)

def intMember (key : String) (v : Int) : Member := member key (.ofDouble (doubleOfInt v))

def natMember (key : String) (n : Nat) : Member := member key (.ofDouble (doubleOfNat n))

def boolMember (key : String) (value : Bool) : Member := member key (.bool value)

def arrayMember (key : String) (items : List Json) : Member := member key (.array items)

def objectMember (key : String) (members : List Member) : Member := member key (.object members)

end EtherDog
