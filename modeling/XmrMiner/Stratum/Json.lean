import Mathlib.Data.Rat.Defs
import XmrMiner.Lib.CString

/-!
# JSON values

The values that the parser hands over, as far as the handlers of the pool's messages
look at them.  A string has no terminator inside; an object has each key once.

## Main definitions

* `Json` — the values.
* `Json.objectGet`, `Json.stringValue` — `json_object_get` and `json_string_value`.
-/

namespace XmrMiner

open CString

/-- JSON values. -/
inductive Json
  | null
  | bool (b : Bool)
  | integer (i : ℤ)
  | real (q : ℚ)
  | string (s : List Byte)
  | array (elements : List Json)
  | object (fields : List (List Byte × Json))

/-- `json_object_get`: none if there is no such key, or no object. -/
def Json.objectGet (key : List Byte) : Json → Option Json
  | .object fields => fields.lookup key
  | _ => none

/-- `json_string_value`: none is the null pointer, for what is not a string. -/
def Json.stringValue : Json → Option (List Byte)
  | .string s => some s
  | _ => none

end XmrMiner
