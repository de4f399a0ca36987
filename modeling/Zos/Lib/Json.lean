import Mathlib.Data.List.Basic

/-!
# Documents as scripts read them

What a YAML or JSON reader returns. Of a number only its truth value is kept: whether it is
neither zero nor `NaN`. A property that an object does not have is `undefined`, that is
`none`.
-/

namespace Zos.Lib

inductive Json where
  | null
  | bool (value : Bool)
  | number (truthy : Bool)
  | string (value : String)
  | array (items : List Json)
  | object (fields : List (String × Json))

abbrev Fields := List (String × Json)

def Json.truthy : Json → Bool
  | .null => false
  | .bool value => value
  | .number truthy => truthy
  | .string value => value ≠ ""
  | .array _ | .object _ => true

/-- The own properties of an object. -/
def Json.fields : Json → Fields
  | .object fields => fields
  | _ => []

end Zos.Lib
