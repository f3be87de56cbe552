import DeskScript.Decimal.Style
import DeskScript.Json.Basic
import DeskScript.Text.Quoted

/-! What keeps a JSON value from being a value of some type. -/

namespace DeskScript.Json

inductive Found where
  | null
  | bool (b : Bool)
  | number (n : Number)
  | string (s : String)
  | sequence
  | map

/-- How a value differs from what is wanted; `wanted` is the name of that. -/
inductive Mismatch where
  | wrongType (found : Found) (wanted : String)
  | wrongValue (found : Found) (wanted : String)
  | wrongLength (length : Nat) (wanted : String)
  | unknownVariant (name : String) (known : List String)
  | missingField (name : String)
  | duplicateField (name : String)

/-- Why a text is not read: it is no JSON, or not of the wanted type. -/
inductive ReadError where
  | fault (f : Fault)
  | mismatch (m : Mismatch)

/-- `name` between grave accents, as messages cite the words of a text. -/
def cited (name : String) : String := "\x60" ++ name ++ "\x60"

def Found.text : Found → String
  | .null => "null"
  | .bool b => "boolean " ++ cited (if b then "true" else "false")
  | .number (.int n) => "integer " ++ cited (toString n)
  | .number (.real x) => "floating point " ++ cited (Decimal.textOfFloat .data x)
  | .string s => "string " ++ Text.quoted s
  | .sequence => "sequence"
  | .map => "map"

/-- The names among which a variant has to be, as a message lists them. -/
def alternatives : List String → String
  | [] => "there are no variants"
  | [a] => "expected " ++ cited a
  | [a, b] => "expected " ++ cited a ++ " or " ++ cited b
  | names => "expected one of " ++ ", ".intercalate (names.map cited)

def Mismatch.message : Mismatch → String
  | .wrongType found wanted => s!"invalid type: {found.text}, expected {wanted}"
  | .wrongValue found wanted => s!"invalid value: {found.text}, expected {wanted}"
  | .wrongLength n wanted => s!"invalid length {n}, expected {wanted}"
  | .unknownVariant name known => "unknown variant " ++ cited name ++ ", " ++ alternatives known
  | .missingField name => "missing field " ++ cited name
  | .duplicateField name => "duplicate field " ++ cited name

end DeskScript.Json
