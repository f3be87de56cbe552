/-! Values of the JSON data format. -/

namespace DeskScript

/-- A number: an integer between `-2^63` and `2^64`, or a binary number. -/
inductive Json.Number where
  | int (n : Int)
  | real (x : Float)
deriving Inhabited, DecidableEq

/-- A JSON value. The members of an object keep their order. -/
inductive Json where
  | null
  | bool (b : Bool)
  | number (n : Json.Number)
  | string (s : String)
  | array (items : List Json)
  | object (members : List (String × Json))
deriving Inhabited

namespace Json

def int (n : Int) : Json := .number (.int n)

def real (x : Float) : Json := .number (.real x)

def strings (ss : List String) : Json := .array (ss.map .string)

def optional (name : String) (x : Option α) (f : α → Json) : List (String × Json) :=
  match x with
  | some a => [(name, f a)]
  | none => []

end Json

/-- What keeps a text from being JSON: it ends too early, or has something where it must not be. -/
inductive Json.Fault where
  | malformed
  | truncated
deriving DecidableEq, Repr

end DeskScript
