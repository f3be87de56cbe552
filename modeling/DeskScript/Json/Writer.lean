import DeskScript.Decimal.Style
import DeskScript.Json.Basic

/-! JSON values as text, without any white space. -/

namespace DeskScript.Json

def escapeChar (c : Char) : List Char :=
  match c with
  | '"' => ['\\', '"']
  | '\\' => ['\\', '\\']
  | '\x08' => ['\\', 'b']
  | '\t' => ['\\', 't']
  | '\n' => ['\\', 'n']
  | '\x0c' => ['\\', 'f']
  | '\r' => ['\\', 'r']
  | _ =>
    if c.toNat < 0x20 then
      ['\\', 'u', '0', '0', Nat.digitChar (c.toNat / 16), Nat.digitChar (c.toNat % 16)]
    else [c]

def quotedChars (s : String) : List Char := '"' :: (s.toList.flatMap escapeChar ++ ['"'])

/-- The digits of a number. One that is not finite has no written form and becomes `null`. -/
def Number.chars : Number → List Char
  | .int n => (if n < 0 then ['-'] else []) ++ Decimal.digitChars n.natAbs
  | .real x =>
    match Decimal.ofFloat? Decimal.Style.data.tie x with
    | some d => d.chars .data
    | none => ['n', 'u', 'l', 'l']

mutual

/-- The text of a value, in front of `rest`. -/
def write : Json → List Char → List Char
  | .null, rest => 'n' :: 'u' :: 'l' :: 'l' :: rest
  | .bool true, rest => 't' :: 'r' :: 'u' :: 'e' :: rest
  | .bool false, rest => 'f' :: 'a' :: 'l' :: 's' :: 'e' :: rest
  | .number n, rest => n.chars ++ rest
  | .string s, rest => quotedChars s ++ rest
  | .array items, rest => '[' :: writeItems items true (']' :: rest)
  | .object members, rest => '\x7b' :: writeMembers members true ('\x7d' :: rest)

def writeItems : List Json → (first : Bool) → List Char → List Char
  | [], _, rest => rest
  | item :: items, first, rest =>
    let text := write item (writeItems items false rest)
    if first then text else ',' :: text

def writeMembers : List (String × Json) → (first : Bool) → List Char → List Char
  | [], _, rest => rest
  | (key, value) :: members, first, rest =>
    let text := quotedChars key ++ ':' :: write value (writeMembers members false rest)
    if first then text else ',' :: text

end

def text (j : Json) : String := String.ofList (write j [])

end DeskScript.Json
