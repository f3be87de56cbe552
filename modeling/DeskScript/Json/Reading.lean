import DeskScript.Json.Lexer
import DeskScript.Text.Utf8

/-! What a text says as far as it is JSON. A reading keeps each fault at its place, so that whoever
makes use of it meets its problems in the order of the text. -/

namespace DeskScript.Json

/-- The value at some place of a text, which may break off. In an array or an object that is not
closed as it should be, `ending` is the fault met in place of the next comma or bracket. -/
inductive Reading where
  | null
  | bool (b : Bool)
  | number (exact : Except Fault Number) (skipped : Option Fault)
  | string (q : Quoted)
  | array (items : List Reading) (ending : Option Fault)
  | object (members : List (Quoted × Reading)) (ending : Option Fault)
  | broken (f : Fault)

/-- A text: its value, and whether anything follows the value. -/
structure Document where
  root : Reading
  trailing : Bool

/-- An array or object around the place of reading, with what it held before that place, the last
first. An object also has the key of the value that is to come. -/
inductive Frame where
  | array (before : List Reading)
  | object (before : List (Quoted × Reading)) (key : Quoted)

inductive Awaited where
  | value
  | valueOrClose
  | keyOrClose
  | key (before : List (Quoted × Reading))
  | colon (before : List (Quoted × Reading)) (key : Quoted)
  | separator (last : Reading)
  | nothing (root : Reading)

inductive Reader where
  | going (around : List Frame) (awaited : Awaited)
  | over (document : Document)

namespace Reader

/-- Puts the value `r` into all that is still open. -/
def unwind : List Frame → Reading → Reading
  | [], r => r
  | .array before :: around, r => unwind around (.array (r :: before).reverse (some .malformed))
  | .object before key :: around, r =>
    unwind around (.object ((key, r) :: before).reverse (some .malformed))

def stop (around : List Frame) (r : Reading) : Reader := .over ⟨unwind around r, false⟩

def deliver (around : List Frame) (r : Reading) : Reader :=
  match around with
  | [] => .going [] (.nothing r)
  | _ :: _ => .going around (.separator r)

def stepValue (around : List Frame) : Token → Reader
  | .openArray => .going (.array [] :: around) .valueOrClose
  | .openObject => .going around .keyOrClose
  | .literal (.ok .null) => deliver around .null
  | .literal (.ok (.bool b)) => deliver around (.bool b)
  | .literal (.error f) => stop around (.broken f)
  | .number exact none => deliver around (.number exact none)
  | .number exact (some f) => stop around (.number exact (some f))
  | .string ⟨exact, none⟩ => deliver around (.string ⟨exact, none⟩)
  | .string ⟨exact, some f⟩ => stop around (.string ⟨exact, some f⟩)
  | _ => stop around (.broken .malformed)

def misplaced : Token → Reading
  | .openArray => .array [] none
  | .openObject => .object [] none
  | .literal (.ok .null) => .null
  | .literal (.ok (.bool b)) => .bool b
  | .literal (.error f) => .broken f
  | .number exact skipped => .number exact skipped
  | _ => .broken .malformed

/-- Reads the token at a place where a key has to be, in an object that holds `before`. Another
value in that place is kept as the value of a malformed key. -/
def stepKey (around : List Frame) (before : List (Quoted × Reading)) : Token → Reader
  | .string ⟨exact, none⟩ => .going around (.colon before ⟨exact, none⟩)
  | .string ⟨exact, some f⟩ =>
    stop around (.object ((⟨exact, some f⟩, .broken f) :: before).reverse (some f))
  | t =>
    stop around (.object ((⟨.error .malformed, some .malformed⟩, misplaced t) :: before).reverse
      (some .malformed))

/-- Ends the reading after the value `r` with the fault `f`, where a comma or bracket should be. -/
def cut (around : List Frame) (r : Reading) (f : Fault) : Reader :=
  match around with
  | [] => stop [] r
  | .array before :: around => stop around (.array (r :: before).reverse (some f))
  | .object before key :: around => stop around (.object ((key, r) :: before).reverse (some f))

def stepSeparator (around : List Frame) (r : Reading) (t : Token) : Reader :=
  match around, t with
  | .array before :: around, .comma => .going (.array (r :: before) :: around) .value
  | .array before :: around, .closeArray => deliver around (.array (r :: before).reverse none)
  | .object before key :: around, .comma => .going around (.key ((key, r) :: before))
  | .object before key :: around, .closeObject =>
    deliver around (.object ((key, r) :: before).reverse none)
  | around, _ => cut around r .malformed

def step : Reader → Token → Reader
  | .over d, _ => .over d
  | .going around .value, t => stepValue around t
  | .going (.array [] :: around) .valueOrClose, .closeArray => deliver around (.array [] none)
  | .going around .valueOrClose, t => stepValue around t
  | .going around .keyOrClose, .closeObject => deliver around (.object [] none)
  | .going around .keyOrClose, t => stepKey around [] t
  | .going around (.key before), t => stepKey around before t
  | .going around (.colon before key), .colon => .going (.object before key :: around) .value
  | .going around (.colon before key), _ =>
    stop around (.object ((key, .broken .malformed) :: before).reverse (some .malformed))
  | .going around (.separator r), t => stepSeparator around r t
  | .going _ (.nothing root), _ => .over ⟨root, true⟩

/-- The member that a comma announces and the end of the text withholds. -/
def missingMember : Quoted × Reading :=
  (⟨.error .truncated, some .truncated⟩, .broken .truncated)

def finish : Reader → Document
  | .over d => d
  | .going around .value | .going around .valueOrClose =>
    ⟨unwind around (.broken .truncated), false⟩
  | .going around .keyOrClose => ⟨unwind around (.object [] (some .truncated)), false⟩
  | .going around (.key before) =>
    ⟨unwind around (.object (missingMember :: before).reverse (some .truncated)), false⟩
  | .going around (.colon before key) =>
    ⟨unwind around (.object ((key, .broken .truncated) :: before).reverse (some .truncated)), false⟩
  | .going around (.separator r) =>
    match cut around r .truncated with
    | .over d => d
    | .going _ _ => ⟨r, false⟩
  | .going _ (.nothing root) => ⟨root, false⟩

end Reader

namespace Document

def ofTokens (ts : List Token) : Document :=
  (ts.foldl Reader.step (.going [] .value)).finish

def ofText (s : String) : Document := ofTokens (tokens (s.toList.map some))

def ofBytes (bytes : List UInt8) : Document := ofTokens (tokens (Text.decodeUtf8 bytes))

end Document

mutual

def toReading : Json → Reading
  | .null => .null
  | .bool b => .bool b
  | .number n => .number (.ok n) none
  | .string s => .string ⟨.ok s, none⟩
  | .array items => .array (toReadings items) none
  | .object members => .object (toMemberReadings members) none

def toReadings : List Json → List Reading
  | [] => []
  | j :: js => toReading j :: toReadings js

def toMemberReadings : List (String × Json) → List (Quoted × Reading)
  | [] => []
  | (key, j) :: ms => (⟨.ok key, none⟩, toReading j) :: toMemberReadings ms

end

end DeskScript.Json
