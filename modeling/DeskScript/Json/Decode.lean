import DeskScript.Json.Mismatch
import DeskScript.Json.Reading

/-! Values of simple types from readings. What is wrong first in the order of the text decides. -/

namespace DeskScript.Json

abbrev Decoded (α : Type) := Except ReadError α

/-- Fails where the text breaks off or has what cannot stand there. -/
def faulty (f : Fault) : Decoded α := .error (.fault f)

def mismatched (m : Mismatch) : Decoded α := .error (.mismatch m)

def exactly : Except Fault α → Decoded α
  | .ok a => .ok a
  | .error f => faulty f

def unless? : Option Fault → Decoded Unit
  | none => .ok ()
  | some f => faulty f

namespace Reading

/-- What stands at the place of the reading. Of an array or object only its opening counts. -/
def found : Reading → Decoded Found
  | .null => .ok .null
  | .bool b => .ok (.bool b)
  | .number exact _ => .number <$> exactly exact
  | .string q => .string <$> exactly q.exact
  | .array _ _ => .ok .sequence
  | .object _ _ => .ok .map
  | .broken f => faulty f

def refuse (r : Reading) (wanted : String) : Decoded α := do
  mismatched (.wrongType (← r.found) wanted)

mutual

/-- Passes over a value that nobody wants: its brackets and marks have to be in place, but it may
nest without limit, and its strings and numbers need not have a value. -/
def skip : Reading → Decoded Unit
  | .null | .bool _ => .ok ()
  | .number _ skipped => unless? skipped
  | .string q => unless? q.skipped
  | .array items ending => do
    skipItems items
    unless? ending
  | .object members ending => do
    skipMembers members
    unless? ending
  | .broken f => faulty f

def skipItems : List Reading → Decoded Unit
  | [] => .ok ()
  | r :: rs => do
    skip r
    skipItems rs

def skipMembers : List (Quoted × Reading) → Decoded Unit
  | [] => .ok ()
  | (key, r) :: ms => do
    unless? key.skipped
    skip r
    skipMembers ms

end

mutual

/-- Checks that a value is wholly JSON and nests no deeper than `room`. -/
def check (room : Nat) : Reading → Decoded Unit
  | .null | .bool _ => .ok ()
  | .number exact _ => discard (exactly exact)
  | .string q => discard (exactly q.exact)
  | .array items ending =>
    match room with
    | 0 => faulty .malformed
    | room + 1 => do
      checkItems room items
      unless? ending
  | .object members ending =>
    match room with
    | 0 => faulty .malformed
    | room + 1 => do
      checkMembers room members
      unless? ending
  | .broken f => faulty f

def checkItems (room : Nat) : List Reading → Decoded Unit
  | [] => .ok ()
  | r :: rs => do
    check room r
    checkItems room rs

def checkMembers (room : Nat) : List (Quoted × Reading) → Decoded Unit
  | [] => .ok ()
  | (key, r) :: ms => do
    discard (exactly key.exact)
    check room r
    checkMembers room ms

end

def asString : Reading → Decoded String
  | .string q => exactly q.exact
  | r => r.refuse "a string"

def asBool : Reading → Decoded Bool
  | .bool b => .ok b
  | r => r.refuse "a boolean"

/-- An integer from 0 to `2^64 - 1`; messages call the type `wanted`. -/
def asWord (wanted : String) : Reading → Decoded UInt64
  | .number (.ok (.int n)) _ =>
    if n < 0 then mismatched (.wrongValue (.number (.int n)) wanted) else .ok (.ofNat n.toNat)
  | r => r.refuse wanted

def asMilliseconds : Reading → Decoded UInt64 := asWord "u64"

def asInt32 : Reading → Decoded Int32
  | .number (.ok (.int n)) _ =>
    if Int32.minValue.toInt ≤ n ∧ n ≤ Int32.maxValue.toInt then .ok (.ofInt n)
    else mismatched (.wrongValue (.number (.int n)) "i32")
  | r => r.refuse "i32"

def asFloat : Reading → Decoded Float
  | .number (.ok (.int n)) _ => .ok (Float.ofInt n)
  | .number (.ok (.real x)) _ => .ok x
  | r => r.refuse "f64"

def asOption (read : Reading → Decoded α) : Reading → Decoded (Option α)
  | .null => .ok none
  | r => some <$> read r

/-- A list, nesting no deeper than `room`; `read` is given the room that is left. -/
def asList (room : Nat) (read : Nat → Reading → Decoded α) : Reading → Decoded (List α)
  | .array items ending =>
    match room with
    | 0 => faulty .malformed
    | room + 1 => do
      let values ← items.mapM (read room)
      unless? ending
      return values
  | r => r.refuse "a sequence"

end Reading

def nestingLimit : Nat := 127

def Document.decode (d : Document) (read : Nat → Reading → Decoded α) : Decoded α := do
  let value ← read nestingLimit d.root
  if d.trailing then faulty .malformed else return value

end DeskScript.Json
