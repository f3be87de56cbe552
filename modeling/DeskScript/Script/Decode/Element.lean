import DeskScript.Json.Fields
import DeskScript.Script.Element

/-! Elements and conditions from JSON. Both are tagged values inside of others, read after the value
around them as a whole. -/

namespace DeskScript

open Json

/-! ### Elements -/

inductive Element.Field where
  | x | y | data | threshold
deriving DecidableEq

abbrev Element.Field.Value : Element.Field → Type
  | .x | .y => Int32
  | .data => String
  | .threshold => Option Float

def Element.Field.name : Element.Field → String
  | .x => "x"
  | .y => "y"
  | .data => "base64Data"
  | .threshold => "matchThreshold"

def Element.Field.read : (i : Element.Field) → Reading → Decoded i.Value
  | .x, r | .y, r => r.asInt32
  | .data, r => r.asString
  | .threshold, r => r.asOption Reading.asFloat

def Coordinate.fields : Fields Element.Field := ⟨"struct Coordinate", [.x, .y], Element.Field.name⟩

def Pattern.fields : Fields Element.Field :=
  ⟨"struct ImagePattern", [.data, .threshold], Element.Field.name⟩

def Element.tags : Tags :=
  ⟨"internally tagged enum ElementIdentifier", "type", ["by_coordinate", "by_image"]⟩

def Element.read (room : Nat) (r : Reading) : Decoded Element := do
  let (variant, content) ← Element.tags.read .stored room r
  match variant with
  | 0 =>
    let s ← Coordinate.fields.readRecord .stored room (fun _ => Element.Field.read) content
    return .position ⟨← s.get .x, ← s.get .y⟩
  | _ =>
    let s ← Pattern.fields.readRecord .stored room (fun _ => Element.Field.read) content
    return .picture ⟨← s.get .data, s.getD .threshold none⟩

/-! ### Conditions -/

inductive Condition.Field where
  | element | conditions | condition
deriving DecidableEq

abbrev Condition.Field.Value : Condition.Field → Type
  | .element => Element
  | .conditions => List Condition
  | .condition => Condition

def Condition.Field.name : Condition.Field → String
  | .element => "identifier"
  | .conditions => "conditions"
  | .condition => "condition"

def Condition.tags : Tags :=
  ⟨"internally tagged enum Condition", "type",
    ["element_exists", "element_not_exists", "and", "or", "not"]⟩

/-- The fields of the variant `title`, of which there is one. -/
def Condition.fields (title : String) (field : Condition.Field) : Fields Condition.Field :=
  ⟨"struct variant Condition::" ++ title, [field], Condition.Field.name⟩

/-- Reads a condition, given how the condition and the list of conditions inside it are read. -/
def Condition.readWith (room : Nat) (inner : Reading → Decoded Condition)
    (list : Reading → Decoded (List Condition)) (r : Reading) : Decoded Condition := do
  let field : Nat → (i : Condition.Field) → Reading → Decoded i.Value := fun room i =>
    match i with
    | .element => Element.read room
    | .conditions => list
    | .condition => inner
  let (variant, content) ← Condition.tags.read .stored room r
  match variant with
  | 0 =>
    let s ← (Condition.fields "ElementExists" .element).readRecord .stored room field content
    return .present (← s.get .element)
  | 1 =>
    let s ← (Condition.fields "ElementNotExists" .element).readRecord .stored room field content
    return .absent (← s.get .element)
  | 2 =>
    let s ← (Condition.fields "And" .conditions).readRecord .stored room field content
    return .all (← s.get .conditions)
  | 3 =>
    let s ← (Condition.fields "Or" .conditions).readRecord .stored room field content
    return .any (← s.get .conditions)
  | _ =>
    let s ← (Condition.fields "Not" .condition).readRecord .stored room field content
    return .not (← s.get .condition)

/-- Fails where there is no room for anything that nests. -/
def noRoom (_ : Reading) : Decoded α := faulty .malformed

def Condition.read : (room : Nat) → Reading → Decoded Condition
  | 0 => Condition.readWith 0 noRoom noRoom
  | 1 => Condition.readWith 1 (Condition.read 0) (Reading.asList 0 fun _ => noRoom)
  | room + 2 =>
    Condition.readWith (room + 2) (Condition.read (room + 1))
      (Reading.asList (room + 1) fun _ => Condition.read room)

end DeskScript
