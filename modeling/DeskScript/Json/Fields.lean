import DeskScript.Json.Decode

/-! Structures and tagged values from readings. -/

namespace DeskScript.Json

/-- How a value is met: as the text goes on, or out of an object that has been read as a whole,
because only its tag says what it is. -/
inductive Mode where
  | streamed
  | stored
deriving DecidableEq

/-- The fields of a structure: an index for each in the order of declaration, with its name and the
type of its value. -/
structure Fields (ι : Type) where
  title : String
  all : List ι
  name : ι → String

abbrev Partial {ι : Type} (α : ι → Type) := (i : ι) → Option (α i)

variable {ι : Type} [DecidableEq ι] {α : ι → Type}

def Partial.set (p : Partial α) (i : ι) (a : α i) : Partial α := fun j =>
  if h : i = j then some (h ▸ a) else p j

def Partial.empty : Partial α := fun _ => none

namespace Fields

def index? (fields : Fields ι) (name : String) : Option ι :=
  fields.all.find? fun i => fields.name i == name

def counted (n : Nat) : String := if n = 1 then "1 element" else s!"{n} elements"

/-- Reads the members of an object in their order. Members that are no fields are passed over. -/
def readMembers (fields : Fields ι) (read : (i : ι) → Reading → Decoded (α i)) :
    List (Quoted × Reading) → Partial α → Decoded (Partial α)
  | [], p => .ok p
  | (key, r) :: ms, p => do
    let name ← exactly key.exact
    match fields.index? name with
    | none =>
      r.skip
      readMembers fields read ms p
    | some i =>
      if (p i).isSome then mismatched (.duplicateField name)
      let a ← read i r
      readMembers fields read ms (p.set i a)

/-- Reads the items of an array as the fields in the order of declaration; with the items left. -/
def readItems (read : (i : ι) → Reading → Decoded (α i)) :
    List ι → List Reading → Partial α → Decoded (Partial α × List Reading)
  | i :: is, r :: rs, p => do
    let a ← read i r
    readItems read is rs (p.set i a)
  | _, rs, p => .ok (p, rs)

structure Record (α : ι → Type) where
  field : Partial α
  absent : ι → Mismatch

def Record.get (s : Record α) (i : ι) : Decoded (α i) :=
  match s.field i with
  | some a => .ok a
  | none => mismatched (s.absent i)

def Record.getD (s : Record α) (i : ι) (default : α i) : α i := (s.field i).getD default

/-- Reads a structure, written as an object or as the array of its fields. `read` is given the room
for nesting that is left. -/
def readRecord (fields : Fields ι) (mode : Mode) (room : Nat)
    (read : Nat → (i : ι) → Reading → Decoded (α i)) (r : Reading) : Decoded (Record α) :=
  match r, room with
  | .object _ _, 0 | .array _ _, 0 => faulty .malformed
  | .object members ending, room + 1 => do
    let p ← fields.readMembers (read room) members .empty
    unless? ending
    return ⟨p, fun i => .missingField (fields.name i)⟩
  | .array items ending, room + 1 => do
    let (p, rest) ← readItems (read room) fields.all items .empty
    if rest.isEmpty then unless? ending
    else match mode with
      | .streamed => faulty .malformed
      | .stored => mismatched (.wrongLength items.length
          (counted fields.all.length ++ " in sequence"))
    return ⟨p, fun i => .wrongLength (fields.all.idxOf i)
      (fields.title ++ " with " ++ counted fields.all.length)⟩
  | r, _ => r.refuse fields.title

end Fields

/-! ### Tagged values -/

def variantNamed (variants : List String) (name : String) : Decoded Nat :=
  match variants.findIdx? (· == name) with
  | some i => .ok i
  | none => mismatched (.unknownVariant name variants)

/-- The place of the variant that a tag names. A stored tag may also be the place itself. -/
def Reading.asVariant (mode : Mode) (variants : List String) : Reading → Decoded Nat
  | .string q => do variantNamed variants (← exactly q.exact)
  | .number (.ok (.int n)) skipped =>
    if mode = .stored ∧ 0 ≤ n then
      if n < variants.length then .ok n.toNat
      else mismatched (.wrongValue (.number (.int n)) s!"variant index 0 <= i < {variants.length}")
    else (Reading.number (.ok (.int n)) skipped).refuse "variant identifier"
  | r => r.refuse "variant identifier"

structure Tags where
  title : String
  tag : String
  variants : List String

namespace Tags

/-- Reads the members of an object in their order: the variant, and the members but for the tag. -/
def readMembers (tags : Tags) (mode : Mode) (room : Nat) :
    List (Quoted × Reading) → (variant : Option Nat) → Decoded (Option Nat × List (Quoted × Reading))
  | [], variant => .ok (variant, [])
  | (key, r) :: ms, variant => do
    let name ← exactly key.exact
    if name == tags.tag then
      if variant.isSome then mismatched (.duplicateField name)
      let i ← r.asVariant mode tags.variants
      readMembers tags mode room ms (some i)
    else
      r.check room
      let (variant, ms) ← readMembers tags mode room ms variant
      return (variant, (key, r) :: ms)

/-- Reads a tagged value, written as an object with the tag among its members or as an array with
the tag as its first item: the variant, and what is left without the tag. -/
def read (tags : Tags) (mode : Mode) (room : Nat) (r : Reading) : Decoded (Nat × Reading) :=
  match r, room with
  | .object _ _, 0 | .array _ _, 0 => faulty .malformed
  | .object members ending, room + 1 => do
    let (variant, rest) ← tags.readMembers mode room members none
    unless? ending
    match variant with
    | some i => return (i, .object rest none)
    | none => mismatched (.missingField tags.tag)
  | .array [] ending, _ + 1 => do
    unless? ending
    mismatched (.missingField tags.tag)
  | .array (first :: items) ending, room + 1 => do
    let i ← first.asVariant mode tags.variants
    Reading.checkItems room items
    unless? ending
    return (i, .array items none)
  | r, _ => r.refuse tags.title

end Tags

/-- A stored value with nothing in it: members do not count, items may not be there. -/
def Reading.asNothing : Reading → Decoded Unit
  | .array (r :: rs) _ =>
    mismatched (.wrongLength (r :: rs).length (Fields.counted 0 ++ " in sequence"))
  | _ => .ok ()

/-- The value of a variant that has none: `null`, or, if stored, an object with nothing in it. -/
def Reading.asUnit (mode : Mode) : Reading → Decoded Unit
  | .null => .ok ()
  | .object [] ending =>
    if mode = .stored then .ok () else (Reading.object [] ending).refuse "unit"
  | r => r.refuse "unit"

end DeskScript.Json
