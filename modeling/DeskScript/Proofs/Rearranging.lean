import DeskScript.Proofs.Inverting
import DeskScript.Proofs.Spelling
import Mathlib.Logic.Relation

/-! Rearranged readings of scripts: the members of an object that stands for a structure or a tagged value
in another order, with new members among them that are no fields of it. -/

namespace DeskScript

/-- The values inside of a script, by what is read from them. -/
inductive Kind where
  | simple | element | condition | conditions | action | step | steps | settings | script
deriving DecidableEq

/-- What the objects of a value stand for: a structure with its fields, or a tagged value with what is
left of it for each variant when the tag is taken away. -/
inductive Shape where
  | simple
  | list (item : Kind)
  | record (fields : List (String × Kind))
  | tagged (tag : String) (variants : List (String × Shape))

namespace Shape

def pointing : Shape := .record [("target", .element)]

def mouse : Shape := .tagged "type"
  [("left_click", pointing), ("right_click", pointing), ("double_click", pointing), ("move_to", pointing),
    ("drag", .record [("from", .element), ("to", .element)]),
    ("scroll", .record [("amount", .simple), ("direction", .simple)])]

def keyboard : Shape := .tagged "type"
  [("type_text", .record [("text", .simple)]), ("press_key", .record [("key", .simple)]),
    ("press_key_combination", .record [("keys", .simple)])]

def system : Shape := .tagged "type"
  [("wait", .record [("milliseconds", .simple)]),
    ("launch_application", .record [("path", .simple), ("args", .simple)]),
    ("close_application", .record [("processName", .simple)])]

def flow : Shape := .tagged "type"
  [("stop", .record []), ("jump_to", .record [("targetStepId", .simple)]), ("continue", .record [])]

/-- A step of some kind: the fields of every step and its own. -/
def step (own : List (String × Kind)) : Shape := .record
  ([("id", .simple), ("label", .simple), ("delayBefore", .simple), ("delayAfter", .simple)] ++ own)

end Shape

def Kind.shape : Kind → Shape
  | .simple => .simple
  | .element => .tagged "type"
    [("by_coordinate", .record [("x", .simple), ("y", .simple)]),
      ("by_image", .record [("base64Data", .simple), ("matchThreshold", .simple)])]
  | .condition => .tagged "type"
    [("element_exists", .record [("identifier", .element)]),
      ("element_not_exists", .record [("identifier", .element)]),
      ("and", .record [("conditions", .conditions)]), ("or", .record [("conditions", .conditions)]),
      ("not", .record [("condition", .condition)])]
  | .conditions => .list .condition
  | .action => .tagged "category"
    [("mouse", .mouse), ("keyboard", .keyboard), ("system", .system), ("flow", .flow)]
  | .step => .tagged "type"
    [("action", .step [("action", .action)]),
      ("conditional", .step [("condition", .condition), ("thenSteps", .steps), ("elseSteps", .steps)]),
      ("observer", .step [("condition", .condition), ("actionSteps", .steps)]),
      ("group", .step [("name", .simple), ("steps", .steps)])]
  | .steps => .list .step
  | .settings => .record
    [("defaultDelayBefore", .simple), ("defaultDelayAfter", .simple), ("observerCheckDelay", .simple),
      ("defaultImageMatchThreshold", .simple)]
  | .script => .record
    [("name", .simple), ("description", .simple), ("steps", .steps), ("settings", .settings)]

namespace Json

/-! ### Nesting of readings -/

mutual

/-- How many arrays and objects are one inside the other. -/
def Reading.nesting : Reading → Nat
  | .null | .bool _ | .number _ _ | .string _ | .broken _ => 0
  | .array items _ => nestingOfItems items + 1
  | .object members _ => nestingOfMembers members + 1

def Reading.nestingOfItems : List Reading → Nat
  | [] => 0
  | r :: rs => max (nesting r) (nestingOfItems rs)

def Reading.nestingOfMembers : List (Quoted × Reading) → Nat
  | [] => 0
  | (_, r) :: ms => max (nesting r) (nestingOfMembers ms)

end

mutual

theorem nesting_toReading (j : Json) : j.toReading.nesting = j.nesting := by
  cases j with
  | null | bool b | number n | string s => rfl
  | array items => rw [toReading, Reading.nesting, nestingOfItems_toReadings items, nesting]
  | object members => rw [toReading, Reading.nesting, nestingOfMembers_toMemberReadings members, nesting]

theorem nestingOfItems_toReadings (js : List Json) :
    Reading.nestingOfItems (toReadings js) = nestingOfItems js := by
  cases js with
  | nil => rfl
  | cons j js =>
    rw [toReadings, Reading.nestingOfItems, nesting_toReading j, nestingOfItems_toReadings js,
      nestingOfItems]

theorem nestingOfMembers_toMemberReadings (ms : List (String × Json)) :
    Reading.nestingOfMembers (toMemberReadings ms) = nestingOfMembers ms := by
  cases ms with
  | nil => rfl
  | cons m ms =>
    obtain ⟨key, j⟩ := m
    rw [toMemberReadings, Reading.nestingOfMembers, nesting_toReading j,
      nestingOfMembers_toMemberReadings ms, nestingOfMembers]

end

/-! ### Rearranging -/

/-- One object somewhere in a value of the given shape is rearranged, where `room` is left for nesting.
`Admitted` says of a value which may come in as a new member, by how the object around it is met and the
room that is left there. -/
inductive Rearranged (Admitted : Mode → Nat → Reading → Prop) :
    Mode → Shape → Nat → Reading → Reading → Prop
  /-- The members of a structure in another order, with new ones among them. -/
  | members {mode : Mode} {fields : List (String × Kind)} {room : Nat} {ms ms' : List (Quoted × Reading)}
      (new : List (Quoted × Reading)) (order : ms'.Perm (new ++ ms))
      (unknown : ∀ m ∈ new, ∃ key, m.1 = ⟨.ok key, none⟩ ∧ key ∉ fields.map Prod.fst)
      (admitted : ∀ m ∈ new, Admitted mode room m.2) :
      Rearranged Admitted mode (.record fields) (room + 1) (.object ms none) (.object ms' none)
  | inMember {mode : Mode} {fields : List (String × Kind)} {room : Nat} {name : String} {kind : Kind}
      {key : Quoted} {r r' : Reading} (before after : List (Quoted × Reading))
      (field : (name, kind) ∈ fields) (named : key.exact = .ok name)
      (inside : Rearranged Admitted mode kind.shape room r r') :
      Rearranged Admitted mode (.record fields) (room + 1) (.object (before ++ (key, r) :: after) none)
        (.object (before ++ (key, r') :: after) none)
  /-- The fields of a structure may also stand in an array, in the order of the declaration. -/
  | inField {mode : Mode} {fields : List (String × Kind)} {room : Nat} {name : String} {kind : Kind}
      {r r' : Reading} (before after : List Reading) (field : fields[before.length]? = some (name, kind))
      (inside : Rearranged Admitted mode kind.shape room r r') :
      Rearranged Admitted mode (.record fields) (room + 1) (.array (before ++ r :: after) none)
        (.array (before ++ r' :: after) none)
  | inItem {mode : Mode} {kind : Kind} {room : Nat} {r r' : Reading} (before after : List Reading)
      (inside : Rearranged Admitted mode kind.shape room r r') :
      Rearranged Admitted mode (.list kind) (room + 1) (.array (before ++ r :: after) none)
        (.array (before ++ r' :: after) none)
  /-- The members of a tagged value are those of its variant, with the tag anywhere among them. -/
  | inVariant {mode : Mode} {tag : String} {variants : List (String × Shape)} {room i : Nat} {name : String}
      {shape : Shape} {key : Quoted} {r : Reading} (before after before' after' : List (Quoted × Reading))
      (tagged : key.exact = .ok tag) (variant : r.asVariant .stored (variants.map Prod.fst) = .ok i)
      (place : variants[i]? = some (name, shape))
      (single : ∀ m ∈ before' ++ after', m.1.exact ≠ .ok tag)
      (inside : Rearranged Admitted .stored shape (room + 1) (.object (before ++ after) none)
        (.object (before' ++ after') none)) :
      Rearranged Admitted mode (.tagged tag variants) (room + 1)
        (.object (before ++ (key, r) :: after) none) (.object (before' ++ (key, r) :: after') none)
  /-- A tagged value may also be an array that begins with the tag. -/
  | inContent {mode : Mode} {tag : String} {variants : List (String × Shape)} {room i : Nat} {name : String}
      {shape : Shape} {first : Reading} {items items' : List Reading}
      (variant : first.asVariant .stored (variants.map Prod.fst) = .ok i)
      (place : variants[i]? = some (name, shape))
      (inside : Rearranged Admitted .stored shape (room + 1) (.array items none) (.array items' none)) :
      Rearranged Admitted mode (.tagged tag variants) (room + 1) (.array (first :: items) none)
        (.array (first :: items') none)

/-- A value with nothing wrong in its brackets and marks that does not nest too deep. -/
def Reading.Fits (room : Nat) (r : Reading) : Prop := r.Whole ∧ r.nesting ≤ room

/-- A value that fits and, where it will be stored before it is passed over, is one that can be stored:
its numbers are within range and its surrogates have their partners. -/
def Reading.Passable (mode : Mode) (room : Nat) (r : Reading) : Prop :=
  r.Fits room ∧ (mode = .stored → ∃ j : Json, r = j.toReading)

/-! ### Passing over and checking -/

namespace Reading

theorem skipItems_of_forall {rs : List Reading} (h : ∀ r ∈ rs, r.skip = .ok ()) :
    skipItems rs = .ok () := by
  induction rs with
  | nil => rfl
  | cons r rs ih =>
    obtain ⟨first, others⟩ := List.forall_mem_cons.mp h
    rw [skipItems, first]
    exact ih others

theorem skipMembers_of_forall {ms : List (Quoted × Reading)} (keys : ∀ m ∈ ms, m.1.skipped = none)
    (h : ∀ m ∈ ms, m.2.skip = .ok ()) : skipMembers ms = .ok () := by
  induction ms with
  | nil => rfl
  | cons m ms ih =>
    obtain ⟨key, r⟩ := m
    obtain ⟨own, otherKeys⟩ := List.forall_mem_cons.mp keys
    obtain ⟨first, others⟩ := List.forall_mem_cons.mp h
    rw [skipMembers, first, own]
    exact ih otherKeys others

/-- A whole value is passed over. -/
theorem skip_of_whole {r : Reading} (whole : r.Whole) : r.skip = .ok () := by
  induction whole with
  | null | bool b | number exact | string exact => rfl
  | array parts ih =>
    rw [skip, skipItems_of_forall ih]
    rfl
  | object keys parts ih =>
    rw [skip, skipMembers_of_forall keys ih]
    rfl

theorem checkItems_iff {room : Nat} {rs : List Reading} :
    checkItems room rs = .ok () ↔ ∀ r ∈ rs, r.check room = .ok () := by
  induction rs with
  | nil => simp [checkItems]
  | cons r rs ih =>
    rw [List.forall_mem_cons, ← ih, checkItems]
    constructor
    · intro h
      obtain ⟨_, first, others⟩ := exists_of_bind h
      exact ⟨first, others⟩
    · rintro ⟨first, others⟩
      rw [first]
      exact others

/-- The members of an object are checked one by one. -/
theorem checkMembers_iff {room : Nat} {ms : List (Quoted × Reading)} :
    checkMembers room ms = .ok () ↔
      ∀ m ∈ ms, (∃ name, m.1.exact = .ok name) ∧ m.2.check room = .ok () := by
  induction ms with
  | nil => simp [checkMembers]
  | cons m ms ih =>
    obtain ⟨⟨exact, skipped⟩, r⟩ := m
    rw [List.forall_mem_cons, ← ih, checkMembers]
    constructor
    · intro h
      obtain ⟨_, own, h⟩ := exists_of_bind h
      obtain ⟨_, first, others⟩ := exists_of_bind h
      cases exact with
      | error f => cases own
      | ok name => exact ⟨⟨⟨name, rfl⟩, first⟩, others⟩
    · rintro ⟨⟨⟨name, rfl⟩, first⟩, others⟩
      rw [first]
      exact others

theorem check_array_iff {room : Nat} {items : List Reading} :
    (Reading.array items none).check (room + 1) = .ok () ↔ ∀ r ∈ items, r.check room = .ok () := by
  rw [← checkItems_iff, check]
  cases checkItems room items <;> rfl

theorem check_object_iff {room : Nat} {ms : List (Quoted × Reading)} :
    (Reading.object ms none).check (room + 1) = .ok () ↔
      ∀ m ∈ ms, (∃ name, m.1.exact = .ok name) ∧ m.2.check room = .ok () := by
  rw [← checkMembers_iff, check]
  cases checkMembers room ms <;> rfl

/-- A stored value that comes in as a new member passes the check. -/
theorem Passable.check {room : Nat} {r : Reading} (h : r.Passable .stored room) :
    r.check room = .ok () := by
  obtain ⟨⟨-, nests⟩, stored⟩ := h
  obtain ⟨j, rfl⟩ := stored rfl
  rw [nesting_toReading] at nests
  exact check_toReading j nests

end Reading

namespace Rearranged

variable {shape : Shape} {room : Nat} {r r' : Reading}

/-- What is stored passes the check after it has been rearranged, if it has passed before. -/
theorem check (h : Rearranged Reading.Passable .stored shape room r r')
    (own : r.check room = .ok ()) : r'.check room = .ok () := by
  generalize stored : Mode.stored = mode at h
  induction h with
  | members new order unknown admitted =>
    subst stored
    rw [Reading.check_object_iff] at own ⊢
    intro m hm
    rcases List.mem_append.mp (order.subset hm) with hm | hm
    · obtain ⟨key, same, -⟩ := unknown m hm
      exact ⟨⟨key, by rw [same]⟩, (admitted m hm).check⟩
    · exact own m hm
  | inMember before after field named inside ih =>
    rw [Reading.check_object_iff] at own ⊢
    rw [List.forall_mem_append, List.forall_mem_cons] at own ⊢
    exact ⟨own.1, ⟨own.2.1.1, ih own.2.1.2 stored⟩, own.2.2⟩
  | inField before after field inside ih =>
    rw [Reading.check_array_iff, List.forall_mem_append, List.forall_mem_cons] at own ⊢
    exact ⟨own.1, ih own.2.1 stored, own.2.2⟩
  | inItem before after inside ih =>
    rw [Reading.check_array_iff, List.forall_mem_append, List.forall_mem_cons] at own ⊢
    exact ⟨own.1, ih own.2.1 stored, own.2.2⟩
  | inVariant before after before' after' tagged variant place single inside ih =>
    rw [Reading.check_object_iff, List.forall_mem_append, List.forall_mem_cons] at own ⊢
    have others := ih (Reading.check_object_iff.mpr (List.forall_mem_append.mpr ⟨own.1, own.2.2⟩)) rfl
    rw [Reading.check_object_iff, List.forall_mem_append] at others
    exact ⟨others.1, own.2.1, others.2⟩
  | inContent variant place inside ih =>
    rw [Reading.check_array_iff, List.forall_mem_cons] at own ⊢
    exact ⟨own.1, Reading.check_array_iff.mp (ih (Reading.check_array_iff.mpr own.2) rfl)⟩

end Rearranged

end Json

end DeskScript
