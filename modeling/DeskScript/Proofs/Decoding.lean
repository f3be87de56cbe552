import DeskScript.Json.Fields
import Mathlib.Tactic.Common

/-! Values out of readings of whole JSON values: a structure gets each field from the member with its
name. -/

namespace DeskScript.Json

/-! ### Nesting -/

mutual

/-- How many arrays and objects are one inside the other. -/
def nesting : Json → Nat
  | .null | .bool _ | .number _ | .string _ => 0
  | .array items => nestingOfItems items + 1
  | .object members => nestingOfMembers members + 1

def nestingOfItems : List Json → Nat
  | [] => 0
  | j :: js => max (nesting j) (nestingOfItems js)

def nestingOfMembers : List (String × Json) → Nat
  | [] => 0
  | (_, j) :: ms => max (nesting j) (nestingOfMembers ms)

end

theorem nestingOfMembers_append (ms ms' : List (String × Json)) :
    nestingOfMembers (ms ++ ms') = max (nestingOfMembers ms) (nestingOfMembers ms') := by
  induction ms with
  | nil => rw [List.nil_append, nestingOfMembers, Nat.zero_max]
  | cons m ms ih => rw [List.cons_append, nestingOfMembers, nestingOfMembers, ih, Nat.max_assoc]

mutual

/-- A value that nests no deeper than there is room passes. -/
theorem check_toReading (j : Json) {room : Nat} (h : j.nesting ≤ room) :
    j.toReading.check room = .ok () := by
  cases j with
  | null | bool b | number n | string s => rfl
  | array items =>
    rw [nesting] at h
    obtain ⟨room, rfl⟩ := Nat.exists_eq_add_of_le' (Nat.le_of_add_left_le h)
    rw [toReading, Reading.check, checkItems_toReadings items (Nat.le_of_succ_le_succ h)]
    rfl
  | object members =>
    rw [nesting] at h
    obtain ⟨room, rfl⟩ := Nat.exists_eq_add_of_le' (Nat.le_of_add_left_le h)
    rw [toReading, Reading.check, checkMembers_toMemberReadings members (Nat.le_of_succ_le_succ h)]
    rfl

theorem checkItems_toReadings (js : List Json) {room : Nat} (h : nestingOfItems js ≤ room) :
    Reading.checkItems room (toReadings js) = .ok () := by
  cases js with
  | nil => rfl
  | cons j js =>
    rw [nestingOfItems] at h
    rw [toReadings, Reading.checkItems, check_toReading j (Nat.le_trans (Nat.le_max_left _ _) h)]
    exact checkItems_toReadings js (Nat.le_trans (Nat.le_max_right _ _) h)

theorem checkMembers_toMemberReadings (ms : List (String × Json)) {room : Nat}
    (h : nestingOfMembers ms ≤ room) : Reading.checkMembers room (toMemberReadings ms) = .ok () := by
  cases ms with
  | nil => rfl
  | cons m ms =>
    obtain ⟨key, j⟩ := m
    rw [nestingOfMembers] at h
    rw [toMemberReadings, Reading.checkMembers, check_toReading j (Nat.le_trans (Nat.le_max_left _ _) h)]
    exact checkMembers_toMemberReadings ms (Nat.le_trans (Nat.le_max_right _ _) h)

end

/-! ### Simple values -/

theorem asInt32_toReading (n : Int32) : (Json.int n.toInt).toReading.asInt32 = .ok n := by
  have low : Int32.minValue.toInt ≤ n.toInt := Int32.minValue_le_toInt n
  have high : n.toInt ≤ Int32.maxValue.toInt := Int32.toInt_le n
  unfold int
  rw [toReading, Reading.asInt32, if_pos ⟨low, high⟩, Int32.ofInt_toInt]

theorem asWord_toReading (wanted : String) (n : UInt64) :
    (Json.int n.toNat).toReading.asWord wanted = .ok n := by
  have sign : ¬ (n.toNat : Int) < 0 := by omega
  unfold int
  rw [toReading, Reading.asWord, if_neg sign]
  simp

theorem mapM_ok {α β : Type} {read : β → Decoded α} {write : α → β} {xs : List α}
    (h : ∀ x ∈ xs, read (write x) = .ok x) : (xs.map write).mapM read = .ok xs := by
  induction xs with
  | nil => rfl
  | cons x xs ih =>
    obtain ⟨first, others⟩ := List.forall_mem_cons.mp h
    rw [List.map_cons, List.mapM_cons, first, ih others]
    rfl

theorem toReadings_eq (js : List Json) : toReadings js = js.map toReading := by
  induction js with
  | nil => rfl
  | cons j js ih => rw [toReadings, ih, List.map_cons]

/-- A list is read item by item. -/
theorem asList_toReading {α : Type} {room : Nat} {read : Nat → Reading → Decoded α} {write : α → Json}
    {xs : List α} (h : ∀ x ∈ xs, read room (write x).toReading = .ok x) :
    (Json.array (xs.map write)).toReading.asList (room + 1) read = .ok xs := by
  have items : (xs.map (toReading ∘ write)).mapM (read room) = .ok xs := mapM_ok h
  rw [toReading, Reading.asList, toReadings_eq, List.map_map, items]
  rfl

/-! ### Structures -/

theorem key_of_mem_optional {β : Type} {name : String} {x : Option β} {f : β → Json}
    {m : String × Json} (h : m ∈ Json.optional name x f) : m.1 = name := by
  cases x with
  | none => cases h
  | some b => rw [List.mem_singleton.mp h]

@[simp] theorem getD_map_some {β : Type} (x : Option β) : (x.map some).getD none = x := by
  cases x <;> rfl

@[simp] theorem Partial.empty_apply {ι : Type} {α : ι → Type} (i : ι) :
    (Partial.empty : Partial α) i = none := rfl

theorem Fields.Record.get_of_field {ι : Type} {α : ι → Type} {s : Record α} {i : ι} {a : α i}
    (h : s.field i = some a) : s.get i = .ok a := by
  rw [get, h]

theorem Fields.Record.getD_of_field {ι : Type} {α : ι → Type} {s : Record α} {i : ι} {a : α i}
    (d : α i) (h : s.field i = some a) : s.getD i d = a := by
  rw [getD, h, Option.getD_some]

section

variable {ι : Type} [DecidableEq ι] {α : ι → Type}

@[simp] theorem Partial.set_self (p : Partial α) (i : ι) (a : α i) : p.set i a i = some a := by
  simp [Partial.set]

@[simp] theorem Partial.set_of_ne (p : Partial α) {i j : ι} (a : α i) (h : i ≠ j) : p.set i a j = p j := by
  simp [Partial.set, h]

/-- With the field `i` if there is a value for it. -/
def Partial.setIf (p : Partial α) (i : ι) : Option (α i) → Partial α
  | some a => p.set i a
  | none => p

@[simp] theorem Partial.setIf_self (p : Partial α) {i : ι} (x : Option (α i)) (fresh : p i = none) :
    p.setIf i x i = x := by
  cases x with
  | none => exact fresh
  | some a => exact p.set_self i a

@[simp] theorem Partial.setIf_of_ne (p : Partial α) {i j : ι} (x : Option (α i)) (h : i ≠ j) :
    p.setIf i x j = p j := by
  cases x with
  | none => rfl
  | some a => exact p.set_of_ne a h

namespace Fields

variable {fields : Fields ι} {read : (i : ι) → Reading → Decoded (α i)} {p : Partial α} {i : ι}
  {key : String} {ms : List (String × Json)}

theorem readMembers_cons {j : Json} {a : α i} (index : fields.index? key = some i) (fresh : p i = none)
    (value : read i j.toReading = .ok a) :
    fields.readMembers read (toMemberReadings ((key, j) :: ms)) p =
      fields.readMembers read (toMemberReadings ms) (p.set i a) := by
  simp only [toMemberReadings, readMembers, exactly, index, fresh, value, bind, Except.bind]
  rfl

/-- The first member sets its field, and the others are read after it. -/
theorem readMembers_set {j : Json} {a : α i} {r : Decoded (Partial α)}
    (index : fields.index? key = some i) (fresh : p i = none) (value : read i j.toReading = .ok a)
    (rest : fields.readMembers read (toMemberReadings ms) (p.set i a) = r) :
    fields.readMembers read (toMemberReadings ((key, j) :: ms)) p = r :=
  (readMembers_cons index fresh value).trans rest

theorem readMembers_optional {β : Type} {x : Option β} {f : β → Json} {g : β → α i}
    (index : fields.index? key = some i) (fresh : p i = none)
    (value : ∀ b, read i (f b).toReading = .ok (g b)) :
    fields.readMembers read (toMemberReadings (Json.optional key x f ++ ms)) p =
      fields.readMembers read (toMemberReadings ms) (p.setIf i (x.map g)) := by
  cases x with
  | none => rfl
  | some b => exact readMembers_cons index fresh (value b)

theorem readRecord_toReading {mode : Mode} {room : Nat} {read : Nat → (i : ι) → Reading → Decoded (α i)}
    (h : fields.readMembers (read room) (toMemberReadings ms) .empty = .ok p) :
    fields.readRecord mode (room + 1) read (Json.object ms).toReading =
      .ok ⟨p, fun i => .missingField (fields.name i)⟩ := by
  simp only [toReading, readRecord, h, unless?, bind, Except.bind]
  rfl

variable {mode : Mode} {room : Nat} {reads : Nat → (i : ι) → Reading → Decoded (α i)} {β : Type}
  {next : Record α → Decoded β} {r : Decoded β}

/-- What is made of the fields of a structure. -/
theorem readRecord_bind (members : fields.readMembers (reads room) (toMemberReadings ms) .empty = .ok p)
    (result : ∀ s, s.field = p → next s = r) :
    (fields.readRecord mode (room + 1) reads (Json.object ms).toReading >>= next) = r := by
  rw [readRecord_toReading members]
  exact result _ rfl

/-- What is made of a structure with one member. -/
theorem readRecord_single {j : Json} {a : α i} (index : fields.index? key = some i)
    (value : reads room i j.toReading = .ok a) (result : ∀ s, s.get i = .ok a → next s = r) :
    (fields.readRecord mode (room + 1) reads (Json.object [(key, j)]).toReading >>= next) = r := by
  refine readRecord_bind (readMembers_cons index rfl value) fun s field => result s ?_
  apply Record.get_of_field
  rw [field, Partial.set_self]

/-- What is made of a structure with two members. -/
theorem readRecord_pair {k : ι} {key' : String} {j j' : Json} {a : α i} {b : α k}
    (index : fields.index? key = some i) (value : reads room i j.toReading = .ok a)
    (index' : fields.index? key' = some k) (value' : reads room k j'.toReading = .ok b) (apart : i ≠ k)
    (result : ∀ s, s.get i = .ok a → s.field k = some b → next s = r) :
    (fields.readRecord mode (room + 1) reads (Json.object [(key, j), (key', j')]).toReading >>= next) =
      r := by
  have fresh : (Partial.empty.set i a : Partial α) k = none := Partial.set_of_ne _ a apart
  have first := @readMembers_cons _ _ _ fields (reads room) .empty i key [(key', j')] j a index rfl value
  refine readRecord_bind (first.trans (readMembers_cons index' fresh value')) fun s field => ?_
  refine result s (Record.get_of_field ?_) ?_
  · rw [field, Partial.set_of_ne _ b apart.symm, Partial.set_self]
  · rw [field, Partial.set_self]

end Fields

end

/-! ### Tagged values -/

namespace Tags

variable {tags : Tags} {mode : Mode} {room : Nat}

theorem readMembers_toMemberReadings {ms : List (String × Json)} {variant : Option Nat}
    (keys : ∀ m ∈ ms, m.1 ≠ tags.tag) (h : nestingOfMembers ms ≤ room) :
    tags.readMembers mode room (toMemberReadings ms) variant = .ok (variant, toMemberReadings ms) := by
  induction ms with
  | nil => rfl
  | cons m ms ih =>
    obtain ⟨key, j⟩ := m
    obtain ⟨first, others⟩ := List.forall_mem_cons.mp keys
    rw [nestingOfMembers] at h
    have apart : (key == tags.tag) = false := by simpa using first
    have check := check_toReading j (Nat.le_trans (Nat.le_max_left _ _) h)
    have rest := ih others (Nat.le_trans (Nat.le_max_right _ _) h)
    simp only [toMemberReadings, readMembers, exactly, apart, check, rest, bind, Except.bind]
    rfl

/-- A value with its tag in front is read as the variant that the tag names, without the tag. -/
theorem read_toReading {name : String} {i : Nat} {ms : List (String × Json)}
    (index : tags.variants.findIdx? (· == name) = some i) (keys : ∀ m ∈ ms, m.1 ≠ tags.tag)
    (h : (Json.object ((tags.tag, .string name) :: ms)).nesting ≤ room) :
    tags.read mode room (Json.object ((tags.tag, .string name) :: ms)).toReading =
      .ok (i, (Json.object ms).toReading) := by
  rw [nesting, nestingOfMembers, nesting, Nat.zero_max] at h
  obtain ⟨room, rfl⟩ := Nat.exists_eq_add_of_le' (Nat.le_of_add_left_le h)
  have rest := @readMembers_toMemberReadings tags mode room ms (some i) keys (Nat.le_of_succ_le_succ h)
  have variant : variantNamed tags.variants name = .ok i := by
    unfold variantNamed
    rw [index]
  simp only [toReading, toMemberReadings, read, readMembers, exactly, beq_self_eq_true, if_true,
    Reading.asVariant, variant, rest, unless?, bind, Except.bind]
  rfl

/-- What is made of a value with its tag in front. -/
theorem read_bind {β : Type} {next : Nat × Reading → Decoded β} {r : Decoded β} {name : String} {i : Nat}
    {ms : List (String × Json)} (index : tags.variants.findIdx? (· == name) = some i)
    (keys : ∀ m ∈ ms, m.1 ≠ tags.tag) (h : (Json.object ((tags.tag, .string name) :: ms)).nesting ≤ room)
    (result : next (i, (Json.object ms).toReading) = r) :
    (tags.read mode room (Json.object ((tags.tag, .string name) :: ms)).toReading >>= next) = r := by
  rw [read_toReading index keys h]
  exact result

end Tags

end DeskScript.Json
