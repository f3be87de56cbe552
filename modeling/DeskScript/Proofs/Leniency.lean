import DeskScript.Proofs.Rearranging
import DeskScript.Script.Decode.Step

/-! What is read does not change when the text is rearranged: neither the order of members nor members
that are no fields tell in any structure or tagged value, at any depth and with tags inside of tags. -/

namespace DeskScript.Json

/-- What is read from a value of the shape is read after it has been rearranged, too. -/
def Lenient {α : Type} (mode : Mode) (shape : Shape) (room : Nat) (read : Reading → Decoded α) : Prop :=
  ∀ ⦃r r' : Reading⦄ ⦃a : α⦄, Rearranged Reading.Passable mode shape room r r' → read r = .ok a →
    read r' = .ok a

theorem exactly_eq_ok {α : Type} {x : Except Fault α} {a : α} : exactly x = .ok a ↔ x = .ok a := by
  cases x with
  | error f => exact ⟨nofun, nofun⟩
  | ok b =>
    constructor
    · rintro ⟨⟩
      rfl
    · rintro ⟨⟩
      rfl

namespace Lenient

variable {α β : Type} {mode : Mode} {shape : Shape} {room : Nat} {read : Reading → Decoded α}

theorem simple : Lenient mode .simple room read := nofun

/-- Nothing can be rearranged without room. -/
theorem noRoom : Lenient mode shape 0 read := nofun

theorem bind (h : Lenient mode shape room read) (next : α → Decoded β) :
    Lenient mode shape room fun r => read r >>= next := by
  intro r r' b edit value
  obtain ⟨a, own, rest⟩ := exists_of_bind value
  change (read r' >>= next) = .ok b
  rw [h edit own]
  exact rest

/-! ### Lists -/

theorem mapM_replace {f : Reading → Decoded α} {before after : List Reading} {r r' : Reading}
    {values : List α} (own : ∀ a, f r = .ok a → f r' = .ok a)
    (h : (before ++ r :: after).mapM f = .ok values) : (before ++ r' :: after).mapM f = .ok values := by
  induction before generalizing values with
  | nil =>
    rw [List.nil_append, List.mapM_cons] at h ⊢
    obtain ⟨a, value, rest⟩ := exists_of_bind h
    rw [own a value]
    exact rest
  | cons b before ih =>
    rw [List.cons_append, List.mapM_cons] at h ⊢
    obtain ⟨a, value, h⟩ := exists_of_bind h
    obtain ⟨others, rest, h⟩ := exists_of_bind h
    rw [value, ih rest]
    exact h

/-- A list is read leniently if its items are. -/
theorem list {kind : Kind} {read : Nat → Reading → Decoded α}
    (items : ∀ less, room = less + 1 → Lenient mode kind.shape less (read less)) :
    Lenient mode (.list kind) room (Reading.asList room read) := by
  intro r r' values edit value
  cases edit with
  | inItem before after inside =>
    obtain ⟨values', own, rest⟩ := exists_of_bind value
    change ((before ++ _ :: after).mapM (read _) >>= _) = _
    rw [mapM_replace (fun a => items _ rfl inside) own]
    exact rest

end Lenient

/-! ### Structures -/

namespace Fields

variable {ι : Type}

/-- The table `table` lists the fields with the kinds of their values, each under a name of its own. -/
structure Lists (fields : Fields ι) (kind : ι → Kind) (table : List (String × Kind)) : Prop where
  table : table = fields.all.map fun i => (fields.name i, kind i)
  apart : ∀ i ∈ fields.all, fields.index? (fields.name i) = some i

variable {fields : Fields ι} {kind : ι → Kind} {table : List (String × Kind)}

theorem Lists.index?_eq_none (lists : fields.Lists kind table) {name : String}
    (h : name ∉ table.map Prod.fst) : fields.index? name = none := by
  unfold index?
  rw [List.find?_eq_none]
  intro i hi same
  refine h ?_
  rw [lists.table, List.map_map, List.mem_map]
  exact ⟨i, hi, by simpa using same⟩

theorem Lists.exists_of_mem (lists : fields.Lists kind table) {name : String} {k : Kind}
    (h : (name, k) ∈ table) : ∃ i ∈ fields.all, fields.index? name = some i ∧ kind i = k := by
  rw [lists.table, List.mem_map] at h
  obtain ⟨i, hi, same⟩ := h
  cases same
  exact ⟨i, hi, lists.apart i hi, rfl⟩

theorem Lists.exists_of_getElem? (lists : fields.Lists kind table) {n : Nat} {name : String} {k : Kind}
    (h : table[n]? = some (name, k)) : ∃ i ∈ fields.all, fields.all[n]? = some i ∧ kind i = k := by
  rw [lists.table, List.getElem?_map, Option.map_eq_some_iff] at h
  obtain ⟨i, place, same⟩ := h
  cases same
  exact ⟨i, List.mem_of_getElem? place, place, rfl⟩

variable [DecidableEq ι] {α : ι → Type}

/-- How a member changes what is known of the fields. -/
inductive Takes (fields : Fields ι) (read : (i : ι) → Reading → Decoded (α i)) (p : Partial α) :
    Quoted × Reading → Partial α → Prop
  | unknown {key : Quoted} {r : Reading} {name : String} (own : key.exact = .ok name)
      (index : fields.index? name = none) (skip : r.skip = .ok ()) : Takes fields read p (key, r) p
  | field {key : Quoted} {r : Reading} {name : String} {i : ι} {a : α i} (own : key.exact = .ok name)
      (index : fields.index? name = some i) (fresh : p i = none) (value : read i r = .ok a) :
      Takes fields read p (key, r) (p.set i a)

variable {read : (i : ι) → Reading → Decoded (α i)} {p q p₁ p₂ : Partial α}
  {ms ms' : List (Quoted × Reading)} {m m₁ m₂ : Quoted × Reading}

theorem readMembers_cons_iff :
    fields.readMembers read (m :: ms) p = .ok q ↔
      ∃ p', Takes fields read p m p' ∧ fields.readMembers read ms p' = .ok q := by
  obtain ⟨key, r⟩ := m
  constructor
  · intro h
    obtain ⟨name, own, h⟩ := exists_of_bind h
    rw [exactly_eq_ok] at own
    split at h
    · rename_i index
      obtain ⟨_, skip, h⟩ := exists_of_bind h
      exact ⟨p, .unknown own index skip, h⟩
    · rename_i i index
      split at h
      · cases h
      rename_i fresh
      obtain ⟨a, value, h⟩ := exists_of_bind h
      exact ⟨p.set i a, .field own index (by simpa using fresh) value, h⟩
  · rintro ⟨p', takes, h⟩
    cases takes with
    | unknown own index skip => simp only [readMembers, own, exactly, index, skip, bind, Except.bind, h]
    | field own index fresh value =>
      simp only [readMembers, own, exactly, index, fresh, value, bind, Except.bind]
      exact h

theorem set_comm (p : Partial α) {i j : ι} (a : α i) (b : α j) (apart : i ≠ j) :
    (p.set i a).set j b = (p.set j b).set i a := by
  funext k
  by_cases hi : i = k
  · subst hi
    rw [Partial.set_of_ne _ b apart.symm, Partial.set_self, Partial.set_self]
  · by_cases hj : j = k
    · subst hj
      rw [Partial.set_self, Partial.set_of_ne _ a apart, Partial.set_self]
    · rw [Partial.set_of_ne _ b hj, Partial.set_of_ne _ a hi, Partial.set_of_ne _ a hi,
        Partial.set_of_ne _ b hj]

/-- Two members may change their places: a field is taken once, and an unknown member changes nothing. -/
theorem Takes.swap (first : Takes fields read p m₁ p₁) (second : Takes fields read p₁ m₂ p₂) :
    ∃ p', Takes fields read p m₂ p' ∧ Takes fields read p' m₁ p₂ := by
  cases first with
  | unknown own index skip =>
    cases second with
    | unknown own' index' skip' => exact ⟨p, .unknown own' index' skip', .unknown own index skip⟩
    | field own' index' fresh value => exact ⟨_, .field own' index' fresh value, .unknown own index skip⟩
  | @field key r name i a own index fresh value =>
    cases second with
    | unknown own' index' skip => exact ⟨p, .unknown own' index' skip, .field own index fresh value⟩
    | @field key' r' name' j b own' index' fresh' value' =>
      have apart : i ≠ j := by
        rintro rfl
        simp at fresh'
      rw [Partial.set_of_ne p a apart] at fresh'
      refine ⟨p.set j b, .field own' index' fresh' value', ?_⟩
      rw [set_comm p a b apart]
      refine .field own index ?_ value
      rw [Partial.set_of_ne p b apart.symm, fresh]

theorem readMembers_perm (order : ms.Perm ms') (h : fields.readMembers read ms p = .ok q) :
    fields.readMembers read ms' p = .ok q := by
  induction order generalizing p with
  | nil => exact h
  | cons m order ih =>
    obtain ⟨p', takes, h⟩ := readMembers_cons_iff.mp h
    exact readMembers_cons_iff.mpr ⟨p', takes, ih h⟩
  | swap m₁ m₂ ms =>
    obtain ⟨p₁, first, h⟩ := readMembers_cons_iff.mp h
    obtain ⟨p₂, second, h⟩ := readMembers_cons_iff.mp h
    obtain ⟨p', second, first⟩ := first.swap second
    exact readMembers_cons_iff.mpr ⟨p', second, readMembers_cons_iff.mpr ⟨p₂, first, h⟩⟩
  | trans _ _ first second => exact second (first h)

/-- Members that are no fields are passed over. -/
theorem readMembers_append {new : List (Quoted × Reading)}
    (unknown : ∀ m ∈ new, ∃ name, m.1.exact = .ok name ∧ fields.index? name = none)
    (skip : ∀ m ∈ new, m.2.skip = .ok ()) (h : fields.readMembers read ms p = .ok q) :
    fields.readMembers read (new ++ ms) p = .ok q := by
  induction new with
  | nil => exact h
  | cons m new ih =>
    obtain ⟨⟨name, own, index⟩, unknown⟩ := List.forall_mem_cons.mp unknown
    obtain ⟨first, others⟩ := List.forall_mem_cons.mp skip
    exact readMembers_cons_iff.mpr ⟨p, .unknown own index first, ih unknown others⟩

/-- The value of a field may be replaced by one from which the same is read. -/
theorem readMembers_replace {before after : List (Quoted × Reading)} {key : Quoted} {r r' : Reading}
    {name : String} {i : ι} (own : key.exact = .ok name) (index : fields.index? name = some i)
    (same : ∀ a, read i r = .ok a → read i r' = .ok a)
    (h : fields.readMembers read (before ++ (key, r) :: after) p = .ok q) :
    fields.readMembers read (before ++ (key, r') :: after) p = .ok q := by
  induction before generalizing p with
  | nil =>
    obtain ⟨p', takes, h⟩ := readMembers_cons_iff.mp h
    refine readMembers_cons_iff.mpr ⟨p', ?_, h⟩
    cases takes with
    | unknown own' index' skip =>
      rw [own] at own'
      cases own'
      rw [index] at index'
      cases index'
    | field own' index' fresh value =>
      rw [own] at own'
      cases own'
      rw [index] at index'
      cases index'
      exact .field own index fresh (same _ value)
  | cons m before ih =>
    obtain ⟨p', takes, h⟩ := readMembers_cons_iff.mp h
    exact readMembers_cons_iff.mpr ⟨p', takes, ih h⟩

theorem readItems_replace {is : List ι} {before after : List Reading} {r r' : Reading} {i : ι}
    {x : Partial α × List Reading} (index : is[before.length]? = some i)
    (same : ∀ a, read i r = .ok a → read i r' = .ok a)
    (h : readItems read is (before ++ r :: after) p = .ok x) :
    readItems read is (before ++ r' :: after) p = .ok x := by
  induction before generalizing is p with
  | nil =>
    obtain _ | ⟨j, is⟩ := is
    · cases index
    cases index
    obtain ⟨a, value, h⟩ := exists_of_bind h
    rw [List.nil_append, readItems, same a value]
    exact h
  | cons b before ih =>
    obtain _ | ⟨j, is⟩ := is
    · cases index
    obtain ⟨a, value, h⟩ := exists_of_bind h
    rw [List.cons_append, readItems, value]
    exact ih index h

/-- A structure is read leniently if the values of its fields are. -/
theorem Lists.lenient (lists : fields.Lists kind table) {mode mode' : Mode} {room : Nat}
    {read : Nat → (i : ι) → Reading → Decoded (α i)}
    (parts : ∀ less, room = less + 1 → ∀ i ∈ fields.all, Lenient mode (kind i).shape less (read less i)) :
    Lenient mode (.record table) room (fields.readRecord mode' room read) := by
  intro r r' s edit value
  cases edit with
  | members new order unknown admitted =>
    obtain ⟨p, own, rest⟩ := exists_of_bind value
    have known : ∀ m ∈ new, ∃ name, m.1.exact = .ok name ∧ fields.index? name = none := by
      intro m hm
      obtain ⟨name, same, other⟩ := unknown m hm
      exact ⟨name, by rw [same], lists.index?_eq_none other⟩
    have skip : ∀ m ∈ new, m.2.skip = .ok () := fun m hm => Reading.skip_of_whole (admitted m hm).1.1
    rw [readRecord, readMembers_perm order.symm (readMembers_append known skip own)]
    exact rest
  | inMember before after field named inside =>
    obtain ⟨i, hi, index, rfl⟩ := lists.exists_of_mem field
    obtain ⟨p, own, rest⟩ := exists_of_bind value
    rw [readRecord, readMembers_replace named index (fun a => parts _ rfl i hi inside) own]
    exact rest
  | @inField _ _ _ _ _ r r' before after field inside =>
    obtain ⟨i, hi, index, rfl⟩ := lists.exists_of_getElem? field
    obtain ⟨x, own, rest⟩ := exists_of_bind value
    have length : (before ++ r' :: after).length = (before ++ r :: after).length := by
      rw [List.length_append, List.length_cons, List.length_append, List.length_cons]
    rw [readRecord, readItems_replace index (fun a => parts _ rfl i hi inside) own, length]
    exact rest

end Fields

/-! ### Tagged values -/

theorem Reading.asVariant_stored {mode : Mode} {variants : List String} {r : Reading} {i : Nat}
    (h : r.asVariant mode variants = .ok i) : r.asVariant .stored variants = .ok i := by
  cases mode with
  | stored => exact h
  | streamed =>
    cases r with
    | number exact skipped =>
      rcases exact with f | n | x
      · exact absurd h (refuse_ne_ok _ _ _)
      · exact absurd h (refuse_ne_ok _ _ _)
      · exact absurd h (refuse_ne_ok _ _ _)
    | _ => exact h

namespace Tags

variable {tags : Tags} {mode : Mode} {room : Nat}

/-- The member has nothing to do with the tag and can be stored. -/
def Bystander (tags : Tags) (room : Nat) (m : Quoted × Reading) : Prop :=
  (∃ name, m.1.exact = .ok name ∧ name ≠ tags.tag) ∧ m.2.check room = .ok ()

variable {ms before after rest : List (Quoted × Reading)} {known variant : Option Nat} {key : Quoted}
  {r : Reading} {i : Nat}

theorem readMembers_cons_iff :
    tags.readMembers mode room ((key, r) :: ms) known = .ok (variant, rest) ↔
      (key.exact = .ok tags.tag ∧ known = none ∧ ∃ i, r.asVariant mode tags.variants = .ok i ∧
        tags.readMembers mode room ms (some i) = .ok (variant, rest)) ∨
      (tags.Bystander room (key, r) ∧ ∃ others, rest = (key, r) :: others ∧
        tags.readMembers mode room ms known = .ok (variant, others)) := by
  constructor
  · intro h
    obtain ⟨name, own, h⟩ := exists_of_bind h
    rw [exactly_eq_ok] at own
    dsimp only at h
    split at h
    · rename_i same
      split at h
      · cases h
      rename_i fresh
      obtain ⟨i, value, h⟩ := exists_of_bind h
      refine .inl ⟨?_, by simpa using fresh, i, value, h⟩
      rw [own, beq_iff_eq.mp same]
    · rename_i other
      obtain ⟨_, check, h⟩ := exists_of_bind h
      obtain ⟨x, later, h⟩ := exists_of_bind h
      cases h
      exact .inr ⟨⟨⟨name, own, by simpa using other⟩, check⟩, _, rfl, later⟩
  · rintro (⟨own, rfl, i, value, h⟩ | ⟨⟨⟨name, own, other⟩, check⟩, others, rfl, h⟩)
    · simp only [readMembers, own, exactly, beq_self_eq_true, if_true, value, bind, Except.bind]
      exact h
    · have own : key.exact = .ok name := own
      have check : r.check room = .ok () := check
      have apart : (name == tags.tag) = false := by simpa using other
      simp only [readMembers, own, exactly, apart, check, h, bind, Except.bind]
      rfl

theorem Bystander.not_tag (h : tags.Bystander room (key, r)) : key.exact ≠ .ok tags.tag := by
  obtain ⟨⟨name, own, other⟩, -⟩ := h
  rintro same
  exact other (Except.ok.inj (own.symm.trans same))

/-- Once the tag is known all members are bystanders, and all of them are kept. -/
theorem readMembers_some_iff :
    tags.readMembers mode room ms (some i) = .ok (variant, rest) ↔
      (∀ m ∈ ms, tags.Bystander room m) ∧ variant = some i ∧ rest = ms := by
  induction ms generalizing rest with
  | nil =>
    constructor
    · intro h
      cases h
      exact ⟨List.forall_mem_nil _, rfl, rfl⟩
    · rintro ⟨-, rfl, rfl⟩
      rfl
  | cons m ms ih =>
    obtain ⟨key, r⟩ := m
    rw [readMembers_cons_iff, List.forall_mem_cons]
    constructor
    · rintro (⟨-, none, -⟩ | ⟨own, others, rfl, h⟩)
      · cases none
      · obtain ⟨later, rfl, rfl⟩ := ih.mp h
        exact ⟨⟨own, later⟩, rfl, rfl⟩
    · rintro ⟨⟨own, later⟩, rfl, rfl⟩
      exact .inr ⟨own, ms, rfl, ih.mpr ⟨later, rfl, rfl⟩⟩

/-- A tagged value is read with its tag anywhere among the other members. -/
theorem readMembers_tagged_iff (own : key.exact = .ok tags.tag) :
    tags.readMembers mode room (before ++ (key, r) :: after) none = .ok (variant, rest) ↔
      (∀ m ∈ before ++ after, tags.Bystander room m) ∧ rest = before ++ after ∧
        ∃ i, r.asVariant mode tags.variants = .ok i ∧ variant = some i := by
  induction before generalizing rest with
  | nil =>
    rw [List.nil_append, List.nil_append, readMembers_cons_iff]
    constructor
    · rintro (⟨-, -, i, value, h⟩ | ⟨bystander, -⟩)
      · obtain ⟨later, rfl, rfl⟩ := readMembers_some_iff.mp h
        exact ⟨later, rfl, i, value, rfl⟩
      · exact absurd own bystander.not_tag
    · rintro ⟨later, rfl, i, value, rfl⟩
      exact .inl ⟨own, rfl, i, value, readMembers_some_iff.mpr ⟨later, rfl, rfl⟩⟩
  | cons m before ih =>
    obtain ⟨key', r'⟩ := m
    rw [List.cons_append, List.cons_append, readMembers_cons_iff, List.forall_mem_cons]
    constructor
    · rintro (⟨-, -, i, -, h⟩ | ⟨bystander, others, rfl, h⟩)
      · have second := (readMembers_some_iff.mp h).1 (key, r) (by simp)
        exact absurd own second.not_tag
      · obtain ⟨later, rfl, value⟩ := ih.mp h
        exact ⟨⟨bystander, later⟩, rfl, value⟩
    · rintro ⟨⟨bystander, later⟩, rfl, value⟩
      exact .inr ⟨bystander, before ++ after, rfl, ih.mpr ⟨later, rfl, value⟩⟩

/-- A value with its tag anywhere among its members is read as what the tag says, if all other members
have nothing to do with the tag and can be stored. -/
theorem read_object_iff (own : key.exact = .ok tags.tag) {x : Nat × Reading} :
    tags.read mode (room + 1) (.object (before ++ (key, r) :: after) none) = .ok x ↔
      (∀ m ∈ before ++ after, tags.Bystander room m) ∧
        ∃ i, r.asVariant mode tags.variants = .ok i ∧ x = (i, .object (before ++ after) none) := by
  constructor
  · intro h
    obtain ⟨⟨variant, rest⟩, members, h⟩ := exists_of_bind h
    obtain ⟨others, rfl, i, value, rfl⟩ := (readMembers_tagged_iff own).mp members
    cases h
    exact ⟨others, i, value, rfl⟩
  · rintro ⟨others, i, value, rfl⟩
    rw [read, (readMembers_tagged_iff own).mpr ⟨others, rfl, i, value, rfl⟩]
    rfl

theorem read_array_iff {first : Reading} {items : List Reading} {x : Nat × Reading} :
    tags.read mode (room + 1) (.array (first :: items) none) = .ok x ↔
      Reading.checkItems room items = .ok () ∧
        ∃ i, first.asVariant mode tags.variants = .ok i ∧ x = (i, .array items none) := by
  constructor
  · intro h
    obtain ⟨i, value, h⟩ := exists_of_bind h
    obtain ⟨_, check, h⟩ := exists_of_bind h
    cases h
    exact ⟨check, i, value, rfl⟩
  · rintro ⟨check, i, value, rfl⟩
    rw [read, value]
    change (Reading.checkItems room items >>= _) = _
    rw [check]
    rfl

/-- What is made of a tagged value is read leniently if it is for each variant without the tag. -/
theorem lenient (tags : Tags) {variants : List (String × Shape)} {β : Type}
    {next : Nat × Reading → Decoded β} (names : tags.variants = variants.map Prod.fst)
    (each : ∀ v ∈ variants.zipIdx, Lenient .stored v.1.2 room fun content => next (v.2, content)) :
    Lenient mode (.tagged tags.tag variants) room fun r => tags.read mode room r >>= next := by
  have same {r : Reading} {i j : Nat} (value : r.asVariant mode tags.variants = .ok i)
      (variant : r.asVariant .stored (variants.map Prod.fst) = .ok j) : i = j := by
    rw [← names] at variant
    exact Except.ok.inj ((Reading.asVariant_stored value).symm.trans variant)
  intro r r' b edit value
  obtain ⟨x, own, rest⟩ := exists_of_bind value
  cases edit with
  | @inVariant _ _ _ room i name shape key r before after before' after' tagged variant place single inside =>
    obtain ⟨others, j, value, rfl⟩ := (read_object_iff tagged).mp own
    obtain rfl := same value variant
    have stored := Reading.check_object_iff.mpr fun m hm =>
      ⟨(others m hm).1.imp fun _ own => own.1, (others m hm).2⟩
    have others' : ∀ m ∈ before' ++ after', tags.Bystander room m := by
      intro m hm
      obtain ⟨⟨name, own⟩, check⟩ := Reading.check_object_iff.mp (inside.check stored) m hm
      refine ⟨⟨name, own, ?_⟩, check⟩
      rintro rfl
      exact single m hm own
    have new := (read_object_iff tagged).mpr ⟨others', j, value, rfl⟩
    change (tags.read mode (room + 1) _ >>= next) = _
    rw [new]
    exact each ((name, shape), j) (List.mem_zipIdx_iff_getElem?.mpr place) inside rest
  | @inContent _ _ _ room i name shape first items items' variant place inside =>
    obtain ⟨check, j, value, rfl⟩ := read_array_iff.mp own
    obtain rfl := same value variant
    have stored := Reading.check_array_iff.mpr (Reading.checkItems_iff.mp check)
    have check' := Reading.checkItems_iff.mpr (Reading.check_array_iff.mp (inside.check stored))
    have new := read_array_iff.mpr ⟨check', j, value, rfl⟩
    change (tags.read mode (room + 1) _ >>= next) = _
    rw [new]
    exact each ((name, shape), j) (List.mem_zipIdx_iff_getElem?.mpr place) inside rest

end Tags

end DeskScript.Json
