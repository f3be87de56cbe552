import DeskScript.Proofs.Decoding

/-! What a reading must have held for a value to be read from it: each field of a structure and each item
of a list comes from a part of the reading, and the room for nesting has been enough. -/

namespace DeskScript.Json

/-- The items of an array or the values of the members of an object. -/
def Reading.parts : Reading → List Reading
  | .array items _ => items
  | .object members _ => members.map Prod.snd
  | _ => []

/-! ### Failures -/

theorem exists_of_bind {ε α β : Type} {x : Except ε α} {next : α → Except ε β} {b : β}
    (h : (x >>= next) = .ok b) : ∃ a, x = .ok a ∧ next a = .ok b := by
  cases x with
  | error e => cases h
  | ok a => exact ⟨a, rfl, h⟩

theorem exists_of_map {α β : Type} {x : Decoded α} {f : α → β} {b : β} (h : f <$> x = .ok b) :
    ∃ a, x = .ok a ∧ f a = b := by
  cases x with
  | error e => cases h
  | ok a => exact ⟨a, rfl, Except.ok.inj h⟩

/-- A reading of the wrong kind has no value. -/
theorem Reading.refuse_ne_ok {α : Type} (r : Reading) (wanted : String) (a : α) :
    r.refuse wanted ≠ .ok a := by
  intro h
  obtain ⟨found, -, h⟩ := exists_of_bind h
  cases h

theorem exists_of_mapM {α β : Type} {read : α → Decoded β} {xs : List α} {ys : List β}
    (h : xs.mapM read = .ok ys) :
    (∀ y ∈ ys, ∃ x ∈ xs, read x = .ok y) ∧ ∀ x ∈ xs, ∃ y, read x = .ok y := by
  induction xs generalizing ys with
  | nil =>
    cases h
    simp
  | cons x xs ih =>
    rw [List.mapM_cons] at h
    obtain ⟨y, first, h⟩ := exists_of_bind h
    obtain ⟨ys, others, h⟩ := exists_of_bind h
    cases h
    obtain ⟨back, forth⟩ := ih others
    refine ⟨List.forall_mem_cons.mpr ⟨⟨x, List.mem_cons_self, first⟩, fun y hy => ?_⟩,
      List.forall_mem_cons.mpr ⟨⟨y, first⟩, forth⟩⟩
    obtain ⟨x', hx', read'⟩ := back y hy
    exact ⟨x', List.mem_cons_of_mem x hx', read'⟩

/-- A list is read where there is room for one, each value from an item, and every item has one. -/
theorem Reading.exists_of_asList {α : Type} {room : Nat} {read : Nat → Reading → Decoded α}
    {r : Reading} {values : List α} (h : r.asList room read = .ok values) :
    ∃ less, room = less + 1 ∧ (∀ a ∈ values, ∃ part ∈ r.parts, read less part = .ok a) ∧
      ∀ part ∈ r.parts, ∃ a, read less part = .ok a := by
  unfold asList at h
  split at h
  · split at h
    · cases h
    · rename_i less
      obtain ⟨values', items, h⟩ := exists_of_bind h
      obtain ⟨_, -, h⟩ := exists_of_bind h
      cases h
      exact ⟨less, rfl, exists_of_mapM items⟩
  · exact absurd h (refuse_ne_ok _ _ _)

/-! ### Structures -/

namespace Fields

theorem Record.field_of_get {ι : Type} {α : ι → Type} {s : Record α} {i : ι} {a : α i}
    (h : s.get i = .ok a) : s.field i = some a := by
  unfold get at h
  split at h
  · rename_i field
    rw [field, Except.ok.inj h]
  · cases h

theorem Record.getD_eq {ι : Type} {α : ι → Type} (s : Record α) (i : ι) (d : α i) :
    s.getD i d = d ∨ s.field i = some (s.getD i d) := by
  unfold getD
  cases s.field i with
  | none => exact .inl rfl
  | some a => exact .inr rfl

variable {ι : Type} [DecidableEq ι] {α : ι → Type} {fields : Fields ι} {p q : Partial α}

theorem exists_of_set {i j : ι} {a : α i} {b : α j} (h : p.set i a j = some b) :
    p j = some b ∨ ∃ same : i = j, same ▸ a = b := by
  unfold Partial.set at h
  split at h
  · rename_i same
    exact .inr ⟨same, Option.some.inj h⟩
  · exact .inl h

/-- A field that members set is read from one of them. -/
theorem exists_of_readMembers {read : (i : ι) → Reading → Decoded (α i)}
    {ms : List (Quoted × Reading)} (h : fields.readMembers read ms p = .ok q) {i : ι} {a : α i} (set : q i = some a) :
    p i = some a ∨ ∃ part ∈ ms.map Prod.snd, read i part = .ok a := by
  induction ms generalizing p with
  | nil =>
    cases h
    exact .inl set
  | cons m ms ih =>
    obtain ⟨key, r⟩ := m
    obtain ⟨name, -, h⟩ := exists_of_bind h
    split at h
    · obtain ⟨_, -, h⟩ := exists_of_bind h
      rcases ih h with old | ⟨part, mem, value⟩
      · exact .inl old
      · exact .inr ⟨part, List.mem_cons_of_mem r mem, value⟩
    · rename_i j _
      split at h
      · cases h
      obtain ⟨b, value, h⟩ := exists_of_bind h
      rcases ih h with old | ⟨part, mem, value'⟩
      · rcases exists_of_set old with old | ⟨rfl, rfl⟩
        · exact .inl old
        · exact .inr ⟨r, List.mem_cons_self, value⟩
      · exact .inr ⟨part, List.mem_cons_of_mem r mem, value'⟩

/-- A field that items set is read from one of them. -/
theorem exists_of_readItems {read : (i : ι) → Reading → Decoded (α i)} {is : List ι}
    {rs rest : List Reading} (h : readItems read is rs p = .ok (q, rest)) {i : ι} {a : α i} (set : q i = some a) :
    p i = some a ∨ ∃ part ∈ rs, read i part = .ok a := by
  induction is generalizing rs p with
  | nil =>
    cases h
    exact .inl set
  | cons j is ih =>
    cases rs with
    | nil =>
      cases h
      exact .inl set
    | cons r rs =>
      obtain ⟨b, value, h⟩ := exists_of_bind h
      rcases ih h with old | ⟨part, mem, value'⟩
      · rcases exists_of_set old with old | ⟨rfl, rfl⟩
        · exact .inl old
        · exact .inr ⟨r, List.mem_cons_self, value⟩
      · exact .inr ⟨part, List.mem_cons_of_mem r mem, value'⟩

/-- A structure is read where there is room for one, and its fields are read from its parts. -/
theorem exists_of_readRecord {mode : Mode} {room : Nat} {read : Nat → (i : ι) → Reading → Decoded (α i)}
    {r : Reading} {s : Record α} (h : fields.readRecord mode room read r = .ok s) :
    ∃ less, room = less + 1 ∧
      ∀ i a, s.field i = some a → ∃ part ∈ r.parts, read less i part = .ok a := by
  unfold readRecord at h
  split at h
  · cases h
  · cases h
  · rename_i members ending less
    obtain ⟨p, members, h⟩ := exists_of_bind h
    obtain ⟨_, -, h⟩ := exists_of_bind h
    cases h
    exact ⟨less, rfl, fun i a set => (exists_of_readMembers members set).resolve_left (by simp)⟩
  · rename_i items ending less
    obtain ⟨⟨p, rest⟩, items, h⟩ := exists_of_bind h
    dsimp only at h
    split at h
    · obtain ⟨_, -, h⟩ := exists_of_bind h
      cases h
      exact ⟨less, rfl, fun i a set => (exists_of_readItems items set).resolve_left (by simp)⟩
    · split at h <;> cases h
  · exact absurd h (Reading.refuse_ne_ok _ _ _)

/-- Every member that is a field is read. -/
theorem reads_of_readMembers {read : (i : ι) → Reading → Decoded (α i)} {ms : List (Quoted × Reading)}
    (h : fields.readMembers read ms p = .ok q) {key : Quoted} {r : Reading} (member : (key, r) ∈ ms)
    {name : String} (known : key.exact = .ok name) {i : ι} (index : fields.index? name = some i) :
    ∃ a, read i r = .ok a := by
  induction ms generalizing p with
  | nil => cases member
  | cons m ms ih =>
    obtain ⟨key', r'⟩ := m
    obtain ⟨name', known', h⟩ := exists_of_bind h
    rcases List.mem_cons.mp member with same | member
    · cases same
      rw [known] at known'
      cases known'
      simp only [index] at h
      split at h
      · cases h
      obtain ⟨a, value, -⟩ := exists_of_bind h
      exact ⟨a, value⟩
    · split at h
      · obtain ⟨_, -, h⟩ := exists_of_bind h
        exact ih h member
      · split at h
        · cases h
        obtain ⟨_, -, h⟩ := exists_of_bind h
        exact ih h member

end Fields

/-! ### Tagged values -/

namespace Tags

variable {tags : Tags} {mode : Mode} {room : Nat}

theorem subset_of_readMembers {ms rest : List (Quoted × Reading)} {known variant : Option Nat}
    (h : tags.readMembers mode room ms known = .ok (variant, rest)) : rest ⊆ ms := by
  induction ms generalizing known variant rest with
  | nil =>
    cases h
    exact List.Subset.refl _
  | cons m ms ih =>
    obtain ⟨key, r⟩ := m
    obtain ⟨name, -, h⟩ := exists_of_bind h
    dsimp only at h
    split at h
    · split at h
      · cases h
      obtain ⟨i, -, h⟩ := exists_of_bind h
      exact List.subset_cons_of_subset _ (ih h)
    · obtain ⟨_, -, h⟩ := exists_of_bind h
      obtain ⟨⟨variant', rest'⟩, others, h⟩ := exists_of_bind h
      cases h
      exact List.cons_subset_cons _ (ih others)

/-- A tagged value is read where there is room for one, and what is left without the tag is part of
it. -/
theorem exists_of_read {r content : Reading} {i : Nat} (h : tags.read mode room r = .ok (i, content)) :
    (∃ less, room = less + 1) ∧ content.parts ⊆ r.parts := by
  unfold read at h
  split at h
  · cases h
  · cases h
  · rename_i members ending less
    obtain ⟨⟨variant, rest⟩, members, h⟩ := exists_of_bind h
    obtain ⟨_, -, h⟩ := exists_of_bind h
    split at h
    · cases h
      exact ⟨⟨less, rfl⟩, List.map_subset Prod.snd (subset_of_readMembers members)⟩
    · cases h
  · obtain ⟨_, -, h⟩ := exists_of_bind h
    cases h
  · rename_i first items ending less
    obtain ⟨_, -, h⟩ := exists_of_bind h
    obtain ⟨_, -, h⟩ := exists_of_bind h
    obtain ⟨_, -, h⟩ := exists_of_bind h
    cases h
    exact ⟨⟨less, rfl⟩, List.subset_cons_self first items⟩
  · exact absurd h (Reading.refuse_ne_ok _ _ _)

end Tags

/-! ### Nesting -/

mutual

/-- A value that passes nests no deeper than there is room. -/
theorem nesting_le_of_check (j : Json) {room : Nat} (h : j.toReading.check room = .ok ()) :
    j.nesting ≤ room := by
  cases j with
  | null | bool b | number n | string s => exact Nat.zero_le _
  | array items =>
    cases room with
    | zero => cases h
    | succ room =>
      obtain ⟨_, items', -⟩ := exists_of_bind h
      exact Nat.succ_le_succ (nestingOfItems_le_of_check items items')
  | object members =>
    cases room with
    | zero => cases h
    | succ room =>
      obtain ⟨_, members', -⟩ := exists_of_bind h
      exact Nat.succ_le_succ (nestingOfMembers_le_of_check members members')

theorem nestingOfItems_le_of_check (js : List Json) {room : Nat}
    (h : Reading.checkItems room (toReadings js) = .ok ()) : nestingOfItems js ≤ room := by
  cases js with
  | nil => exact Nat.zero_le _
  | cons j js =>
    obtain ⟨_, first, others⟩ := exists_of_bind h
    exact Nat.max_le.mpr ⟨nesting_le_of_check j first, nestingOfItems_le_of_check js others⟩

theorem nestingOfMembers_le_of_check (ms : List (String × Json)) {room : Nat}
    (h : Reading.checkMembers room (toMemberReadings ms) = .ok ()) : nestingOfMembers ms ≤ room := by
  cases ms with
  | nil => exact Nat.zero_le _
  | cons m ms =>
    obtain ⟨key, j⟩ := m
    obtain ⟨_, -, h⟩ := exists_of_bind h
    obtain ⟨_, first, others⟩ := exists_of_bind h
    exact Nat.max_le.mpr ⟨nesting_le_of_check j first, nestingOfMembers_le_of_check ms others⟩

end

/-- What tells a variant does not nest. -/
theorem nesting_of_asVariant {mode : Mode} {variants : List String} {j : Json} {i : Nat}
    (h : j.toReading.asVariant mode variants = .ok i) : j.nesting = 0 := by
  cases j with
  | null | bool b | number n | string s => rfl
  | array items | object members => exact absurd h (Reading.refuse_ne_ok _ _ _)

namespace Tags

variable {tags : Tags} {mode : Mode} {room : Nat}

theorem nestingOfMembers_le_of_read {ms : List (String × Json)} {known : Option Nat}
    {x : Option Nat × List (Quoted × Reading)}
    (h : tags.readMembers mode room (toMemberReadings ms) known = .ok x) :
    nestingOfMembers ms ≤ room := by
  induction ms generalizing known x with
  | nil => exact Nat.zero_le _
  | cons m ms ih =>
    obtain ⟨key, j⟩ := m
    obtain ⟨name, -, h⟩ := exists_of_bind h
    dsimp only at h
    split at h
    · split at h
      · cases h
      obtain ⟨i, tag, h⟩ := exists_of_bind h
      have flat : j.nesting ≤ room := by
        rw [nesting_of_asVariant tag]
        exact Nat.zero_le _
      exact Nat.max_le.mpr ⟨flat, ih h⟩
    · obtain ⟨_, first, h⟩ := exists_of_bind h
      obtain ⟨_, others, -⟩ := exists_of_bind h
      exact Nat.max_le.mpr ⟨nesting_le_of_check j first, ih others⟩

/-- A tagged value nests no deeper than there is room. -/
theorem nesting_le_of_read {ms : List (String × Json)} {x : Nat × Reading}
    (h : tags.read mode room (Json.object ms).toReading = .ok x) :
    (Json.object ms).nesting ≤ room := by
  cases room with
  | zero => cases h
  | succ room =>
    obtain ⟨_, members, -⟩ := exists_of_bind h
    exact Nat.succ_le_succ (nestingOfMembers_le_of_read members)

end Tags

end DeskScript.Json
