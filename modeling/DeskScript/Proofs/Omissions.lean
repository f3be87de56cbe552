import DeskScript.Proofs.Saving
import DeskScript.Proofs.Scanning
import Mathlib.Data.List.Sublists

/-! Configurations from a part of their text: what is left out has its usual value, and what is there may
come in any order. Values are held to their ranges only then. -/

namespace DeskScript

open Json

/-! ### Members in any order -/

theorem Json.forall_mem_numbersOfMembers {P : Json.Number → Prop} {ms : List (String × Json)} :
    (∀ n ∈ numbersOfMembers ms, P n) ↔ ∀ m ∈ ms, ∀ n ∈ m.2.numbers, P n := by
  induction ms with
  | nil => simp [numbersOfMembers]
  | cons m ms ih => rw [numbersOfMembers, List.forall_mem_append, List.forall_mem_cons, ih]

namespace Json.Fields

variable {ι : Type} [DecidableEq ι] {α : ι → Type} {fields : Fields ι}
  {read : (i : ι) → Reading → Decoded (α i)} {write : ι → Json} {value : (i : ι) → α i}

/-- The members of an object for the fields of the list, in its order. -/
def members (fields : Fields ι) (write : ι → Json) (order : List ι) : List (String × Json) :=
  order.map fun i => (fields.name i, write i)

/-- Each of the members sets its field, and no other field is set. -/
theorem readMembers_members {order : List ι} (distinct : order.Nodup)
    (named : ∀ i ∈ order, fields.index? (fields.name i) = some i)
    (values : ∀ i ∈ order, read i (write i).toReading = .ok (value i)) {p : Partial α}
    (fresh : ∀ i ∈ order, p i = none) :
    fields.readMembers read (toMemberReadings (fields.members write order)) p =
      .ok fun i => if i ∈ order then some (value i) else p i := by
  induction order generalizing p with
  | nil => simp [members, toMemberReadings, readMembers]
  | cons i order ih =>
    have apart : i ∉ order := (List.nodup_cons.mp distinct).1
    have first := fresh i List.mem_cons_self
    have later : ∀ k ∈ order, p.set i (value i) k = none := by
      intro k hk
      have other : i ≠ k := fun same => apart (same ▸ hk)
      rw [Partial.set_of_ne p (value i) other]
      exact fresh k (List.mem_cons_of_mem i hk)
    have rest := ih (List.nodup_cons.mp distinct).2
      (fun k hk => named k (List.mem_cons_of_mem i hk))
      (fun k hk => values k (List.mem_cons_of_mem i hk)) later
    change fields.readMembers read
      (toMemberReadings ((fields.name i, write i) :: fields.members write order)) p = _
    rw [readMembers_cons (named i List.mem_cons_self) first (values i List.mem_cons_self), rest]
    congr 1
    funext k
    by_cases same : i = k
    · subst same
      simp [apart]
    · have other : ¬ k = i := Ne.symm same
      simp [same, other]

/-- What a field of a structure is read as if it is left out or not. -/
theorem Record.getD_of_members {s : Record α} {order : List ι}
    (set : s.field = fun i => if i ∈ order then some (value i) else none) (i : ι) (d : α i) :
    s.getD i d = if i ∈ order then value i else d := by
  rw [Record.getD, set]
  by_cases kept : i ∈ order <;> simp [kept]

end Json.Fields

namespace Config

/-! ### Fields -/

/-- The fields of a section in the order in which they are written. -/
def Section.fields : Section → List Field
  | .pace => [.pausePoll, .iterationDelay]
  | .watching => [.checkDelay]
  | .input =>
    [.dryRun, .clickHold, .doubleClickGap, .dragSettle, .keyHold, .keyGap, .typeDelay, .jitter]
  | .logging => [.level, .maxEntries]

def Field.toSection : Field → Section
  | .pausePoll | .iterationDelay => .pace
  | .checkDelay => .watching
  | .dryRun | .clickHold | .doubleClickGap | .dragSettle | .keyHold | .keyGap | .typeDelay
  | .jitter => .input
  | .level | .maxEntries => .logging

def Field.get (c : Config) : (f : Field) → f.Value
  | .pausePoll => c.pace.pausePoll
  | .iterationDelay => c.pace.iterationDelay
  | .checkDelay => c.watching.checkDelay
  | .dryRun => c.input.dryRun
  | .clickHold => c.input.clickHold
  | .doubleClickGap => c.input.doubleClickGap
  | .dragSettle => c.input.dragSettle
  | .keyHold => c.input.keyHold
  | .keyGap => c.input.keyGap
  | .typeDelay => c.input.typeDelay
  | .jitter => c.input.jitter
  | .level => c.logging.level
  | .maxEntries => c.logging.maxEntries

/-- The value of a field as it is written. -/
def Field.toJson : (f : Field) → f.Value → Json
  | .dryRun, b => .bool b
  | .level, some l => .string l.word
  | .level, none => .null
  | .pausePoll, n | .iterationDelay, n | .checkDelay, n | .clickHold, n | .doubleClickGap, n
  | .dragSettle, n | .keyHold, n | .keyGap, n | .typeDelay, n | .jitter, n | .maxEntries, n =>
    millisecondsJson n

theorem mem_fields_iff {i : Section} {f : Field} : f ∈ i.fields ↔ f.toSection = i := by
  cases i <;> cases f <;> decide

/-- The section with these values of its fields. -/
def Section.ofFields (value : (f : Field) → f.Value) : (i : Section) → i.Value
  | .pace => ⟨value .pausePoll, value .iterationDelay⟩
  | .watching => ⟨value .checkDelay⟩
  | .input => ⟨value .dryRun, value .clickHold, value .doubleClickGap, value .dragSettle,
      value .keyHold, value .keyGap, value .typeDelay, value .jitter⟩
  | .logging => ⟨value .level, value .maxEntries⟩

/-- The configuration with these sections. -/
def ofSections (value : (i : Section) → i.Value) : Config :=
  ⟨value .pace, value .watching, value .input, value .logging⟩

/-- The configuration with these values of its fields. -/
def ofFields (value : (f : Field) → f.Value) : Config := ofSections (Section.ofFields value)

@[simp] theorem get_ofFields (value : (f : Field) → f.Value) (f : Field) :
    f.get (ofFields value) = value f := by
  cases f <;> rfl

/-- A configuration is what its fields say. -/
theorem eq_of_get {c c' : Config} (same : ∀ f : Field, f.get c = f.get c') : c = c' :=
  congrArg ofFields (funext same)

theorem Section.ofFields_congr {value other : (f : Field) → f.Value} {i : Section}
    (same : ∀ f ∈ i.fields, value f = other f) : ofFields value i = ofFields other i := by
  cases i <;> simp_all [ofFields, fields]

/-! ### Leaving out -/

/-- Which sections are left out of the text of a configuration, and which fields of the others. -/
structure Omission where
  sections : Section → Bool
  fields : Field → Bool

def Omission.leavesOut (o : Omission) (f : Field) : Bool := o.sections f.toSection || o.fields f

/-- The value of a field after its section, or the field alone, may have been left out. -/
def Omission.value (o : Omission) (c : Config) (f : Field) : f.Value :=
  if o.leavesOut f then f.get {} else f.get c

/-- Whether the object is that of the configuration without what is left out. Its members and those of
its sections have any order. -/
inductive Excerpt (c : Config) (o : Omission) : Json → Prop
  | intro {order : List Section} {inside : Section → List Field}
      (kept : order.Perm (sections.all.filter fun i => !o.sections i))
      (each : ∀ i, (inside i).Perm (i.fields.filter fun f => !o.fields f)) :
      Excerpt c o (.object (order.map fun i =>
        (sections.name i, .object ((inside i).map fun f => (f.name, f.toJson (f.get c))))))

/-- The object of a configuration is what there is when nothing is left out. -/
theorem excerpt_toJson (c : Config) : c.Excerpt ⟨fun _ => false, fun _ => false⟩ c.toJson := by
  obtain ⟨pace, watching, input, level, maxEntries⟩ := c
  have all := @Excerpt.intro ⟨pace, watching, input, level, maxEntries⟩
    ⟨fun _ => false, fun _ => false⟩ [.pace, .watching, .input, .logging] Section.fields
    (by simp [sections]) (fun i => .of_eq (List.filter_eq_self.mpr fun _ _ => rfl).symm)
  cases level <;> exact all

/-! ### Reading -/

theorem Field.read_toJson (f : Field) (a : f.Value) (room : Nat) :
    f.read room (f.toJson a).toReading = .ok a := by
  cases f with
  | dryRun => rfl
  | level =>
    cases a with
    | none => rfl
    | some level => cases level <;> rfl
  | maxEntries => exact asWord_toReading "usize" a
  | _ => exact asWord_toReading "u64" a

variable {c : Config} {o : Omission} {room : Nat}

/-- What is read of a section as far as it is there: each field that is left out has its usual value. -/
theorem Section.read_excerpt {i : Section} {fs : List Field}
    (kept : fs.Perm (i.fields.filter fun f => !o.fields f)) :
    i.read (room + 1) (Json.object (fs.map fun f => (f.name, f.toJson (f.get c)))).toReading =
      .ok (Section.ofFields (fun f => if o.fields f then f.get {} else f.get c) i) := by
  have distinct : fs.Nodup := by
    have all : i.fields.Nodup := by cases i <;> decide
    exact kept.nodup_iff.mpr (all.sublist List.filter_sublist)
  have there {f : Field} (own : f ∈ i.fields) : f ∈ fs ↔ o.fields f = false := by
    simp [kept.mem_iff, own]
  have members {title : String}
      (named : ∀ f ∈ i.fields, (⟨title, i.fields, Field.name⟩ : Fields Field).index? f.name = some f) :
      (⟨title, i.fields, Field.name⟩ : Fields Field).readMembers (Field.read room)
        (toMemberReadings (fs.map fun f => (f.name, f.toJson (f.get c)))) .empty =
          .ok fun f => if f ∈ fs then some (f.get c) else none := by
    refine Fields.readMembers_members distinct (fun f hf => named f ?_)
      (fun f _ => f.read_toJson (f.get c) room) (fun _ _ => rfl)
    exact (List.mem_filter.mp (kept.mem_iff.mp hf)).1
  have result {s : Fields.Record Field.Value}
      (set : s.field = fun f => if f ∈ fs then some (f.get c) else none) :
      Except.ok (ε := ReadError) (Section.ofFields (fun f => s.getD f (f.get {})) i) =
        .ok (Section.ofFields (fun f => if o.fields f then f.get {} else f.get c) i) := by
    congr 1
    apply Section.ofFields_congr
    intro f own
    rw [Fields.Record.getD_of_members set]
    by_cases gone : o.fields f = true <;> simp [there own, gone]
  cases i <;> exact Fields.readRecord_bind (members (by decide)) fun s set => result set

/-- What is read of a configuration as far as it is there. -/
theorem read_excerpt {j : Json} (h : c.Excerpt o j) :
    read (room + 2) j.toReading = .ok (ofFields (o.value c)) := by
  obtain ⟨kept, each⟩ := h
  rename_i order inside
  have distinct : order.Nodup := by
    have all : sections.all.Nodup := by decide
    exact kept.nodup_iff.mpr (all.sublist List.filter_sublist)
  have there (i : Section) : i ∈ order ↔ o.sections i = false := by
    have all : i ∈ sections.all := by cases i <;> decide
    simp [kept.mem_iff, all]
  have named : ∀ i ∈ order, sections.index? (sections.name i) = some i := by
    intro i _
    cases i <;> rfl
  have values : ∀ i ∈ order, i.read (room + 1) (Json.object ((inside i).map fun f =>
      (f.name, f.toJson (f.get c)))).toReading =
        .ok (Section.ofFields (fun f => if o.fields f then f.get {} else f.get c) i) :=
    fun i _ => Section.read_excerpt (each i)
  have members := Fields.readMembers_members (p := .empty) distinct named values fun _ _ => rfl
  refine Fields.readRecord_bind members fun s set => ?_
  have value (i : Section) : s.getD i (Section.ofFields (fun f => f.get {}) i) =
      Section.ofFields (o.value c) i := by
    rw [Fields.Record.getD_of_members set]
    by_cases gone : o.sections i = true
    · rw [if_neg (by simp [there, gone])]
      apply Section.ofFields_congr
      intro f own
      have out : o.leavesOut f = true := by simp [Omission.leavesOut, mem_fields_iff.mp own, gone]
      rw [Omission.value, if_pos out]
    · rw [if_pos (by simpa [there] using gone)]
      apply Section.ofFields_congr
      intro f own
      have same : o.leavesOut f = o.fields f := by
        simp [Omission.leavesOut, mem_fields_iff.mp own, gone]
      rw [Omission.value, same]
  change Except.ok (ofSections fun i => s.getD i (Section.ofFields (fun f => f.get {}) i)) = _
  rw [funext value]
  rfl

/-! ### Numbers -/

theorem Field.readsBack (f : Field) (a : f.Value) : ∀ n ∈ (f.toJson a).numbers, n.ReadsBack := by
  have word (n : UInt64) : ∀ k ∈ (millisecondsJson n).numbers, k.ReadsBack := by
    intro k hk
    have own : k = .int n.toNat := by simpa [millisecondsJson, Json.int, numbers] using hk
    rw [own]
    exact readsBack_word n
  cases f with
  | dryRun => simp [toJson, numbers]
  | level => cases a <;> simp [toJson, numbers]
  | _ => exact word a

/-- The numbers of a configuration are read back, whatever is left out of it. -/
theorem Excerpt.readsBack {j : Json} (h : c.Excerpt o j) : ∀ n ∈ j.numbers, n.ReadsBack := by
  obtain ⟨kept, each⟩ := h
  rw [numbers, forall_mem_numbersOfMembers, List.forall_mem_map]
  intro i _
  rw [numbers, forall_mem_numbersOfMembers, List.forall_mem_map]
  intro f _
  exact f.readsBack (f.get c)

/-! ### Loading -/

/-- What is read from a text is loaded if its values are in range. -/
theorem ofText_of_spells {text : String} {r : Reading} (spells : Spells text r)
    (value : read nestingLimit r = .ok c) :
    ofText text = if c.outOfRange.isEmpty then .ok c else .error (.outOfRange c.outOfRange) := by
  unfold ofText load Route.document
  rw [spells.document]
  simp only [Document.decode, value, bind, Except.bind]
  rfl

theorem mem_outOfRange {p : Positive} : p ∈ c.outOfRange ↔ p.value c = 0 := by
  have all : p ∈ Positive.all := by cases p <;> decide
  simp [outOfRange, all]

/-- Whether the values that have to be positive are. -/
def InRange (c : Config) : Prop :=
  1 ≤ c.pace.pausePoll ∧ 1 ≤ c.watching.checkDelay ∧ 1 ≤ c.logging.maxEntries

instance (c : Config) : Decidable c.InRange := inferInstanceAs (Decidable (_ ∧ _ ∧ _))

theorem inRange_iff : c.InRange ↔ c.outOfRange = [] := by
  have positive (n : UInt64) : 1 ≤ n ↔ n ≠ 0 := by
    rw [UInt64.le_iff_toNat_le, ne_eq, ← UInt64.toNat_inj]
    change 1 ≤ n.toNat ↔ ¬ n.toNat = 0
    omega
  rw [List.eq_nil_iff_forall_not_mem, InRange, positive, positive, positive]
  constructor
  · rintro ⟨pausePoll, checkDelay, maxEntries⟩ p hp
    cases p with
    | pausePoll => exact pausePoll (mem_outOfRange.mp hp)
    | checkDelay => exact checkDelay (mem_outOfRange.mp hp)
    | maxEntries => exact maxEntries (mem_outOfRange.mp hp)
  · intro none
    have own (p : Positive) : p.value c ≠ 0 := fun zero => none p (mem_outOfRange.mpr zero)
    exact ⟨own .pausePoll, own .checkDelay, own .maxEntries⟩

/-- From every text of a configuration out of which sections and fields are left, with the others in any
order, the configuration is loaded in which exactly the fields that are left out have their usual values,
if that is in range. Otherwise the report names the sections in which a value is zero, and no others. The
text of a configuration in range, with nothing left out, is loaded as that configuration. -/
theorem loads_excerpts (c : Config) :
    (∀ (o : Omission) (j : Json), c.Excerpt o j → Spells j.text j.toReading) ∧
    (∀ (o : Omission) (j : Json) (text : String), c.Excerpt o j → Spells text j.toReading →
      ∃ c' : Config, (∀ f : Field, f.get c' = if o.leavesOut f then f.get {} else f.get c) ∧
        (c'.InRange → ofText text = .ok c') ∧
        (¬ c'.InRange → ∃ zero properties, ofText text = .error (.outOfRange zero) ∧
          (LoadError.outOfRange zero).configMessage = "Invalid configuration: " ++
            (Json.object [("errors", .array []), ("properties", .object properties)]).text ∧
          zero.Sublist Positive.all ∧ (∀ p, p ∈ zero ↔ p.value c' = 0) ∧
          properties.map Prod.fst = zero.map Positive.sectionName)) ∧
    (c.InRange → ofText c.toJson.text = .ok c) := by
  refine ⟨fun o j excerpt => spells_text j excerpt.readsBack, ?_, ?_⟩
  · intro o j text excerpt spells
    have loaded := ofText_of_spells spells (@read_excerpt _ _ 125 _ excerpt)
    refine ⟨ofFields (o.value c), fun f => get_ofFields _ f, fun inRange => ?_, fun outside => ?_⟩
    · rw [loaded, inRange_iff.mp inRange]
      rfl
    · have some : (ofFields (o.value c)).outOfRange.isEmpty = false := by
        rw [Bool.eq_false_iff, ne_eq, List.isEmpty_iff, ← inRange_iff]
        exact outside
      rw [some] at loaded
      refine ⟨_, _, loaded, rfl, List.filter_sublist, fun p => mem_outOfRange, ?_⟩
      rw [List.map_map]
      rfl
  · intro inRange
    have excerpt := excerpt_toJson c
    have loaded := ofText_of_spells (spells_text _ excerpt.readsBack) (@read_excerpt _ _ 125 _ excerpt)
    have same : ofFields (Omission.value ⟨fun _ => false, fun _ => false⟩ c) = c := rfl
    rw [loaded, same, inRange_iff.mp inRange]
    rfl

/-- A configuration in which three values are zero: they are no matter as far as they are left out. -/
theorem loads_excerpts_zeros :
    let c : Config := ⟨⟨0, 5⟩, ⟨0⟩, { jitter := 18446744073709551615 }, ⟨some .debug, 0⟩⟩
    let without : Omission :=
      ⟨fun i => i = .watching ∨ i = .input, fun f => f = .pausePoll ∨ f = .maxEntries⟩
    let part : Json := .object [("logging", .object [("level", .string "debug")]),
      ("executor", .object [("iteration_delay_ms", .int 5)])]
    let unobserving : Omission := ⟨fun i => i = .watching ∨ i = .input, fun _ => false⟩
    let others : Json := .object
      [("logging", .object [("max_entries", .int 0), ("level", .string "debug")]),
        ("executor", .object [("pause_poll_ms", .int 0), ("iteration_delay_ms", .int 5)])]
    c.Excerpt without part ∧ c.Excerpt unobserving others ∧
      ofText part.text = .ok { pace := { iterationDelay := 5 }, logging := { level := some .debug } } ∧
      ofText others.text = .error (.outOfRange [.pausePoll, .maxEntries]) := by
  intro c without part unobserving others
  have first : c.Excerpt without part :=
    @Excerpt.intro c without [.logging, .pace]
      (fun i => i.fields.filter fun f => !without.fields f) (by decide) (fun _ => .refl _)
  have second : c.Excerpt unobserving others :=
    @Excerpt.intro c unobserving [.logging, .pace]
      (fun i => if i = .logging then [.maxEntries, .level] else i.fields) (by decide)
      (fun i => by cases i <;> decide)
  obtain ⟨spells, loads, -⟩ := loads_excerpts c
  obtain ⟨c₁, fields₁, inRange, -⟩ := loads without part part.text first (spells _ _ first)
  obtain ⟨c₂, fields₂, -, outside⟩ := loads unobserving others others.text second (spells _ _ second)
  have same₁ : c₁ = { pace := { iterationDelay := 5 }, logging := { level := some .debug } } :=
    eq_of_get fun f => (fields₁ f).trans (by cases f <;> rfl)
  have same₂ : c₂ = { pace := ⟨0, 5⟩, logging := ⟨some .debug, 0⟩ } :=
    eq_of_get fun f => (fields₂ f).trans (by cases f <;> rfl)
  subst same₁ same₂
  refine ⟨first, second, inRange (by decide), ?_⟩
  obtain ⟨zero, _, failed, -, sublist, members, -⟩ := outside (by decide)
  have same : ∀ zero ∈ Positive.all.sublists,
      (∀ p ∈ Positive.all, p ∈ zero ↔ p ∈ [Positive.pausePoll, .maxEntries]) →
        zero = [.pausePoll, .maxEntries] := by decide
  have named (p : Positive) : p ∈ zero ↔ p ∈ [Positive.pausePoll, .maxEntries] := by
    rw [members p]
    cases p <;> decide
  rw [failed, same zero (List.mem_sublists.mpr sublist) fun p _ => named p]

end Config

end DeskScript
