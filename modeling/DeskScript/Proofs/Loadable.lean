import DeskScript.Proofs.Finiteness
import DeskScript.Proofs.RoundTrip
import Mathlib.Data.Nat.Init

/-! What scripts look like that have been read: their thresholds are finite, and their conditions, actions
and steps nest no deeper than there was room for them. -/

namespace DeskScript

open Json

/-! ### Elements -/

theorem usualThreshold_isFinite : usualThreshold.isFinite = true := by
  decide +kernel

theorem Json.Reading.Finite.part {r part : Json.Reading} (finite : r.Finite) (h : part ∈ r.parts) :
    part.Finite := by
  obtain ⟨-, parts⟩ := finite
  exact parts part h

/-- What is left of a tagged value without the tag has its parts. -/
theorem Json.Tags.parts_finite {tags : Tags} {mode : Mode} {room : Nat} {r content : Json.Reading}
    {i : Nat} (h : tags.read mode room r = .ok (i, content)) (finite : r.Finite) :
    ∀ part ∈ content.parts, part.Finite :=
  fun _ hp => finite.part ((Tags.exists_of_read h).2 hp)

theorem Json.Reading.Finite.asOption {r : Json.Reading} (finite : r.Finite) {x : Float}
    (h : r.asOption Reading.asFloat = .ok (some x)) : x.isFinite = true := by
  unfold Reading.asOption at h
  split at h
  · cases h
  · obtain ⟨y, value, same⟩ := exists_of_map h
    cases same
    exact finite.asFloat value

theorem Element.nesting_toJson (e : Element) : e.toJson.nesting = 1 := by
  cases e with
  | position p => rfl
  | picture p =>
    obtain ⟨data, threshold⟩ := p
    cases threshold <;> rfl

/-- An element is read where there is room for it, and its threshold is finite. -/
theorem Element.of_read {room : Nat} {r : Json.Reading} {e : Element} (h : Element.read room r = .ok e)
    (finite : r.Finite) : 1 ≤ room ∧ ∀ x ∈ e.thresholds, x.isFinite = true := by
  obtain ⟨⟨variant, content⟩, tag, h⟩ := exists_of_bind h
  obtain ⟨less, rfl⟩ := (Tags.exists_of_read tag).1
  refine ⟨Nat.le_add_left 1 less, ?_⟩
  have parts := Tags.parts_finite tag finite
  dsimp only at h
  split at h
  · obtain ⟨_, -, h⟩ := exists_of_bind h
    obtain ⟨_, -, h⟩ := exists_of_bind h
    obtain ⟨_, -, h⟩ := exists_of_bind h
    cases h
    exact List.forall_mem_nil _
  · obtain ⟨s, record, h⟩ := exists_of_bind h
    obtain ⟨_, -, h⟩ := exists_of_bind h
    cases h
    obtain ⟨_, -, fields⟩ := Fields.exists_of_readRecord record
    intro x hx
    have set : s.getD .threshold none = some x := by simpa [thresholds] using hx
    rcases s.getD_eq .threshold none with default | field
    · rw [set] at default
      cases default
    · rw [set] at field
      obtain ⟨part, mem, value⟩ := fields .threshold (some x) field
      exact (parts part mem).asOption value

/-! ### Conditions -/

/-- The condition nests no deeper than there is room, and its thresholds are finite. -/
structure Condition.Loadable (room : Nat) (c : Condition) : Prop where
  nests : c.toJson.nesting ≤ room
  finite : ∀ x ∈ c.thresholds, x.isFinite = true

theorem nestingOfItems_le {js : List Json} {n : Nat} (h : ∀ j ∈ js, j.nesting ≤ n) :
    nestingOfItems js ≤ n := by
  induction js with
  | nil => exact Nat.zero_le n
  | cons j js ih =>
    obtain ⟨first, others⟩ := List.forall_mem_cons.mp h
    exact Nat.max_le.mpr ⟨first, ih others⟩

theorem Condition.nestingOfItems_listJson_le {cs : List Condition} {room : Nat}
    (h : ∀ c ∈ cs, c.Loadable room) : nestingOfItems (listJson cs) ≤ room := by
  refine nestingOfItems_le ?_
  rw [listJson_eq, List.forall_mem_map]
  exact fun c hc => (h c hc).nests

theorem Condition.thresholdsOfList_finite {cs : List Condition} {room : Nat}
    (h : ∀ c ∈ cs, c.Loadable room) : ∀ x ∈ thresholdsOfList cs, x.isFinite = true := by
  induction cs with
  | nil => exact List.forall_mem_nil _
  | cons c cs ih =>
    obtain ⟨first, others⟩ := List.forall_mem_cons.mp h
    exact List.forall_mem_append.mpr ⟨first.finite, ih others⟩

theorem Condition.Loadable.list {cs : List Condition} {room : Nat} (h : ∀ c ∈ cs, c.Loadable room) :
    (Condition.all cs).Loadable (room + 2) ∧ (Condition.any cs).Loadable (room + 2) := by
  have inside := nestingOfItems_listJson_le h
  have finite := thresholdsOfList_finite h
  have nests : nestingOfItems (listJson cs) + 1 + 1 ≤ room + 2 := by omega
  constructor
  · exact ⟨by simpa [toJson, nesting, nestingOfMembers] using nests, finite⟩
  · exact ⟨by simpa [toJson, nesting, nestingOfMembers] using nests, finite⟩

/-- A condition is as loadable as what it is made of. -/
theorem Condition.loadable_of_readWith {room : Nat} {inner : Json.Reading → Decoded Condition}
    {list : Json.Reading → Decoded (List Condition)} {r : Json.Reading} {c : Condition}
    (h : Condition.readWith room inner list r = .ok c) (finite : r.Finite)
    (negated : ∀ part : Json.Reading, part.Finite → ∀ c, inner part = .ok c →
      ∃ less, room = less + 1 ∧ c.Loadable less)
    (listed : ∀ part : Json.Reading, part.Finite → ∀ cs, list part = .ok cs →
      ∃ less, room = less + 2 ∧ ∀ c ∈ cs, c.Loadable less) : c.Loadable room := by
  obtain ⟨⟨variant, content⟩, tag, h⟩ := exists_of_bind h
  have parts := Tags.parts_finite tag finite
  have element {field : Nat → (i : Condition.Field) → Json.Reading → Decoded i.Value}
      (reads : ∀ room, field room .element = Element.read room) {title : String}
      {s : Fields.Record Condition.Field.Value} {e : Element}
      (record : (fields title .element).readRecord .stored room field content = .ok s)
      (own : s.get .element = .ok e) : 2 ≤ room ∧ ∀ x ∈ e.thresholds, x.isFinite = true := by
    obtain ⟨less, rfl, fields⟩ := Fields.exists_of_readRecord record
    obtain ⟨part, mem, value⟩ := fields .element e (Fields.Record.field_of_get own)
    rw [reads] at value
    obtain ⟨least, thresholds⟩ := Element.of_read value (parts part mem)
    exact ⟨Nat.succ_le_succ least, thresholds⟩
  dsimp only at h
  split at h
  all_goals
    obtain ⟨s, record, h⟩ := exists_of_bind h
    obtain ⟨a, own, h⟩ := exists_of_bind h
    cases h
  case h_1 | h_2 =>
    obtain ⟨least, thresholds⟩ := element (fun _ => rfl) record own
    exact ⟨by simpa [toJson, nesting, nestingOfMembers, a.nesting_toJson] using least, thresholds⟩
  all_goals
    obtain ⟨_, -, fields⟩ := Fields.exists_of_readRecord record
    obtain ⟨part, mem, value⟩ := fields _ _ (Fields.Record.field_of_get own)
  case h_3 =>
    obtain ⟨less, rfl, inside⟩ := listed part (parts part mem) a value
    exact (Loadable.list inside).1
  case h_4 =>
    obtain ⟨less, rfl, inside⟩ := listed part (parts part mem) a value
    exact (Loadable.list inside).2
  case h_5 =>
    obtain ⟨less, rfl, nests, thresholds⟩ := negated part (parts part mem) a value
    exact ⟨by simpa [toJson, nesting, nestingOfMembers] using nests, thresholds⟩

theorem Condition.loadable_of_read {room : Nat} {r : Json.Reading} {c : Condition}
    (h : Condition.read room r = .ok c) (finite : r.Finite) : c.Loadable room := by
  have none {α : Type} {p : α → Prop} (part : Json.Reading) (_ : part.Finite) (a : α)
      (value : noRoom part = .ok a) : p a := by
    cases value
  induction room using Nat.twoStepInduction generalizing r c with
  | zero => exact loadable_of_readWith h finite none none
  | one =>
    refine loadable_of_readWith h finite ?_ ?_
    · exact fun part finite c value => ⟨0, rfl, loadable_of_readWith value finite none none⟩
    · intro part _ cs value
      obtain ⟨less, none, -⟩ := Json.Reading.exists_of_asList value
      cases none
  | more room ih ih' =>
    -- A condition inside another takes one level, and one in a list takes another for its brackets.
    refine loadable_of_readWith h finite ?_ ?_
    · exact fun part finite c value => ⟨room + 1, rfl, ih' value finite⟩
    · intro part finite cs value
      obtain ⟨less, same, items, -⟩ := Json.Reading.exists_of_asList value
      cases same
      refine ⟨room, rfl, fun c hc => ?_⟩
      obtain ⟨item, mem, value⟩ := items c hc
      exact ih value (finite.part mem)

/-! ### Actions -/

theorem nestingOfItems_strings (ss : List String) : nestingOfItems (ss.map .string) = 0 := by
  induction ss with
  | nil => rfl
  | cons s ss ih => rw [List.map_cons, nestingOfItems, ih, nesting, Nat.max_self]

/-- No action nests more than two deep. -/
theorem Action.nesting_toJson_le (a : Action) : a.toJson.nesting ≤ 2 := by
  cases a with
  | mouse a =>
    cases a <;> simp [toJson, MouseAction.typeAndMembers, Json.int, nesting, nestingOfMembers,
      Element.nesting_toJson]
  | keyboard a =>
    cases a <;> simp [toJson, KeyboardAction.typeAndMembers, strings, nesting, nestingOfMembers,
      nestingOfItems_strings]
  | system a =>
    cases a <;> simp [toJson, SystemAction.typeAndMembers, millisecondsJson, Json.int, strings, nesting,
      nestingOfMembers, nestingOfItems_strings]
  | flow a =>
    cases a <;> simp [toJson, FlowAction.typeAndMembers, nesting, nestingOfMembers]

theorem MouseAction.finite_of_read {room : Nat} {r : Json.Reading} {a : MouseAction}
    (h : MouseAction.read room r = .ok a) (finite : ∀ part ∈ r.parts, part.Finite) :
    ∀ x ∈ a.thresholds, x.isFinite = true := by
  obtain ⟨⟨variant, content⟩, tag, h⟩ := exists_of_bind h
  have value {title : String} {all : List Action.Field} {s : Fields.Record Action.Field.Value}
      {i : Action.Field} {a : i.Value} (record : Action.readFields title all room content = .ok s)
      (own : s.get i = .ok a) :
      ∃ less, ∃ part : Json.Reading, part.Finite ∧ Action.Field.read less i part = .ok a := by
    obtain ⟨less, -, fields⟩ := Fields.exists_of_readRecord record
    obtain ⟨part, mem, value⟩ := fields i a (Fields.Record.field_of_get own)
    exact ⟨less, part, finite part ((Tags.exists_of_read tag).2 mem), value⟩
  dsimp only at h
  split at h
  all_goals
    obtain ⟨s, record, h⟩ := exists_of_bind h
    obtain ⟨first, own, h⟩ := exists_of_bind h
    obtain ⟨_, part, partFinite, read⟩ := value record own
  case h_1 | h_2 | h_3 | h_4 =>
    cases h
    exact (Element.of_read read partFinite).2
  case h_5 =>
    obtain ⟨second, own', h⟩ := exists_of_bind h
    obtain ⟨_, part', partFinite', read'⟩ := value record own'
    cases h
    exact List.forall_mem_append.mpr
      ⟨(Element.of_read read partFinite).2, (Element.of_read read' partFinite').2⟩
  case h_6 =>
    obtain ⟨_, -, h⟩ := exists_of_bind h
    cases h
    exact List.forall_mem_nil _

/-- An action is read where there is room for it, and its thresholds are finite. -/
theorem Action.of_read {room : Nat} {r : Json.Reading} {a : Action} (h : Action.read room r = .ok a)
    (finite : r.Finite) (header : Header) :
    1 ≤ room ∧ ∀ x ∈ (Step.action header a).thresholds, x.isFinite = true := by
  obtain ⟨⟨variant, content⟩, tag, h⟩ := exists_of_bind h
  obtain ⟨less, rfl⟩ := (Tags.exists_of_read tag).1
  refine ⟨Nat.le_add_left 1 less, ?_⟩
  dsimp only at h
  split at h
  all_goals
    obtain ⟨a, value, h⟩ := exists_of_bind h
    cases h
  case h_1 => exact MouseAction.finite_of_read value (Tags.parts_finite tag finite)
  all_goals exact List.forall_mem_nil _

/-! ### Steps -/

/-- How deep the action or the condition of a step nests. -/
def Step.ownNesting : Step → Nat
  | .action _ a => a.toJson.nesting
  | .conditional _ c _ _ | .observer _ c _ => c.toJson.nesting
  | .group _ _ _ => 0

/-- What a step looks like that is read with room for `2 * room + 1` levels. With room for one level
only, it is a group for which the text names no steps. -/
inductive Step.Loadable : Nat → Step → Prop
  | bare (h : Header) (name : String) : Step.Loadable 0 (.group h name [])
  | roomy {room : Nat} {s : Step} (nests : s.ownNesting ≤ 2 * room + 2)
      (finite : ∀ x ∈ s.thresholds, x.isFinite = true)
      (children : ∀ steps ∈ s.childLists, ∀ t ∈ steps, Step.Loadable room t) :
      Step.Loadable (room + 1) s

/-- What is known of a step whose fields are read with room for `less` levels and its lists of steps by
`list`, all from finite readings. -/
structure Step.Sourced (less : Nat) (list : Json.Reading → Decoded (List Step)) (s : Step) : Prop where
  kind : (∃ header name steps, s = .group header name steps) ∨ 1 ≤ less
  nests : s.ownNesting ≤ max less 2
  finite : ∀ x ∈ s.thresholds, x.isFinite = true
  children : ∀ steps ∈ s.childLists,
    steps = [] ∨ ∃ part : Json.Reading, part.Finite ∧ list part = .ok steps

theorem Step.sourced_of_readWith {mode : Mode} {room : Nat} {list : Json.Reading → Decoded (List Step)}
    {r : Json.Reading} {s : Step} (h : Step.readWith mode room list r = .ok s) (finite : r.Finite) :
    ∃ less, room = less + 1 ∧ s.Sourced less list := by
  obtain ⟨⟨variant, content⟩, tag, h⟩ := exists_of_bind h
  obtain ⟨less, same⟩ := (Tags.exists_of_read tag).1
  refine ⟨less, same, ?_⟩
  have value {title : String} {own : List Step.Field} {mode : Mode} {s : Fields.Record Step.Field.Value}
      {i : Step.Field} {a : i.Value}
      (record : (Step.fields title own).readRecord mode room (Step.Field.read list) content = .ok s)
      (field : s.field i = some a) :
      ∃ part : Json.Reading, part.Finite ∧ Step.Field.read list less i part = .ok a := by
    obtain ⟨less', same', fields⟩ := Fields.exists_of_readRecord record
    obtain rfl : less' = less := by omega
    obtain ⟨part, mem, value⟩ := fields i a field
    exact ⟨part, Tags.parts_finite tag finite part mem, value⟩
  have condition {c : Condition}
      (read : ∃ part : Json.Reading, part.Finite ∧ Condition.read less part = .ok c) :
      1 ≤ less ∧ c.Loadable less := by
    obtain ⟨part, partFinite, value⟩ := read
    have loadable := Condition.loadable_of_read value partFinite
    have least := Nat.le_trans c.two_le_nesting loadable.nests
    exact ⟨by omega, loadable⟩
  dsimp only at h
  split at h
  · obtain ⟨s, record, h⟩ := exists_of_bind h
    obtain ⟨header, -, h⟩ := exists_of_bind h
    obtain ⟨a, own, h⟩ := exists_of_bind h
    cases h
    obtain ⟨part, partFinite, read⟩ := value record (Fields.Record.field_of_get own)
    obtain ⟨least, thresholds⟩ := Action.of_read read partFinite header
    exact ⟨.inr least, Nat.le_trans a.nesting_toJson_le (Nat.le_max_right _ _), thresholds,
      List.forall_mem_nil _⟩
  · obtain ⟨s, record, h⟩ := exists_of_bind h
    obtain ⟨header, -, h⟩ := exists_of_bind h
    obtain ⟨c, own, h⟩ := exists_of_bind h
    cases h
    obtain ⟨least, loadable⟩ := condition (value record (Fields.Record.field_of_get own))
    refine ⟨.inr least, Nat.le_trans loadable.nests (Nat.le_max_left _ _), loadable.finite, ?_⟩
    refine List.forall_mem_cons.mpr ⟨?_, List.forall_mem_singleton.mpr ?_⟩
    · exact (s.getD_eq .thenSteps []).imp_right (value record)
    · exact (s.getD_eq .elseSteps []).imp_right (value record)
  · obtain ⟨s, record, h⟩ := exists_of_bind h
    obtain ⟨header, -, h⟩ := exists_of_bind h
    obtain ⟨c, own, h⟩ := exists_of_bind h
    cases h
    obtain ⟨least, loadable⟩ := condition (value record (Fields.Record.field_of_get own))
    refine ⟨.inr least, Nat.le_trans loadable.nests (Nat.le_max_left _ _), loadable.finite, ?_⟩
    exact List.forall_mem_singleton.mpr ((s.getD_eq .actionSteps []).imp_right (value record))
  · obtain ⟨s, record, h⟩ := exists_of_bind h
    obtain ⟨header, -, h⟩ := exists_of_bind h
    obtain ⟨name, -, h⟩ := exists_of_bind h
    cases h
    refine ⟨.inl ⟨_, _, _, rfl⟩, Nat.zero_le _, List.forall_mem_nil _, ?_⟩
    exact List.forall_mem_singleton.mpr ((s.getD_eq .steps []).imp_right (value record))

/-- A step that is read with an odd number of levels as its room is loadable. -/
theorem Step.loadable_of_read {mode : Mode} {room : Nat} {r : Json.Reading} {s : Step}
    (h : Step.read mode (2 * room + 1) r = .ok s) (finite : r.Finite) : s.Loadable room := by
  induction room generalizing mode r s with
  | zero =>
    -- No action, no condition and no list is read without any room.
    obtain ⟨less, same, sourced⟩ := sourced_of_readWith h finite
    cases same
    obtain ⟨header, name, steps, rfl⟩ := sourced.kind.resolve_right (by omega)
    rcases sourced.children steps (List.mem_singleton_self steps) with rfl | ⟨part, -, value⟩
    · exact .bare header name
    · obtain ⟨less, none, -⟩ := Json.Reading.exists_of_asList value
      cases none
  | succ room ih =>
    have h : Step.readWith mode (2 * room + 3)
        (Json.Reading.asList (2 * room + 2) fun _ => Step.read .stored (2 * room + 1)) r = .ok s := h
    obtain ⟨less, same, sourced⟩ := sourced_of_readWith h finite
    obtain rfl : less = 2 * room + 2 := by omega
    refine .roomy ?_ sourced.finite fun steps hs t ht => ?_
    · exact Nat.le_trans sourced.nests (by omega)
    · rcases sourced.children steps hs with rfl | ⟨part, partFinite, value⟩
      · cases ht
      · obtain ⟨less, same, items, -⟩ := Json.Reading.exists_of_asList value
        cases same
        obtain ⟨item, mem, read⟩ := items t ht
        exact ih read (partFinite.part mem)

/-! ### Scripts -/

/-- The threshold of settings that are read is finite. -/
theorem Settings.finite_of_read {room : Nat} {r : Json.Reading} {s : Settings}
    (h : Settings.read room r = .ok s) (finite : r.Finite) : s.threshold.isFinite = true := by
  obtain ⟨record, read, h⟩ := exists_of_bind h
  cases h
  obtain ⟨-, -, fields⟩ := Fields.exists_of_readRecord read
  rcases record.getD_eq .threshold usualThreshold with default | field
  · change (record.getD .threshold usualThreshold).isFinite = true
    rw [default]
    exact usualThreshold_isFinite
  · obtain ⟨part, mem, value⟩ := fields _ _ field
    exact (finite.part mem).asFloat value

/-- The steps of a script that is read are loadable in the room that the script leaves them. -/
theorem Script.loadable_of_read {room : Nat} {r : Json.Reading} {s : Script}
    (h : Script.read (2 * room + 3) r = .ok s) (finite : r.Finite) :
    s.settings.threshold.isFinite = true ∧ ∀ t ∈ s.steps, t.Loadable room := by
  obtain ⟨record, read, h⟩ := exists_of_bind h
  obtain ⟨title, -, h⟩ := exists_of_bind h
  cases h
  obtain ⟨less, same, fields⟩ := Fields.exists_of_readRecord read
  obtain rfl : less = 2 * room + 2 := by omega
  constructor
  · rcases record.getD_eq .settings default with usual | field
    · change (record.getD .settings default).threshold.isFinite = true
      rw [usual]
      exact usualThreshold_isFinite
    · obtain ⟨part, mem, value⟩ := fields _ _ field
      exact Settings.finite_of_read value (finite.part mem)
  · intro t ht
    change t ∈ record.getD .steps [] at ht
    rcases record.getD_eq .steps [] with none | field
    · rw [none] at ht
      cases ht
    · obtain ⟨part, mem, value⟩ := fields _ _ field
      have value : part.asList (2 * room + 2) (Step.read .streamed) = .ok (record.getD .steps []) :=
        value
      obtain ⟨less, same, items, -⟩ := Json.Reading.exists_of_asList value
      obtain rfl : less = 2 * room + 1 := by omega
      obtain ⟨item, mem', value⟩ := items t ht
      exact Step.loadable_of_read value ((finite.part mem).part mem')

end DeskScript
