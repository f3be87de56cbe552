import DeskScript.Loading
import DeskScript.Proofs.Decoding
import DeskScript.Proofs.Documents
import DeskScript.Proofs.Thresholds

/-! A script written as text and read again is the same script. -/

namespace DeskScript

open Json

/-! ### Elements -/

theorem Element.read_toJson (e : Element) {room : Nat} (h : e.toJson.nesting ≤ room) :
    Element.read room e.toJson.toReading = .ok e := by
  obtain ⟨room, rfl⟩ : ∃ n, room = n + 1 := by
    cases e <;> exact Nat.exists_eq_add_of_le' (Nat.le_of_add_left_le h)
  rw [Element.read]
  cases e with
  | position p =>
    refine Tags.read_bind rfl (by simp [Coordinate.members, Element.tags]) h ?_
    refine Fields.readRecord_pair rfl (asInt32_toReading p.x) rfl (asInt32_toReading p.y) (by decide) ?_
    intro s x y
    rw [x, Fields.Record.get_of_field y]
    rfl
  | picture p =>
    have members : Pattern.fields.readMembers Element.Field.read (toMemberReadings
        (("base64Data", .string p.data) :: Json.optional "matchThreshold" p.threshold .real))
        .empty = .ok ((Partial.empty.set .data p.data).setIf .threshold (p.threshold.map some)) := by
      rw [Fields.readMembers_cons (i := .data) rfl rfl rfl, ← List.append_nil (Json.optional _ _ _),
        Fields.readMembers_optional (i := .threshold) (g := some) rfl rfl (fun _ => rfl)]
      rfl
    refine Tags.read_bind rfl ?_ h (Fields.readRecord_bind members ?_)
    · refine List.forall_mem_cons.mpr ⟨by simp [Element.tags], ?_⟩
      intro m hm
      rw [key_of_mem_optional hm]
      decide
    · intro s field
      have data : s.get .data = .ok p.data := by
        apply Fields.Record.get_of_field
        simp [field]
      have threshold : s.getD .threshold none = p.threshold := by
        simp [Fields.Record.getD, field]
      rw [data, threshold]
      rfl

/-! ### Conditions -/

theorem Condition.listJson_eq (cs : List Condition) :
    Condition.listJson cs = cs.map Condition.toJson := by
  induction cs with
  | nil => rfl
  | cons c cs ih => rw [listJson, ih, List.map_cons]

/-- Every condition nests at least two deep. -/
theorem Condition.two_le_nesting (c : Condition) : 2 ≤ c.toJson.nesting := by
  cases c with
  | present e | absent e =>
    cases e <;> simp [toJson, Element.toJson, nesting, nestingOfMembers]
  | all cs | any cs => simp [toJson, nesting, nestingOfMembers]
  | not c =>
    cases c <;> simp [toJson, nesting, nestingOfMembers]

mutual

theorem Condition.read_toJson (c : Condition) {room : Nat} (h : c.toJson.nesting ≤ room) :
    Condition.read room c.toJson.toReading = .ok c := by
  obtain ⟨room, rfl⟩ := Nat.exists_eq_add_of_le' (Nat.le_trans c.two_le_nesting h)
  rw [Condition.read, Condition.readWith]
  cases c with
  | present e | absent e =>
    have inside : e.toJson.nesting ≤ room + 1 := by
      simpa [toJson, nesting, nestingOfMembers] using h
    refine Tags.read_bind rfl (by simp [tags]) h ?_
    refine Fields.readRecord_single rfl (Element.read_toJson e inside) ?_
    intro s element
    rw [element]
    rfl
  | all cs | any cs =>
    have inside : nestingOfItems (Condition.listJson cs) ≤ room := by
      simpa [toJson, nesting, nestingOfMembers] using h
    rw [toJson, Condition.listJson_eq] at h ⊢
    refine Tags.read_bind rfl (by simp [tags]) h ?_
    refine Fields.readRecord_single rfl (asList_toReading (Condition.read_listJson cs inside)) ?_
    intro s conditions
    rw [conditions]
    rfl
  | not c =>
    have inside : c.toJson.nesting ≤ room + 1 := by
      simpa [toJson, nesting, nestingOfMembers] using h
    refine Tags.read_bind rfl (by simp [tags]) h ?_
    refine Fields.readRecord_single rfl (Condition.read_toJson c inside) ?_
    intro s condition
    rw [condition]
    rfl

theorem Condition.read_listJson (cs : List Condition) {room : Nat}
    (h : nestingOfItems (Condition.listJson cs) ≤ room) :
    ∀ c ∈ cs, Condition.read room c.toJson.toReading = .ok c := by
  cases cs with
  | nil => simp
  | cons c cs =>
    rw [listJson, nestingOfItems] at h
    rw [List.forall_mem_cons]
    exact ⟨Condition.read_toJson c (Nat.le_trans (Nat.le_max_left _ _) h),
      Condition.read_listJson cs (Nat.le_trans (Nat.le_max_right _ _) h)⟩

end

/-! ### Actions -/

/-- The value with the type and the members of an action. -/
def typed (t : String × List (String × Json)) : Json := .object (("type", .string t.1) :: t.2)

theorem asStrings_toReading (ss : List String) (room : Nat) :
    (Json.strings ss).toReading.asList (room + 1) (fun _ => Reading.asString) = .ok ss :=
  asList_toReading fun _ _ => rfl

theorem Direction.read_word (d : Direction) : Direction.read (Json.string d.word).toReading = .ok d := by
  cases d <;> rfl

theorem MouseAction.read_typed (a : MouseAction) {room : Nat}
    (h : (typed a.typeAndMembers).nesting ≤ room) :
    MouseAction.read room (typed a.typeAndMembers).toReading = .ok a := by
  obtain ⟨room, rfl⟩ := Nat.exists_eq_add_of_le' (Nat.le_of_add_left_le h)
  rw [MouseAction.read]
  cases a with
  | leftClick e | rightClick e | doubleClick e | moveTo e =>
    have inside : e.toJson.nesting ≤ room := by
      simpa [typed, typeAndMembers, nesting, nestingOfMembers] using h
    refine Tags.read_bind rfl (by simp [typeAndMembers, tags]) h ?_
    refine Fields.readRecord_single rfl (Element.read_toJson e inside) ?_
    intro s target
    rw [target]
    rfl
  | drag e₁ e₂ =>
    have inside : e₁.toJson.nesting ≤ room ∧ e₂.toJson.nesting ≤ room := by
      simpa [typed, typeAndMembers, nesting, nestingOfMembers, Nat.max_le] using h
    refine Tags.read_bind rfl (by simp [typeAndMembers, tags]) h ?_
    refine Fields.readRecord_pair rfl (Element.read_toJson e₁ inside.1) rfl
      (Element.read_toJson e₂ inside.2) (by decide) ?_
    intro s start finish
    rw [start, Fields.Record.get_of_field finish]
    rfl
  | scroll n d =>
    refine Tags.read_bind rfl (by simp [typeAndMembers, tags]) h ?_
    refine Fields.readRecord_pair rfl (asInt32_toReading n) rfl (Direction.read_word d) (by decide) ?_
    intro s amount direction
    rw [amount, Fields.Record.get_of_field direction]
    rfl

theorem KeyboardAction.read_typed (a : KeyboardAction) {room : Nat}
    (h : (typed a.typeAndMembers).nesting ≤ room) :
    KeyboardAction.read room (typed a.typeAndMembers).toReading = .ok a := by
  obtain ⟨room, rfl⟩ := Nat.exists_eq_add_of_le' (Nat.le_of_add_left_le h)
  rw [KeyboardAction.read]
  cases a with
  | typeText text | pressKey text =>
    refine Tags.read_bind rfl (by simp [typeAndMembers, tags]) h ?_
    refine Fields.readRecord_single rfl rfl ?_
    intro s value
    rw [value]
    rfl
  | pressCombination keys =>
    have inside : nestingOfItems (keys.map .string) + 1 ≤ room := by
      simpa [typed, typeAndMembers, strings, nesting, nestingOfMembers] using h
    obtain ⟨room, rfl⟩ := Nat.exists_eq_add_of_le' (Nat.le_of_add_left_le inside)
    refine Tags.read_bind rfl (by simp [typeAndMembers, tags]) h ?_
    refine Fields.readRecord_single rfl (asStrings_toReading keys room) ?_
    intro s value
    rw [value]
    rfl

theorem SystemAction.read_typed (a : SystemAction) {room : Nat}
    (h : (typed a.typeAndMembers).nesting ≤ room) :
    SystemAction.read room (typed a.typeAndMembers).toReading = .ok a := by
  obtain ⟨room, rfl⟩ := Nat.exists_eq_add_of_le' (Nat.le_of_add_left_le h)
  rw [SystemAction.read]
  cases a with
  | wait n =>
    refine Tags.read_bind rfl (by simp [typeAndMembers, tags]) h ?_
    refine Fields.readRecord_single rfl (asWord_toReading "u64" n) ?_
    intro s milliseconds
    rw [milliseconds]
    rfl
  | launch path args =>
    have inside : nestingOfItems (args.map .string) + 1 ≤ room := by
      simpa [typed, typeAndMembers, strings, nesting, nestingOfMembers] using h
    obtain ⟨room, rfl⟩ := Nat.exists_eq_add_of_le' (Nat.le_of_add_left_le inside)
    refine Tags.read_bind rfl (by simp [typeAndMembers, tags]) h ?_
    refine Fields.readRecord_pair rfl rfl rfl (asStrings_toReading args room) (by decide) ?_
    intro s path args
    rw [path, Fields.Record.getD, args]
    rfl
  | close process =>
    refine Tags.read_bind rfl (by simp [typeAndMembers, tags]) h ?_
    refine Fields.readRecord_single rfl rfl ?_
    intro s process
    rw [process]
    rfl

theorem FlowAction.read_typed (a : FlowAction) {room : Nat}
    (h : (typed a.typeAndMembers).nesting ≤ room) :
    FlowAction.read room (typed a.typeAndMembers).toReading = .ok a := by
  obtain ⟨room, rfl⟩ := Nat.exists_eq_add_of_le' (Nat.le_of_add_left_le h)
  rw [FlowAction.read]
  cases a with
  | stop | proceed => exact Tags.read_bind rfl (by simp [typeAndMembers]) h rfl
  | jumpTo target =>
    refine Tags.read_bind rfl (by simp [typeAndMembers, tags]) h ?_
    refine Fields.readRecord_single rfl rfl ?_
    intro s target
    rw [target]
    rfl

/-- What is written for an action has its category in front of what is written within the category. -/
theorem Action.read_of_category {category : String} {i : Nat} {t : String × List (String × Json)}
    {room : Nat} {next : Nat × Reading → Decoded Action} {r : Decoded Action}
    (index : Action.tags.variants.findIdx? (· == category) = some i)
    (keys : ∀ m ∈ t.2, m.1 ≠ "category")
    (h : (Json.object (("category", .string category) :: ("type", .string t.1) :: t.2)).nesting ≤ room)
    (result : (typed t).nesting ≤ room → next (i, (typed t).toReading) = r) :
    (Action.tags.read .stored room (Json.object
      (("category", .string category) :: ("type", .string t.1) :: t.2)).toReading >>= next) = r := by
  have inside : (typed t).nesting ≤ room := by
    simpa [typed, nesting, nestingOfMembers] using h
  refine Tags.read_bind index ?_ h (result inside)
  exact List.forall_mem_cons.mpr ⟨by simp [tags], keys⟩

theorem Action.read_toJson (a : Action) {room : Nat} (h : a.toJson.nesting ≤ room) :
    Action.read room a.toJson.toReading = .ok a := by
  rw [Action.read]
  cases a with
  | mouse a =>
    have keys : ∀ m ∈ a.typeAndMembers.2, m.1 ≠ "category" := by
      cases a <;> simp [MouseAction.typeAndMembers]
    refine Action.read_of_category rfl keys h fun inside => ?_
    change (MouseAction.read room (typed a.typeAndMembers).toReading >>= _) = _
    rw [MouseAction.read_typed a inside]
    rfl
  | keyboard a =>
    have keys : ∀ m ∈ a.typeAndMembers.2, m.1 ≠ "category" := by
      cases a <;> simp [KeyboardAction.typeAndMembers]
    refine Action.read_of_category rfl keys h fun inside => ?_
    change (KeyboardAction.read room (typed a.typeAndMembers).toReading >>= _) = _
    rw [KeyboardAction.read_typed a inside]
    rfl
  | system a =>
    have keys : ∀ m ∈ a.typeAndMembers.2, m.1 ≠ "category" := by
      cases a <;> simp [SystemAction.typeAndMembers]
    refine Action.read_of_category rfl keys h fun inside => ?_
    change (SystemAction.read room (typed a.typeAndMembers).toReading >>= _) = _
    rw [SystemAction.read_typed a inside]
    rfl
  | flow a =>
    have keys : ∀ m ∈ a.typeAndMembers.2, m.1 ≠ "category" := by
      cases a <;> simp [FlowAction.typeAndMembers]
    refine Action.read_of_category rfl keys h fun inside => ?_
    change (FlowAction.read room (typed a.typeAndMembers).toReading >>= _) = _
    rw [FlowAction.read_typed a inside]
    rfl

/-! ### Steps -/

/-- Nothing in a header nests. -/
theorem Header.nesting_members (h : Header) : nestingOfMembers h.members = 0 := by
  obtain ⟨id, label, delayBefore, delayAfter⟩ := h
  cases label <;> cases delayBefore <;> cases delayAfter <;> rfl

theorem Header.key_ne_type {h : Header} {m : String × Json} (hm : m ∈ h.members) : m.1 ≠ "type" := by
  unfold members at hm
  simp only [List.mem_append, List.mem_singleton] at hm
  rcases hm with ((rfl | hm) | hm) | hm
  · show "id" ≠ "type"
    decide
  all_goals
    rw [key_of_mem_optional hm]
    decide

theorem asOption_millisecondsJson (n : UInt64) :
    (millisecondsJson n).toReading.asOption Reading.asMilliseconds = .ok (some n) :=
  congrArg (some <$> ·) (asWord_toReading "u64" n)

/-- The fields that a header fills. -/
def Header.entries (h : Header) : Partial Step.Field.Value :=
  (((Partial.empty.set .id h.id).setIf .label (h.label.map some)).setIf .delayBefore
    (h.delayBefore.map some)).setIf .delayAfter (h.delayAfter.map some)

@[simp] theorem Header.entries_of_not_mem (h : Header) {i : Step.Field} (own : i ∉ Header.fields) :
    h.entries i = none := by
  simp only [fields, List.mem_cons, List.not_mem_nil, or_false, not_or] at own
  obtain ⟨id, label, delayBefore, delayAfter⟩ := own
  simp [entries, Ne.symm id, Ne.symm label, Ne.symm delayBefore, Ne.symm delayAfter]

theorem Header.readMembers (h : Header) (title : String) (own : List Step.Field)
    (list : Reading → Decoded (List Step)) (room : Nat) (ms : List (String × Json)) :
    (Step.fields title own).readMembers (Step.Field.read list room) (toMemberReadings (h.members ++ ms))
        .empty =
      (Step.fields title own).readMembers (Step.Field.read list room) (toMemberReadings ms)
        h.entries := by
  unfold members entries
  rw [List.append_assoc, List.append_assoc, List.append_assoc, List.singleton_append,
    Fields.readMembers_cons (i := .id) rfl rfl rfl,
    Fields.readMembers_optional (i := .label) (g := some) rfl rfl (fun _ => rfl),
    Fields.readMembers_optional (i := .delayBefore) (g := some) rfl (by simp)
      asOption_millisecondsJson,
    Fields.readMembers_optional (i := .delayAfter) (g := some) rfl (by simp)
      asOption_millisecondsJson]

theorem Header.ofRecord_of_field {h : Header} {s : Fields.Record Step.Field.Value}
    (agrees : ∀ i ∈ Header.fields, s.field i = h.entries i) : Header.ofRecord s = .ok h := by
  have id : s.get .id = .ok h.id := by
    apply Fields.Record.get_of_field
    rw [agrees .id (by decide)]
    simp [entries]
  have label : s.getD .label none = h.label := by
    rw [Fields.Record.getD, agrees .label (by decide)]
    simp [entries]
  have delayBefore : s.getD .delayBefore none = h.delayBefore := by
    rw [Fields.Record.getD, agrees .delayBefore (by decide)]
    simp [entries]
  have delayAfter : s.getD .delayAfter none = h.delayAfter := by
    rw [Fields.Record.getD, agrees .delayAfter (by decide)]
    simp [entries]
  rw [ofRecord, id, label, delayBefore, delayAfter]
  rfl

theorem Step.listJson_eq (steps : List Step) : Step.listJson steps = steps.map Step.toJson := by
  induction steps with
  | nil => rfl
  | cons s steps ih => rw [listJson, ih, List.map_cons]

theorem Action.one_le_nesting (a : Action) : 1 ≤ a.toJson.nesting := by
  unfold toJson
  exact Nat.le_add_left 1 _

/-- How deep a step nests: deeper than its own members, which come after those of the header. -/
theorem Header.nesting_object (h : Header) (kind : String) (own : List (String × Json)) :
    (Json.object (("type", .string kind) :: h.members ++ own)).nesting = nestingOfMembers own + 1 := by
  rw [nesting, List.cons_append, nestingOfMembers, nestingOfMembers_append, h.nesting_members, nesting,
    Nat.zero_max, Nat.zero_max]

/-- Every step nests at least two deep. -/
theorem Step.two_le_nesting (s : Step) : 2 ≤ s.toJson.nesting := by
  cases s with
  | action h a =>
    have inside := a.one_le_nesting
    rw [toJson, h.nesting_object]
    simp only [nestingOfMembers]
    omega
  | conditional h c thens elses | observer h c steps | group h name steps =>
    rw [toJson, h.nesting_object]
    simp only [nestingOfMembers, nesting]
    omega

theorem Header.keys {h : Header} {own : List (String × Json)} (keys : ∀ m ∈ own, m.1 ≠ "type") :
    ∀ m ∈ h.members ++ own, m.1 ≠ Step.tags.tag := by
  intro m hm
  rcases List.mem_append.mp hm with hm | hm
  · exact Header.key_ne_type hm
  · exact keys m hm

/-- Whether the fields of the header are as `h` fills them. -/
def Header.Fills (h : Header) (p : Partial Step.Field.Value) : Prop := ∀ i ∈ fields, p i = h.entries i

theorem Header.fills (h : Header) : h.Fills h.entries := fun _ _ => rfl

theorem Header.Fills.set {h : Header} {p : Partial Step.Field.Value} (fills : h.Fills p)
    (i : Step.Field) (a : i.Value) (own : i ∉ Header.fields) : h.Fills (p.set i a) := by
  intro k hk
  have apart : i ≠ k := by
    rintro rfl
    exact own hk
  rw [Partial.set_of_ne _ _ apart, fills k hk]

/-- What is made of a step with the header `h` and the other members `ms`. -/
theorem Header.bind_of_members {h : Header} {title : String} {own : List Step.Field} {room : Nat}
    {list : Reading → Decoded (List Step)} {ms : List (String × Json)} {p : Partial Step.Field.Value}
    {next : Fields.Record Step.Field.Value → Decoded Step} {r : Decoded Step}
    (members : (Step.fields title own).readMembers (Step.Field.read list room) (toMemberReadings ms)
      h.entries = .ok p)
    (fills : h.Fills p) (result : ∀ s, s.field = p → Header.ofRecord s = .ok h → next s = r) :
    ((Step.fields title own).readRecord .stored (room + 1) (Step.Field.read list)
      (Json.object (h.members ++ ms)).toReading >>= next) = r := by
  refine Fields.readRecord_bind ((h.readMembers title own list room ms).trans members) fun s field => ?_
  refine result s field (Header.ofRecord_of_field ?_)
  rw [field]
  exact fills

section

variable {mode : Mode} {room : Nat} {header : Header}

theorem Step.read_action {a : Action} (h : (Step.action header a).toJson.nesting ≤ room + 2) :
    Step.read mode (room + 2) (Step.action header a).toJson.toReading = .ok (.action header a) := by
  have inside : a.toJson.nesting ≤ room + 1 := by
    rw [toJson, header.nesting_object] at h
    simpa [nestingOfMembers] using h
  rw [Step.read, Step.readWith]
  refine Tags.read_bind rfl (Header.keys (by simp)) h ?_
  refine Header.bind_of_members
    (Fields.readMembers_set rfl (by simp [Header.fields]) (Action.read_toJson a inside) rfl)
    (header.fills.set .action a (by decide)) fun s field head => ?_
  have action : s.get .action = .ok a := by
    apply Fields.Record.get_of_field
    simp [field]
  rw [head, action]
  rfl

theorem Step.read_conditional {c : Condition} {thens elses : List Step}
    (h : (Step.conditional header c thens elses).toJson.nesting ≤ room + 2)
    (first : ∀ s ∈ thens, Step.read .stored room s.toJson.toReading = .ok s)
    (second : ∀ s ∈ elses, Step.read .stored room s.toJson.toReading = .ok s) :
    Step.read mode (room + 2) (Step.conditional header c thens elses).toJson.toReading =
      .ok (.conditional header c thens elses) := by
  have inside : c.toJson.nesting ≤ room + 1 := by
    rw [toJson, header.nesting_object, nestingOfMembers] at h
    exact Nat.le_trans (Nat.le_max_left _ _) (Nat.le_of_succ_le_succ h)
  rw [toJson, listJson_eq, listJson_eq] at h ⊢
  rw [Step.read, Step.readWith]
  refine Tags.read_bind rfl (Header.keys (by simp)) h ?_
  refine Header.bind_of_members
    (Fields.readMembers_set rfl (by simp [Header.fields]) (Condition.read_toJson c inside) <|
      Fields.readMembers_set rfl (by simp [Header.fields]) (asList_toReading first) <|
      Fields.readMembers_set rfl (by simp [Header.fields]) (asList_toReading second) rfl)
    (((header.fills.set .condition c (by decide)).set .thenSteps thens (by decide)).set
      .elseSteps elses (by decide))
    fun s field head => ?_
  have condition : s.get .condition = .ok c := by
    apply Fields.Record.get_of_field
    simp [field]
  have first : s.getD .thenSteps [] = thens := by
    apply Fields.Record.getD_of_field
    simp [field]
  have second : s.getD .elseSteps [] = elses := by
    apply Fields.Record.getD_of_field
    simp [field]
  rw [head, condition, first, second]
  rfl

theorem Step.read_observer {c : Condition} {steps : List Step}
    (h : (Step.observer header c steps).toJson.nesting ≤ room + 2)
    (children : ∀ s ∈ steps, Step.read .stored room s.toJson.toReading = .ok s) :
    Step.read mode (room + 2) (Step.observer header c steps).toJson.toReading =
      .ok (.observer header c steps) := by
  have inside : c.toJson.nesting ≤ room + 1 := by
    rw [toJson, header.nesting_object, nestingOfMembers] at h
    exact Nat.le_trans (Nat.le_max_left _ _) (Nat.le_of_succ_le_succ h)
  rw [toJson, listJson_eq] at h ⊢
  rw [Step.read, Step.readWith]
  refine Tags.read_bind rfl (Header.keys (by simp)) h ?_
  refine Header.bind_of_members
    (Fields.readMembers_set rfl (by simp [Header.fields]) (Condition.read_toJson c inside) <|
      Fields.readMembers_set rfl (by simp [Header.fields]) (asList_toReading children) rfl)
    ((header.fills.set .condition c (by decide)).set .actionSteps steps (by decide))
    fun s field head => ?_
  have condition : s.get .condition = .ok c := by
    apply Fields.Record.get_of_field
    simp [field]
  have actionSteps : s.getD .actionSteps [] = steps := by
    apply Fields.Record.getD_of_field
    simp [field]
  rw [head, condition, actionSteps]
  rfl

theorem Step.read_group {name : String} {steps : List Step}
    (h : (Step.group header name steps).toJson.nesting ≤ room + 2)
    (children : ∀ s ∈ steps, Step.read .stored room s.toJson.toReading = .ok s) :
    Step.read mode (room + 2) (Step.group header name steps).toJson.toReading =
      .ok (.group header name steps) := by
  rw [toJson, listJson_eq] at h ⊢
  rw [Step.read, Step.readWith]
  refine Tags.read_bind rfl (Header.keys (by simp)) h ?_
  refine Header.bind_of_members
    (Fields.readMembers_set rfl (by simp [Header.fields]) rfl <|
      Fields.readMembers_set rfl (by simp [Header.fields]) (asList_toReading children) rfl)
    ((header.fills.set .groupName name (by decide)).set .steps steps (by decide))
    fun s field head => ?_
  have groupName : s.get .groupName = .ok name := by
    apply Fields.Record.get_of_field
    simp [field]
  have steps : s.getD .steps [] = steps := by
    apply Fields.Record.getD_of_field
    simp [field]
  rw [head, groupName, steps]
  rfl

end

mutual

/-- A step is read as itself, where the text goes on as well as out of the step around it. -/
theorem Step.read_toJson (s : Step) (mode : Mode) {room : Nat} (h : s.toJson.nesting ≤ room) :
    Step.read mode room s.toJson.toReading = .ok s := by
  obtain ⟨room, rfl⟩ := Nat.exists_eq_add_of_le' (Nat.le_trans s.two_le_nesting h)
  cases s with
  | action header a => exact Step.read_action h
  | conditional header c thens elses =>
    have inside : nestingOfItems (listJson thens) ≤ room ∧ nestingOfItems (listJson elses) ≤ room := by
      simp only [toJson, header.nesting_object, nestingOfMembers, nesting] at h
      omega
    exact Step.read_conditional h (Step.read_listJson thens .stored inside.1)
      (Step.read_listJson elses .stored inside.2)
  | observer header c steps =>
    have inside : nestingOfItems (listJson steps) ≤ room := by
      simp only [toJson, header.nesting_object, nestingOfMembers, nesting] at h
      omega
    exact Step.read_observer h (Step.read_listJson steps .stored inside)
  | group header name steps =>
    have inside : nestingOfItems (listJson steps) ≤ room := by
      simp only [toJson, header.nesting_object, nestingOfMembers, nesting] at h
      omega
    exact Step.read_group h (Step.read_listJson steps .stored inside)

theorem Step.read_listJson (steps : List Step) (mode : Mode) {room : Nat}
    (h : nestingOfItems (Step.listJson steps) ≤ room) :
    ∀ s ∈ steps, Step.read mode room s.toJson.toReading = .ok s := by
  cases steps with
  | nil => simp
  | cons s steps =>
    rw [listJson, nestingOfItems] at h
    rw [List.forall_mem_cons]
    exact ⟨Step.read_toJson s mode (Nat.le_trans (Nat.le_max_left _ _) h),
      Step.read_listJson steps mode (Nat.le_trans (Nat.le_max_right _ _) h)⟩

end

/-! ### Scripts -/

/-- The fields that settings fill. -/
def Settings.entries (s : Settings) : Partial Settings.Field.Value :=
  (((Partial.empty.set .delayBefore s.delayBefore).set .delayAfter s.delayAfter).setIf .checkDelay
    (s.checkDelay.map some)).set .threshold s.threshold

theorem Settings.readMembers (s : Settings) :
    Settings.fields.readMembers Settings.Field.read
      (toMemberReadings ([("defaultDelayBefore", millisecondsJson s.delayBefore),
        ("defaultDelayAfter", millisecondsJson s.delayAfter)] ++
        Json.optional "observerCheckDelay" s.checkDelay millisecondsJson ++
        [("defaultImageMatchThreshold", .real s.threshold)])) .empty = .ok s.entries := by
  refine Fields.readMembers_set rfl rfl (asWord_toReading "u64" s.delayBefore) ?_
  refine Fields.readMembers_set rfl rfl (asWord_toReading "u64" s.delayAfter) ?_
  refine (Fields.readMembers_optional (i := .checkDelay) (g := some) rfl rfl
    asOption_millisecondsJson).trans ?_
  exact Fields.readMembers_set rfl (by simp) rfl rfl

theorem Settings.read_toJson (s : Settings) (room : Nat) :
    Settings.read (room + 1) s.toJson.toReading = .ok s := by
  rw [Settings.read]
  refine Fields.readRecord_bind s.readMembers fun r field => ?_
  have before : r.getD .delayBefore 0 = s.delayBefore := by
    apply Fields.Record.getD_of_field
    simp [field, entries]
  have after : r.getD .delayAfter 0 = s.delayAfter := by
    apply Fields.Record.getD_of_field
    simp [field, entries]
  have check : r.getD .checkDelay none = s.checkDelay := by
    simp [Fields.Record.getD, field, entries]
  have threshold : r.getD .threshold usualThreshold = s.threshold := by
    apply Fields.Record.getD_of_field
    simp [field, entries]
  rw [before, after, check, threshold]
  rfl

/-- A script is read as itself where there is room for all that nests in it. -/
theorem Script.read_toJson (s : Script) {room : Nat} (h : s.toJson.nesting ≤ room) :
    Script.read room s.toJson.toReading = .ok s := by
  have inside : nestingOfItems (Step.listJson s.steps) + 2 ≤ room := by
    simp only [toJson, nesting, nestingOfMembers] at h
    omega
  obtain ⟨room, rfl⟩ := Nat.exists_eq_add_of_le' (Nat.le_of_add_left_le inside)
  have steps := asList_toReading
    (Step.read_listJson s.steps .streamed (Nat.le_of_add_le_add_right inside))
  rw [Script.read, toJson, Step.listJson_eq]
  refine Fields.readRecord_bind (Fields.readMembers_set rfl rfl rfl <|
    Fields.readMembers_set rfl rfl rfl <| Fields.readMembers_set rfl rfl steps <|
    Fields.readMembers_set rfl rfl (Settings.read_toJson s.settings room) rfl) fun r field => ?_
  have title : r.get .title = .ok s.name := by
    apply Fields.Record.get_of_field
    simp [field]
  have description : r.getD .description "" = s.description := by
    apply Fields.Record.getD_of_field
    simp [field]
  have steps : r.getD .steps [] = s.steps := by
    apply Fields.Record.getD_of_field
    simp [field]
  have settings : r.getD .settings default = s.settings := by
    apply Fields.Record.getD_of_field
    simp [field]
  rw [title, description, steps, settings]
  rfl

end DeskScript
