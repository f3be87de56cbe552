import DeskScript.Proofs.Loadable
import DeskScript.Proofs.Saving

/-! Which scripts that have been loaded can be saved and loaded again: all but those with a group so deep
that there is no room for the list of its steps, which the text may leave out and the saved text does
not. -/

namespace DeskScript

open Json

/-! ### Texts -/

/-- A text is loaded if a script is read from its document and nothing stands behind that. -/
theorem Script.ofText_eq_ok_iff {text : String} {s : Script} :
    Script.ofText text = .ok s ↔
      Script.read nestingLimit (Document.ofText text).root = .ok s ∧
        (Document.ofText text).trailing = false := by
  change ((Document.ofText text).decode Script.read).mapError (LoadError.unreadable .text) = .ok s ↔ _
  rw [Document.decode]
  cases Script.read nestingLimit (Document.ofText text).root with
  | error e =>
    constructor
    · rintro ⟨⟩
    · rintro ⟨⟨⟩, -⟩
  | ok s' =>
    cases (Document.ofText text).trailing with
    | true =>
      constructor
      · rintro ⟨⟩
      · rintro ⟨-, ⟨⟩⟩
    | false =>
      constructor
      · rintro ⟨⟩
        exact ⟨rfl, rfl⟩
      · rintro ⟨⟨⟩, -⟩
        rfl

theorem Script.read_of_ofText {text : String} {s : Script} (h : Script.ofText text = .ok s) :
    Script.read nestingLimit (Document.ofText text).root = .ok s :=
  (ofText_eq_ok_iff.mp h).1

/-- The text of a value is loaded as what is read from the value. -/
theorem Script.ofText_text_iff {j : Json} (numbers : ∀ n ∈ j.numbers, n.ReadsBack) {s : Script} :
    Script.ofText j.text = .ok s ↔ Script.read nestingLimit j.toReading = .ok s := by
  rw [ofText_eq_ok_iff, Document.ofText_text j numbers]
  exact and_iff_left rfl

/-! ### Written steps -/

theorem Json.nesting_le_nestingOfItems {j : Json} {js : List Json} (h : j ∈ js) :
    j.nesting ≤ nestingOfItems js := by
  induction js with
  | nil => cases h
  | cons j' js ih =>
    rw [nestingOfItems]
    rcases List.mem_cons.mp h with rfl | h
    · exact Nat.le_max_left _ _
    · exact Nat.le_trans (ih h) (Nat.le_max_right _ _)

theorem Step.nestingOfItems_listJson_le {steps : List Step} {n : Nat}
    (h : ∀ s ∈ steps, s.toJson.nesting ≤ n) : nestingOfItems (listJson steps) ≤ n := by
  refine nestingOfItems_le ?_
  rw [listJson_eq, List.forall_mem_map]
  exact h

theorem Step.nesting_le_listJson {s : Step} {steps : List Step} (h : s ∈ steps) :
    s.toJson.nesting ≤ nestingOfItems (listJson steps) := by
  refine nesting_le_nestingOfItems ?_
  rw [listJson_eq]
  exact List.mem_map_of_mem h

/-- A step nests one deeper than its action or condition and two deeper than the steps inside it. -/
theorem Step.nesting_toJson_le {s : Step} {n : Nat} (own : s.ownNesting ≤ n + 1)
    (children : ∀ steps ∈ s.childLists, ∀ t ∈ steps, t.toJson.nesting ≤ n) :
    s.toJson.nesting ≤ n + 2 := by
  cases s with
  | action h a =>
    rw [toJson, h.nesting_object]
    simpa [nestingOfMembers, ownNesting] using own
  | conditional h c thens elses =>
    have first := nestingOfItems_listJson_le (children thens (by simp [childLists]))
    have second := nestingOfItems_listJson_le (children elses (by simp [childLists]))
    rw [toJson, h.nesting_object]
    simp only [nestingOfMembers, nesting, ownNesting] at own ⊢
    omega
  | observer h c steps =>
    have inside := nestingOfItems_listJson_le (children steps (by simp [childLists]))
    rw [toJson, h.nesting_object]
    simp only [nestingOfMembers, nesting, ownNesting] at own ⊢
    omega
  | group h name steps =>
    have inside := nestingOfItems_listJson_le (children steps (by simp [childLists]))
    rw [toJson, h.nesting_object]
    simp only [nestingOfMembers, nesting]
    omega

theorem Step.nesting_child {s t : Step} {steps : List Step} (hs : steps ∈ s.childLists)
    (ht : t ∈ steps) : t.toJson.nesting + 2 ≤ s.toJson.nesting := by
  have inside := nesting_le_listJson ht
  cases s with
  | action h a => cases hs
  | conditional h c thens elses =>
    rw [toJson, h.nesting_object]
    simp only [nestingOfMembers, nesting]
    rcases List.mem_cons.mp hs with rfl | hs
    · omega
    · obtain rfl := List.mem_singleton.mp hs
      omega
  | observer h c _ | group h name _ =>
    obtain rfl := List.mem_singleton.mp hs
    rw [toJson, h.nesting_object]
    simp only [nestingOfMembers, nesting]
    omega

theorem Script.nesting_toJson (s : Script) :
    s.toJson.nesting = nestingOfItems (Step.listJson s.steps) + 2 := by
  obtain ⟨name, description, steps, before, after, check, threshold⟩ := s
  cases check <;> simp [toJson, Settings.toJson, Json.optional, millisecondsJson, Json.int, Json.real,
    nesting, nestingOfMembers]

/-! ### Depths -/

namespace Forest

variable {steps siblings : List Step} {room depth : Nat}

/-- A step deeper in the forest is loadable in less room. -/
theorem Level.loadable (h : ∀ t ∈ steps, t.Loadable room) (level : Level steps depth siblings) :
    ∀ t ∈ siblings, ∃ left, room = depth + left ∧ t.Loadable left := by
  induction level with
  | top => exact fun t ht => ⟨room, (Nat.zero_add room).symm, h t ht⟩
  | @inside depth siblings children s level hs hc ih =>
    intro t ht
    obtain ⟨left, same, loadable⟩ := ih s hs
    cases loadable with
    | bare header name =>
      obtain rfl := List.mem_singleton.mp hc
      cases ht
    | @roomy left _ _ _ inside => exact ⟨left, by omega, inside children hc t ht⟩

/-- Where no step is as deep as `room`, there is room for what every step is written as. -/
theorem Level.nesting_le (h : ∀ t ∈ steps, t.Loadable room)
    (none : ∀ siblings, Level steps room siblings → siblings = []) {left : Nat}
    (level : Level steps depth siblings) (same : room = depth + left) :
    ∀ t ∈ siblings, t.toJson.nesting ≤ 2 * left + 1 := by
  -- From the deepest steps upwards: what the steps inside take is known when a step is looked at.
  induction left generalizing depth siblings with
  | zero =>
    obtain rfl : depth = room := by omega
    obtain rfl := none siblings level
    exact List.forall_mem_nil _
  | succ left ih =>
    intro t ht
    obtain ⟨left', same', loadable⟩ := level.loadable h t ht
    obtain rfl : left' = left + 1 := by omega
    cases loadable with
    | roomy nests _ _ =>
      refine Step.nesting_toJson_le nests fun children hc => ?_
      exact ih (level.inside ht hc) (by omega)

/-- A step in the forest is written inside two arrays or objects for each step around it. -/
theorem Level.le_nesting (level : Level steps depth siblings) :
    ∀ t ∈ siblings, t.toJson.nesting + 2 * depth ≤ nestingOfItems (Step.listJson steps) := by
  induction level with
  | top => exact fun t ht => Step.nesting_le_listJson ht
  | inside level hs hc ih =>
    intro t ht
    have child := Step.nesting_child hc ht
    have parent := ih _ hs
    omega

end Forest

/-! ### Reading what is written -/

theorem Step.exists_toJson (s : Step) : ∃ ms, s.toJson = .object ms := by
  cases s <;> exact ⟨_, rfl⟩

/-- A step is read from what it is written as only where there is room for all of it. -/
theorem Step.nesting_le_of_read {mode : Mode} {room : Nat} {s s' : Step}
    (h : Step.read mode room s.toJson.toReading = .ok s') : s.toJson.nesting ≤ room := by
  obtain ⟨list, h⟩ : ∃ list, Step.readWith mode room list s.toJson.toReading = .ok s' := by
    unfold Step.read at h
    split at h <;> exact ⟨_, h⟩
  obtain ⟨x, tag, -⟩ := exists_of_bind h
  obtain ⟨ms, same⟩ := s.exists_toJson
  rw [same] at tag ⊢
  exact Tags.nesting_le_of_read tag

/-- A script is read from what it is written as only where there is room for all of it. -/
theorem Script.nesting_le_of_read {room : Nat} {s s' : Script}
    (h : Script.read (room + 2) s.toJson.toReading = .ok s') : s.toJson.nesting ≤ room + 2 := by
  obtain ⟨record, read, -⟩ := exists_of_bind h
  obtain ⟨p, members, -⟩ := exists_of_bind read
  have member : (⟨.ok "steps", none⟩, (Json.array (Step.listJson s.steps)).toReading) ∈
      toMemberReadings [("name", .string s.name), ("description", .string s.description),
        ("steps", .array (Step.listJson s.steps)), ("settings", s.settings.toJson)] := by
    simp [toMemberReadings]
  have index : Script.fields.index? "steps" = some .steps := rfl
  obtain ⟨steps, list⟩ := Fields.reads_of_readMembers members member rfl index
  have list : (Json.array (Step.listJson s.steps)).toReading.asList (room + 1) (Step.read .streamed) =
    .ok steps := list
  obtain ⟨less, same, -, items⟩ := Json.Reading.exists_of_asList list
  obtain rfl : less = room := by omega
  rw [s.nesting_toJson]
  refine Nat.add_le_add_right (Step.nestingOfItems_listJson_le fun t ht => ?_) 2
  have item : t.toJson.toReading ∈ (Json.array (Step.listJson s.steps)).toReading.parts := by
    rw [toReading, Json.Reading.parts, toReadings_eq, Step.listJson_eq, List.map_map]
    exact List.mem_map_of_mem ht
  obtain ⟨t', read⟩ := items _ item
  exact Step.nesting_le_of_read read

/-! ### Loading again -/

/-- A script that nests too deep is not loaded from its own text. -/
theorem Script.ofText_text_ne_ok {s : Script} (numbers : ∀ n ∈ s.toJson.numbers, n.ReadsBack)
    (deep : 127 < s.toJson.nesting) (s' : Script) : Script.ofText s.toJson.text ≠ .ok s' := by
  intro h
  have value := (Script.ofText_text_iff numbers).mp h
  have room : s.toJson.nesting ≤ 125 + 2 := Script.nesting_le_of_read value
  omega

/-- The thresholds of a script are finite if the steps are loadable. -/
theorem Script.thresholds_finite {s : Script} {room : Nat}
    (usual : s.settings.threshold.isFinite = true) (h : ∀ t ∈ s.steps, t.Loadable room) :
    ∀ x ∈ s.thresholds, x.isFinite = true := by
  refine List.forall_mem_cons.mpr ⟨usual, fun x hx => ?_⟩
  obtain ⟨t, ht, hx⟩ := List.mem_flatMap.mp hx
  obtain ⟨depth, siblings, level, ht⟩ := Forest.mem_everyStep_iff.mp ht
  obtain ⟨left, -, loadable⟩ := level.loadable h t ht
  cases loadable with
  | bare header name => cases hx
  | roomy _ finite _ => exact finite x hx

/-- Every script that is loaded has at most 62 steps around each of its steps, and with 62 around it a
step is a group without steps. If no step is that deep, the script is loaded again from what it is saved
as, given that the thresholds are written so that they are read back; and if one is, it is not. -/
theorem Script.reloads {text : String} {s : Script} (loaded : Script.ofText text = .ok s)
    (kept : ∀ x ∈ s.thresholds, x.isFinite = true → (Json.Number.real x).ReadsBack) :
    (∀ v ∈ Forest.walk s.steps, v.depth ≤ 62 ∧
      (v.depth = 62 → ∃ header name, v.step = .group header name [])) ∧
    ((∀ v ∈ Forest.walk s.steps, v.depth < 62) → Script.ofText s.toJson.text = .ok s) ∧
    ((∃ v ∈ Forest.walk s.steps, v.depth = 62) → ∀ s', Script.ofText s.toJson.text ≠ .ok s') := by
  have value : Script.read (2 * 62 + 3) (Document.ofText text).root = .ok s := read_of_ofText loaded
  obtain ⟨usual, loadable⟩ := Script.loadable_of_read value (Document.ofText_finite text)
  have finite := Script.thresholds_finite usual loadable
  have numbers := s.readsBack fun x hx => kept x hx (finite x hx)
  refine ⟨?_, fun shallow => ?_, ?_⟩
  · rintro ⟨t, depth, position⟩ hv
    obtain ⟨siblings, level, place⟩ := Forest.level_of_mem_walk hv
    obtain ⟨left, room, own⟩ := level.loadable loadable t (List.mem_of_getElem? place)
    refine ⟨room ▸ Nat.le_add_right depth left, fun deep => ?_⟩
    obtain rfl : left = 0 := by omega
    cases own with
    | bare header name => exact ⟨header, name, rfl⟩
  · have none : ∀ siblings, Forest.Level s.steps 62 siblings → siblings = [] := by
      intro siblings level
      refine List.eq_nil_iff_forall_not_mem.mpr fun t ht => ?_
      obtain ⟨i, hi⟩ := List.getElem?_of_mem ht
      exact absurd (shallow _ (level.mem_walk hi)) (Nat.lt_irrefl 62)
    have inside : nestingOfItems (Step.listJson s.steps) ≤ 2 * 62 + 1 :=
      Step.nestingOfItems_listJson_le (Forest.Level.top.nesting_le loadable none (by decide))
    have nests : s.toJson.nesting ≤ nestingLimit := by
      rw [s.nesting_toJson]
      exact Nat.add_le_add_right inside 2
    exact (Script.ofText_text_iff numbers).mpr (Script.read_toJson s nests)
  · rintro ⟨v, hv, deep⟩
    obtain ⟨siblings, level, place⟩ := Forest.level_of_mem_walk hv
    have inside := level.le_nesting v.step (List.mem_of_getElem? place)
    have own := v.step.two_le_nesting
    refine Script.ofText_text_ne_ok numbers ?_
    rw [s.nesting_toJson]
    omega

/-! ### Towers of groups -/

/-- A group with `n` groups in it, one inside the other. -/
def Step.tower : Nat → Step
  | 0 => .group ⟨"g", none, none, none⟩ "G" []
  | n + 1 => .group ⟨"g", none, none, none⟩ "G" [tower n]

/-- A tower as it may be written: its innermost group says nothing of steps. -/
def Step.towerJson : Nat → Json
  | 0 => .object [("type", .string "group"), ("id", .string "g"), ("name", .string "G")]
  | n + 1 => .object [("type", .string "group"), ("id", .string "g"), ("name", .string "G"),
      ("steps", .array [towerJson n])]

def Script.tower (n : Nat) : Script := ⟨"tower", "", [Step.tower n], default⟩

def Script.towerJson (n : Nat) : Json :=
  .object [("name", .string "tower"), ("steps", .array [Step.towerJson n])]

theorem Step.nesting_towerJson (n : Nat) : (towerJson n).nesting = 2 * n + 1 := by
  induction n with
  | zero => rfl
  | succ n ih =>
    simp only [towerJson, nesting, nestingOfMembers, nestingOfItems, ih]
    omega

theorem Step.numbers_towerJson (n : Nat) : (towerJson n).numbers = [] := by
  induction n with
  | zero => rfl
  | succ n ih => simp [towerJson, numbers, numbersOfMembers, numbersOfItems, ih]

/-- Saved, a tower takes one level more, for the list of steps of its innermost group. -/
theorem Step.nesting_tower (n : Nat) : (tower n).toJson.nesting = 2 * n + 2 := by
  induction n with
  | zero => rfl
  | succ n ih =>
    rw [tower, toJson, Header.nesting_object]
    simp only [listJson, nestingOfMembers, nestingOfItems, nesting, ih]
    omega

theorem Step.thresholds_tower (n : Nat) : (Forest.everyStep [tower n]).flatMap Step.thresholds = [] := by
  induction n with
  | zero => rfl
  | succ n ih => simpa [tower, Forest.everyStep, within, thresholds] using ih

theorem Step.read_towerJson (mode : Mode) (n spare : Nat) :
    Step.read mode (2 * (n + spare) + 1) (towerJson n).toReading = .ok (tower n) := by
  induction n generalizing mode with
  | zero => cases mode <;> cases spare <;> rfl
  | succ n ih =>
    have room : (towerJson (n + 1)).nesting ≤ 2 * (n + spare) + 3 := by
      rw [nesting_towerJson]
      omega
    have inside : (Json.array ([tower n].map fun _ => towerJson n)).toReading.asList
        (2 * (n + spare) + 1 + 1) (fun _ => Step.read .stored (2 * (n + spare) + 1)) = .ok [tower n] :=
      asList_toReading fun t ht => by rw [List.mem_singleton.mp ht, ih .stored]
    have more : 2 * (n + 1 + spare) + 1 = 2 * (n + spare) + 1 + 2 := by omega
    rw [more, Step.read, Step.readWith]
    refine Tags.read_bind rfl (by simp [tags]) room ?_
    refine @Header.bind_of_members ⟨"g", none, none, none⟩ _ _ _ _ _ _ _ _
      (Fields.readMembers_set rfl (by simp [Header.fields]) rfl <|
        Fields.readMembers_set rfl (by simp [Header.fields]) inside rfl)
      (((Header.fills _).set .groupName "G" (by decide)).set .steps [tower n] (by decide))
      fun s field head => ?_
    have name : s.get .groupName = .ok "G" := by
      apply Fields.Record.get_of_field
      simp [field]
    have steps : s.getD .steps [] = [tower n] := by
      apply Fields.Record.getD_of_field
      simp [field]
    rw [head, name, steps]
    rfl

theorem Script.ofText_towerJson {n : Nat} (h : n ≤ 62) :
    Script.ofText (Script.towerJson n).text = .ok (Script.tower n) := by
  have numbers : ∀ m ∈ (towerJson n).numbers, m.ReadsBack := by
    simp [towerJson, Json.numbers, numbersOfMembers, numbersOfItems, Step.numbers_towerJson]
  refine (Script.ofText_text_iff numbers).mpr ?_
  obtain ⟨spare, same⟩ := Nat.exists_eq_add_of_le h
  have step := Step.read_towerJson .streamed n spare
  rw [← same] at step
  have list : (Json.array ([Step.tower n].map fun _ => Step.towerJson n)).toReading.asList 126
      (Step.read .streamed) = .ok [Step.tower n] :=
    asList_toReading fun t ht => by rw [List.mem_singleton.mp ht, step]
  rw [Script.read, Script.towerJson]
  refine Fields.readRecord_bind (Fields.readMembers_set rfl rfl rfl <|
    Fields.readMembers_set rfl rfl list rfl) fun r field => ?_
  have title : r.get .title = .ok "tower" := by
    apply Fields.Record.get_of_field
    simp [field]
  have description : r.getD .description "" = "" := by
    simp [Fields.Record.getD, field]
  have steps : r.getD .steps [] = [Step.tower n] := by
    apply Fields.Record.getD_of_field
    simp [field]
  have settings : r.getD .settings default = default := by
    simp [Fields.Record.getD, field]
  rw [title, description, steps, settings]
  rfl

theorem Script.readsBack_tower (n : Nat) :
    ∀ x ∈ (tower n).thresholds, (Json.Number.real x).ReadsBack := by
  have thresholds : (tower n).thresholds = [0.7] := congrArg (_ :: ·) (Step.thresholds_tower n)
  rw [thresholds, List.forall_mem_singleton]
  exact @Number.readsBack_of_scan (.real 0.7) '0' ['.', '7'] (by decide +kernel) (.inr rfl) rfl

/-- Two groups are saved and loaded again. -/
theorem Script.reloads_two_groups :
    (Script.towerJson 1).text =
        "\x7b\"name\":\"tower\",\"steps\":[\x7b\"type\":\"group\",\"id\":\"g\",\"name\":\"G\"," ++
          "\"steps\":[\x7b\"type\":\"group\",\"id\":\"g\",\"name\":\"G\"\x7d]\x7d]\x7d" ∧
      Script.ofText (Script.towerJson 1).text = .ok (Script.tower 1) ∧
      Script.ofText (Script.tower 1).toJson.text = .ok (Script.tower 1) := by
  have loaded := Script.ofText_towerJson (by decide : 1 ≤ 62)
  refine ⟨by decide +kernel, loaded, ?_⟩
  refine (Script.reloads loaded fun x hx _ => readsBack_tower 1 x hx).2.1 ?_
  rw [Forest.walk_eq_visits]
  decide

/-- Of 63 groups inside each other the innermost may leave out its steps, but it is saved with them. -/
theorem Script.reloads_not_63_groups :
    Script.ofText (Script.towerJson 62).text = .ok (Script.tower 62) ∧
      (∀ x ∈ (Script.tower 62).thresholds, (Json.Number.real x).ReadsBack) ∧
      ∀ s, Script.ofText (Script.tower 62).toJson.text ≠ .ok s := by
  refine ⟨Script.ofText_towerJson (Nat.le_refl 62), readsBack_tower 62, ?_⟩
  refine Script.ofText_text_ne_ok (Script.readsBack _ (readsBack_tower 62)) ?_
  have inside : (Step.tower 62).toJson.nesting = 126 := Step.nesting_tower 62
  rw [Script.nesting_toJson, tower, Step.listJson, Step.listJson, nestingOfItems, nestingOfItems, inside]
  decide

end DeskScript
