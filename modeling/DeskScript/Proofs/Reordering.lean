import DeskScript.Proofs.Leniency
import DeskScript.Proofs.Reloading
import DeskScript.Proofs.Scanning

/-! Scripts from rearranged texts: whoever writes the members of a script in another order, or has new
members among them, gets the same script. -/

namespace DeskScript

open Json

variable {mode : Mode} {room : Nat}

/-! ### Elements -/

theorem Coordinate.lists : Coordinate.fields.Lists (fun _ => .simple) [("x", .simple), ("y", .simple)] :=
  ⟨rfl, by decide⟩

theorem Pattern.lists :
    Pattern.fields.Lists (fun _ => .simple) [("base64Data", .simple), ("matchThreshold", .simple)] :=
  ⟨rfl, by decide⟩

theorem Element.lenient : Lenient .stored Kind.element.shape room (Element.read room) := by
  refine Tags.lenient Element.tags rfl ?_
  refine List.forall_mem_cons.mpr ⟨?_, List.forall_mem_singleton.mpr ?_⟩
  · exact (Coordinate.lists.lenient fun _ _ _ _ => .simple).bind _
  · exact (Pattern.lists.lenient fun _ _ _ _ => .simple).bind _

/-! ### Conditions -/

def Condition.Field.kind : Condition.Field → Kind
  | .element => .element
  | .conditions => .conditions
  | .condition => .condition

theorem Condition.lists (title : String) (field : Condition.Field) :
    (Condition.fields title field).Lists Condition.Field.kind [(field.name, field.kind)] := by
  refine ⟨rfl, List.forall_mem_singleton.mpr ?_⟩
  cases field <;> rfl

theorem Condition.lenient_readWith {inner : Json.Reading → Decoded Condition}
    {list : Json.Reading → Decoded (List Condition)}
    (own : ∀ less, room = less + 1 → Lenient .stored Kind.condition.shape less inner)
    (all : ∀ less, room = less + 1 → Lenient .stored Kind.conditions.shape less list) :
    Lenient .stored Kind.condition.shape room (Condition.readWith room inner list) := by
  let read : Nat → (i : Condition.Field) → Json.Reading → Decoded i.Value := fun room i =>
    match i with
    | .element => Element.read room
    | .conditions => list
    | .condition => inner
  have field (title : String) (field : Condition.Field) :
      Lenient .stored (.record [(field.name, field.kind)]) room
        ((Condition.fields title field).readRecord .stored room read) := by
    refine (lists title field).lenient fun less same i _ => ?_
    cases i with
    | element => exact Element.lenient
    | conditions => exact all less same
    | condition => exact own less same
  refine Tags.lenient Condition.tags rfl ?_
  refine List.forall_mem_cons.mpr ⟨(field "ElementExists" .element).bind _, ?_⟩
  refine List.forall_mem_cons.mpr ⟨(field "ElementNotExists" .element).bind _, ?_⟩
  refine List.forall_mem_cons.mpr ⟨(field "And" .conditions).bind _, ?_⟩
  refine List.forall_mem_cons.mpr ⟨(field "Or" .conditions).bind _, ?_⟩
  exact List.forall_mem_singleton.mpr ((field "Not" .condition).bind _)

theorem Condition.lenient (room : Nat) :
    Lenient .stored Kind.condition.shape room (Condition.read room) := by
  induction room using Nat.twoStepInduction with
  | zero => exact lenient_readWith nofun nofun
  | one =>
    refine lenient_readWith (fun less same => ?_) fun less same => ?_
    · cases same
      exact lenient_readWith nofun nofun
    · cases same
      exact .noRoom
  | more room own next =>
    refine lenient_readWith (fun less same => ?_) fun less same => ?_
    · cases same
      exact next
    · cases same
      refine .list fun less same => ?_
      cases same
      exact own

/-! ### Actions -/

/-- A unit variant has nothing in it that could be met in another order. -/
theorem Json.Lenient.nothing : Lenient mode (.record []) room Json.Reading.asNothing := by
  intro r r' a edit value
  cases edit with
  | members new order unknown admitted => exact value
  | inMember before after field named inside => cases field
  | inField before after field inside => cases field

def Action.Field.kind : Action.Field → Kind
  | .target | .start | .finish => .element
  | _ => .simple

theorem Action.lenient_readFields (title : String) (all : List Action.Field) {table : List (String × Kind)}
    (names : table = all.map fun i => (i.name, i.kind))
    (apart : ∀ i ∈ all, all.find? (fun j => j.name == i.name) = some i) :
    Lenient .stored (.record table) room (Action.readFields title all room) := by
  have lists : (⟨"struct variant " ++ title, all, Action.Field.name⟩ : Fields Action.Field).Lists
    Action.Field.kind table := ⟨names, apart⟩
  refine lists.lenient fun less _ i _ => ?_
  cases i with
  | target | start | finish => exact Element.lenient
  | _ => exact .simple

theorem MouseAction.lenient : Lenient .stored .mouse room (MouseAction.read room) := by
  refine Tags.lenient MouseAction.tags rfl ?_
  refine List.forall_mem_cons.mpr ⟨.bind ?_ _, ?_⟩
  · exact Action.lenient_readFields "MouseAction::LeftClick" [.target] rfl (by decide)
  refine List.forall_mem_cons.mpr ⟨.bind ?_ _, ?_⟩
  · exact Action.lenient_readFields "MouseAction::RightClick" [.target] rfl (by decide)
  refine List.forall_mem_cons.mpr ⟨.bind ?_ _, ?_⟩
  · exact Action.lenient_readFields "MouseAction::DoubleClick" [.target] rfl (by decide)
  refine List.forall_mem_cons.mpr ⟨.bind ?_ _, ?_⟩
  · exact Action.lenient_readFields "MouseAction::MoveTo" [.target] rfl (by decide)
  refine List.forall_mem_cons.mpr ⟨.bind ?_ _, ?_⟩
  · exact Action.lenient_readFields "MouseAction::Drag" [.start, .finish] rfl (by decide)
  refine List.forall_mem_singleton.mpr (.bind ?_ _)
  exact Action.lenient_readFields "MouseAction::Scroll" [.amount, .direction] rfl (by decide)

theorem KeyboardAction.lenient : Lenient .stored .keyboard room (KeyboardAction.read room) := by
  refine Tags.lenient KeyboardAction.tags rfl ?_
  refine List.forall_mem_cons.mpr ⟨.bind ?_ _, ?_⟩
  · exact Action.lenient_readFields "KeyboardAction::TypeText" [.text] rfl (by decide)
  refine List.forall_mem_cons.mpr ⟨.bind ?_ _, ?_⟩
  · exact Action.lenient_readFields "KeyboardAction::PressKey" [.key] rfl (by decide)
  refine List.forall_mem_singleton.mpr (.bind ?_ _)
  exact Action.lenient_readFields "KeyboardAction::PressKeyCombination" [.keys] rfl (by decide)

theorem SystemAction.lenient : Lenient .stored .system room (SystemAction.read room) := by
  refine Tags.lenient SystemAction.tags rfl ?_
  refine List.forall_mem_cons.mpr ⟨.bind ?_ _, ?_⟩
  · exact Action.lenient_readFields "SystemAction::Wait" [.milliseconds] rfl (by decide)
  refine List.forall_mem_cons.mpr ⟨.bind ?_ _, ?_⟩
  · exact Action.lenient_readFields "SystemAction::LaunchApplication" [.path, .args] rfl (by decide)
  refine List.forall_mem_singleton.mpr (.bind ?_ _)
  exact Action.lenient_readFields "SystemAction::CloseApplication" [.process] rfl (by decide)

theorem FlowAction.lenient : Lenient .stored .flow room (FlowAction.read room) := by
  refine Tags.lenient FlowAction.tags rfl ?_
  refine List.forall_mem_cons.mpr ⟨Lenient.nothing.bind _, ?_⟩
  refine List.forall_mem_cons.mpr ⟨.bind ?_ _, ?_⟩
  · exact Action.lenient_readFields "FlowAction::JumpTo" [.targetStep] rfl (by decide)
  exact List.forall_mem_singleton.mpr (Lenient.nothing.bind _)

/-- An action is tagged twice: what is left without its category has a type as its tag. -/
theorem Action.lenient : Lenient .stored Kind.action.shape room (Action.read room) := by
  refine Tags.lenient Action.tags rfl ?_
  refine List.forall_mem_cons.mpr ⟨MouseAction.lenient.bind _, ?_⟩
  refine List.forall_mem_cons.mpr ⟨KeyboardAction.lenient.bind _, ?_⟩
  refine List.forall_mem_cons.mpr ⟨SystemAction.lenient.bind _, ?_⟩
  exact List.forall_mem_singleton.mpr (FlowAction.lenient.bind _)

/-! ### Steps -/

def Step.Field.kind : Step.Field → Kind
  | .action => .action
  | .condition => .condition
  | .thenSteps | .elseSteps | .actionSteps | .steps => .steps
  | _ => .simple

theorem Step.lenient_readRecord (title : String) (own : List Step.Field) {table : List (String × Kind)}
    {list : Json.Reading → Decoded (List Step)}
    (all : ∀ less, room = less + 1 → Lenient .stored Kind.steps.shape less list)
    (names : table = (Header.fields ++ own).map fun i => (i.name, i.kind))
    (apart : ∀ i ∈ Header.fields ++ own,
      (Header.fields ++ own).find? (fun j => j.name == i.name) = some i) :
    Lenient .stored (.record table) room
      ((Step.fields title own).readRecord .stored room (Step.Field.read list)) := by
  have lists : (Step.fields title own).Lists Step.Field.kind table := ⟨names, apart⟩
  refine lists.lenient fun less same i _ => ?_
  cases i with
  | action => exact Action.lenient
  | condition => exact Condition.lenient less
  | thenSteps | elseSteps | actionSteps | steps => exact all less same
  | _ => exact .simple

theorem Step.lenient_readWith {list : Json.Reading → Decoded (List Step)}
    (all : ∀ less, room = less + 1 → Lenient .stored Kind.steps.shape less list) :
    Lenient mode Kind.step.shape room (Step.readWith mode room list) := by
  refine Tags.lenient Step.tags rfl ?_
  refine List.forall_mem_cons.mpr ⟨.bind ?_ _, ?_⟩
  · exact lenient_readRecord "ActionStep" [.action] all rfl (by decide)
  refine List.forall_mem_cons.mpr ⟨.bind ?_ _, ?_⟩
  · exact lenient_readRecord "ConditionalBlock" [.condition, .thenSteps, .elseSteps] all rfl (by decide)
  refine List.forall_mem_cons.mpr ⟨.bind ?_ _, ?_⟩
  · exact lenient_readRecord "ObserverBlock" [.condition, .actionSteps] all rfl (by decide)
  refine List.forall_mem_singleton.mpr (.bind ?_ _)
  exact lenient_readRecord "GroupBlock" [.groupName, .steps] all rfl (by decide)

theorem Step.lenient (mode : Mode) (room : Nat) :
    Lenient mode Kind.step.shape room (Step.read mode room) := by
  induction room using Nat.twoStepInduction generalizing mode with
  | zero => exact lenient_readWith nofun
  | one =>
    refine lenient_readWith fun less same => ?_
    cases same
    exact .noRoom
  | more room own next =>
    refine lenient_readWith fun less same => ?_
    cases same
    refine .list fun less same => ?_
    cases same
    exact own .stored

/-! ### Scripts -/

theorem Settings.lenient : Lenient .streamed Kind.settings.shape room (Settings.read room) := by
  have lists : Settings.fields.Lists (fun _ => .simple) [("defaultDelayBefore", .simple),
    ("defaultDelayAfter", .simple), ("observerCheckDelay", .simple),
    ("defaultImageMatchThreshold", .simple)] := ⟨rfl, by decide⟩
  exact (lists.lenient fun _ _ _ _ => .simple).bind _

def Script.Field.kind : Script.Field → Kind
  | .title | .description => .simple
  | .steps => .steps
  | .settings => .settings

theorem Script.lenient : Lenient .streamed Kind.script.shape room (Script.read room) := by
  have lists : Script.fields.Lists Script.Field.kind [("name", .simple), ("description", .simple),
    ("steps", .steps), ("settings", .settings)] := ⟨rfl, by decide⟩
  refine (lists.lenient fun less _ i _ => ?_).bind _
  cases i with
  | title | description => exact .simple
  | steps => exact .list fun less _ => Step.lenient .streamed less
  | settings => exact Settings.lenient

/-! ### Texts -/

theorem Fields.closed_of_readRecord {ι : Type} [DecidableEq ι] {α : ι → Type} {fields : Fields ι}
    {read : Nat → (i : ι) → Json.Reading → Decoded (α i)} {r : Json.Reading} {x : Fields.Record α}
    (h : fields.readRecord mode room read r = .ok x) : r.Closed := by
  have closed {ending : Option Fault} (whole : unless? ending = .ok ()) : ending = none := by
    cases ending with
    | none => rfl
    | some f => cases whole
  unfold Fields.readRecord at h
  split at h
  · cases h
  · cases h
  · obtain ⟨_, -, h⟩ := exists_of_bind h
    obtain ⟨_, whole, -⟩ := exists_of_bind h
    exact closed whole
  · obtain ⟨⟨_, rest⟩, -, h⟩ := exists_of_bind h
    dsimp only at h
    split at h
    · obtain ⟨_, whole, -⟩ := exists_of_bind h
      exact closed whole
    · split at h <;> cases h
  · exact absurd h (Json.Reading.refuse_ne_ok _ _ _)

/-- A text that is loaded spells a reading. -/
theorem Script.exists_spells {text : String} {s : Script} (h : Script.ofText text = .ok s) :
    ∃ r, Spells text r := by
  obtain ⟨value, bare⟩ := ofText_eq_ok_iff.mp h
  obtain ⟨_, record, -⟩ := exists_of_bind value
  exact ⟨_, spells_of_document (Fields.closed_of_readRecord record) bare⟩

/-- A text is loaded as what is read from the reading that it spells. -/
theorem Script.ofText_of_spells {text : String} {r : Json.Reading} (h : Spells text r) :
    Script.ofText text = (Script.read nestingLimit r).mapError (LoadError.unreadable .text) := by
  unfold ofText load Route.document
  rw [h.document]
  change ((Script.read nestingLimit r >>= fun s => .ok s).mapError _) = _
  cases Script.read nestingLimit r <;> rfl

theorem Script.read_of_rearranged {r r' : Json.Reading} {s : Script}
    (edits : Relation.ReflTransGen (Rearranged Json.Reading.Passable .streamed Kind.script.shape room) r r')
    (h : Script.read room r = .ok s) : Script.read room r' = .ok s := by
  induction edits with
  | refl => exact h
  | tail _ edit ih => exact lenient edit ih

/-- A text that is loaded spells a reading. Every text of a reading that comes of it by rearranging
objects, one after the other, is loaded as the same script. -/
theorem Script.rearranges {text : String} {s : Script} (h : Script.ofText text = .ok s) :
    (∃ r, Spells text r) ∧ ∀ (r r' : Json.Reading) (text' : String), Spells text r →
      Relation.ReflTransGen (Rearranged Json.Reading.Passable .streamed Kind.script.shape nestingLimit) r r' →
      Spells text' r' → Script.ofText text' = .ok s := by
  refine ⟨exists_spells h, fun r r' text' spells edits spells' => ?_⟩
  rw [ofText_of_spells spells] at h
  rw [ofText_of_spells spells']
  cases value : Script.read nestingLimit r with
  | error e =>
    rw [value] at h
    cases h
  | ok s' =>
    rw [value] at h
    cases h
    rw [read_of_rearranged edits value]
    rfl

/-- A script of which the text gives one step. -/
def Script.ofStep (step : Json.Reading) : Json.Reading :=
  .object
    [(⟨.ok "name", none⟩, (Json.string "s").toReading), (⟨.ok "steps", none⟩, .array [step] none)] none

theorem Script.rearranged_ofStep {Admitted : Mode → Nat → Json.Reading → Prop} {r r' : Json.Reading}
    (h : Rearranged Admitted .streamed Kind.step.shape 125 r r') :
    Rearranged Admitted .streamed Kind.script.shape nestingLimit (ofStep r) (ofStep r') := by
  have field : ("steps", Kind.steps) ∈ [("name", Kind.simple), ("description", .simple), ("steps", .steps),
    ("settings", .settings)] := by decide
  have item : Rearranged Admitted .streamed Kind.steps.shape 126 (.array [r] none) (.array [r'] none) :=
    .inItem [] [] h
  exact .inMember (toMemberReadings [("name", .string "s")]) [] field rfl item

def Action.halting : Json := .object [("category", .string "flow"), ("type", .string "stop")]

/-- The action with the category last, and with a member that only other actions have. -/
def Action.haltingRearranged : Json :=
  .object [("text", .string ""), ("type", .string "stop"), ("category", .string "flow")]

/-- A script that only stops, in the usual order. -/
def Script.halting : Json := .object [("name", .string "s"), ("steps", .array [.object
  [("type", .string "action"), ("id", .string "a"), ("action", Action.halting)]])]

/-- The same script with that action, and with the step in the opposite order. -/
def Script.haltingRearranged : Json := .object [("name", .string "s"), ("steps", .array [.object
  [("action", Action.haltingRearranged), ("id", .string "a"), ("type", .string "action")]])]

theorem Action.rearranged_halting :
    Rearranged Json.Reading.Passable .stored Kind.action.shape 124 halting.toReading
      haltingRearranged.toReading := by
  have text : Json.Reading.Passable .stored 123 (Json.string "").toReading :=
    ⟨⟨.string _, Nat.zero_le _⟩, fun _ => ⟨_, rfl⟩⟩
  have stop : Rearranged Json.Reading.Passable .stored (.record []) 124 (.object [] none)
      (Json.object [("text", .string "")]).toReading :=
    .members (toMemberReadings [("text", .string "")]) (.refl _)
      (List.forall_mem_singleton.mpr ⟨"text", rfl, List.not_mem_nil⟩) (List.forall_mem_singleton.mpr text)
  have flow : Rearranged Json.Reading.Passable .stored .flow 124
      (Json.object [("type", .string "stop")]).toReading
      (Json.object [("text", .string ""), ("type", .string "stop")]).toReading := by
    refine .inVariant [] [] (toMemberReadings [("text", .string "")]) [] rfl rfl rfl ?_ stop
    exact List.forall_mem_singleton.mpr (by decide)
  refine .inVariant [] (toMemberReadings [("type", .string "stop")])
    (toMemberReadings [("text", .string ""), ("type", .string "stop")]) [] rfl rfl rfl ?_ flow
  exact List.forall_mem_cons.mpr ⟨by decide, List.forall_mem_singleton.mpr (by decide)⟩

theorem Script.rearranged_halting :
    Relation.ReflTransGen (Rearranged Json.Reading.Passable .streamed Kind.script.shape nestingLimit)
      halting.toReading haltingRearranged.toReading := by
  have field : ("action", Kind.action) ∈ [("id", Kind.simple), ("label", .simple), ("delayBefore", .simple),
    ("delayAfter", .simple), ("action", .action)] := by decide
  have tagged (m m' : Quoted × Json.Reading) (h : m.1.exact ≠ .ok "type") (h' : m'.1.exact ≠ .ok "type") :
      ∀ m'' ∈ [m, m'], m''.1.exact ≠ .ok "type" :=
    List.forall_mem_cons.mpr ⟨h, List.forall_mem_singleton.mpr h'⟩
  -- First the action is rearranged and the tag of the step put last, then the members before the tag.
  have first : Rearranged Json.Reading.Passable .streamed Kind.step.shape 125
      (Json.object [("type", .string "action"), ("id", .string "a"), ("action", Action.halting)]).toReading
      (Json.object [("id", .string "a"), ("action", Action.haltingRearranged),
        ("type", .string "action")]).toReading := by
    refine .inVariant [] (toMemberReadings [("id", .string "a"), ("action", Action.halting)])
      (toMemberReadings [("id", .string "a"), ("action", Action.haltingRearranged)]) [] rfl rfl rfl
      (tagged _ _ (by decide) (by decide)) ?_
    exact .inMember (toMemberReadings [("id", .string "a")]) [] field rfl Action.rearranged_halting
  have second : Rearranged Json.Reading.Passable .streamed Kind.step.shape 125
      (Json.object [("id", .string "a"), ("action", Action.haltingRearranged),
        ("type", .string "action")]).toReading
      (Json.object [("action", Action.haltingRearranged), ("id", .string "a"),
        ("type", .string "action")]).toReading := by
    refine .inVariant (toMemberReadings [("id", .string "a"), ("action", Action.haltingRearranged)]) []
      (toMemberReadings [("action", Action.haltingRearranged), ("id", .string "a")]) [] rfl rfl rfl
      (tagged _ _ (by decide) (by decide)) ?_
    exact .members [] (.swap _ _ _) (List.forall_mem_nil _) (List.forall_mem_nil _)
  exact .tail (.single (rearranged_ofStep first)) (rearranged_ofStep second)

theorem Script.rearranges_halting :
    let s : Script := ⟨"s", "", [.action ⟨"a", none, none, none⟩ (.flow .stop)], default⟩
    Script.ofText halting.text = .ok s ∧ Script.ofText haltingRearranged.text = .ok s := by
  have value : Script.read nestingLimit halting.toReading =
      .ok ⟨"s", "", [.action ⟨"a", none, none, none⟩ (.flow .stop)], default⟩ := rfl
  have h := (ofText_text_iff (List.forall_mem_nil _)).mpr value
  have spells : Spells halting.text halting.toReading := Json.spells_text _ (List.forall_mem_nil _)
  have spells' : Spells haltingRearranged.text haltingRearranged.toReading :=
    Json.spells_text _ (List.forall_mem_nil _)
  exact ⟨h, (Script.rearranges h).2 _ _ _ spells rearranged_halting spells'⟩

/-! ### Members that cannot be stored -/

/-- A group, with the members `more` behind its own. -/
def Step.grouped (more : List (Quoted × Json.Reading)) : Json.Reading :=
  .object ((⟨.ok "type", none⟩, (Json.string "group").toReading) ::
    (toMemberReadings [("id", .string "g"), ("name", .string "n")] ++ more)) none

theorem Step.rearranged_grouped {key : String} {value : Json.Reading}
    (unknown : key ∉ ["type", "id", "label", "delayBefore", "delayAfter", "name", "steps"])
    (fits : value.Fits 124) :
    Rearranged (fun _ => Json.Reading.Fits) .streamed Kind.step.shape 125 (grouped [])
      (grouped [(⟨.ok key, none⟩, value)]) := by
  rw [List.mem_cons, not_or] at unknown
  obtain ⟨tag, other⟩ := unknown
  have own : ∀ m ∈ toMemberReadings [("id", .string "g"), ("name", .string "n")] ++
      [(⟨.ok key, none⟩, value)], m.1.exact ≠ .ok "type" := by
    refine List.forall_mem_append.mpr ⟨by decide, List.forall_mem_singleton.mpr ?_⟩
    exact fun same => tag (Except.ok.inj same)
  have content : Rearranged (fun _ => Json.Reading.Fits) .stored
      (.step [("name", .simple), ("steps", .steps)]) 125 (.object (toMemberReadings [("id", .string "g"), ("name", .string "n")]) none)
      (.object (toMemberReadings [("id", .string "g"), ("name", .string "n")] ++
        [(⟨.ok key, none⟩, value)]) none) := .members [(⟨.ok key, none⟩, value)] List.perm_append_comm
    (List.forall_mem_singleton.mpr ⟨key, rfl, other⟩) (List.forall_mem_singleton.mpr fits)
  exact .inVariant [] _ [] _ rfl rfl rfl own content

theorem Script.whole_ofStep_grouped {more : List (Quoted × Json.Reading)}
    (h : Json.Reading.WholeMembers more) : (ofStep (Step.grouped more)).Whole := by
  have string (s : String) : (Json.string s).toReading.Whole := .string _
  have own : Json.Reading.WholeMembers (toMemberReadings [("id", .string "g"), ("name", .string "n")]) :=
    .cons (.cons (List.forall_mem_nil _) rfl (string "n")) rfl (string "g")
  have others := List.forall_mem_append.mpr ⟨own, h⟩
  have group : (Step.grouped more).Whole :=
    Json.Reading.WholeMembers.object (.cons others rfl (string "group"))
  have steps := Json.Reading.Whole.array (List.forall_mem_singleton.mpr group)
  exact Json.Reading.WholeMembers.object (.cons (.cons (List.forall_mem_nil _) rfl steps) rfl (string "s"))

/-- The text of the group without more members. -/
theorem Script.spells_grouped : Spells
    "\x7b\"name\":\"s\",\"steps\":[\x7b\"type\":\"group\",\"id\":\"g\",\"name\":\"n\"\x7d]\x7d"
    (ofStep (Step.grouped [])) := by
  refine ⟨whole_ofStep_grouped (List.forall_mem_nil _), ?_⟩
  refine .word_cons .openObject (.quoted_cons "name" (.word_cons .colon (.quoted_cons "s" ?_)))
  refine .word_cons .comma (.quoted_cons "steps" (.word_cons .colon (.word_cons .openArray ?_)))
  refine .word_cons .openObject (.quoted_cons "type" (.word_cons .colon (.quoted_cons "group" ?_)))
  refine .word_cons .comma (.quoted_cons "id" (.word_cons .colon (.quoted_cons "g" ?_)))
  refine .word_cons .comma (.quoted_cons "name" (.word_cons .colon (.quoted_cons "n" ?_)))
  exact .word_cons .closeObject (.word_cons .closeArray (.word_cons .closeObject (.nil nofun)))

/-- The text of the group with one more member, whose value is a single token. -/
theorem Script.spells_grouped_member {text : String} {word : List Char} {t : Token} {value : Json.Reading}
    (whole : value.Whole) (single : value.tokens = [t]) (spelled : t.Spelled word)
    (same : text.toList =
      "\x7b\"name\":\"s\",\"steps\":[\x7b\"type\":\"group\",\"id\":\"g\",\"name\":\"n\",\"x\":".toList ++
      (word ++ ['\x7d', ']', '\x7d'])) :
    Spells text (ofStep (Step.grouped [(⟨.ok "x", none⟩, value)])) := by
  refine ⟨whole_ofStep_grouped (.cons (List.forall_mem_nil _) rfl whole), ?_⟩
  rw [same]
  refine @Lexes.word_cons ['\x7b'] _ _ _ .openObject (.quoted_cons "name" (.word_cons .colon ?_))
  refine .quoted_cons "s" (.word_cons .comma (.quoted_cons "steps" (.word_cons .colon ?_)))
  refine .word_cons .openArray (.word_cons .openObject (.quoted_cons "type" (.word_cons .colon ?_)))
  refine .quoted_cons "group" (.word_cons .comma (.quoted_cons "id" (.word_cons .colon ?_)))
  refine .quoted_cons "g" (.word_cons .comma (.quoted_cons "name" (.word_cons .colon ?_)))
  refine .quoted_cons "n" (.word_cons .comma (.quoted_cons "x" (.word_cons .colon ?_)))
  rw [single]
  refine .word_cons spelled ?_
  exact .word_cons .closeObject (.word_cons .closeArray (.word_cons .closeObject (.nil nofun)))

/-- Members with a lone surrogate and with a number beyond all others, both of which the grammar of JSON
has, keep a script from being loaded if they stand where values are stored. -/
theorem Script.refuses_unstorable :
    let text := "\x7b\"name\":\"s\",\"steps\":[\x7b\"type\":\"group\",\"id\":\"g\",\"name\":\"n\"\x7d]\x7d"
    let surrogate :=
      "\x7b\"name\":\"s\",\"steps\":[\x7b\"type\":\"group\",\"id\":\"g\",\"name\":\"n\",\"x\":\"\\ud800\"\x7d]\x7d"
    let number :=
      "\x7b\"name\":\"s\",\"steps\":[\x7b\"type\":\"group\",\"id\":\"g\",\"name\":\"n\",\"x\":1e999\x7d]\x7d"
    Script.ofText text = .ok ⟨"s", "", [.group ⟨"g", none, none, none⟩ "n" []], default⟩ ∧
      ∀ text' ∈ [surrogate, number],
        (∃ r r', Spells text r ∧
          Rearranged (fun _ => Json.Reading.Fits) .streamed Kind.script.shape nestingLimit r r' ∧
          Spells text' r') ∧
        Script.ofText text' = .error (.unreadable .text (.fault .malformed)) := by
  have unit : (Piece.unit 0xd800).Spelled ['\\', 'u', 'd', '8', '0', '0'] :=
    @Piece.Spelled.unit 'd' '8' '0' '0' 13 8 0 0 rfl rfl rfl rfl
  have quoted : Quoted.Spelled ⟨.error .malformed, none⟩ ['"', '\\', 'u', 'd', '8', '0', '0', '"'] :=
    .intro (.cons unit .nil)
  have numeral : Numeral.Spelled ⟨false, [1], none, some (false, [9, 9, 9])⟩ ['1', 'e', '9', '9', '9'] :=
    .intro (.intro (by decide) (by decide)) (by simp) .absent (.bare (.inl rfl) (.intro (by decide) (by decide)))
  have edit {value : Json.Reading} (whole : value.Whole) (flat : value.nesting = 0) :=
    rearranged_ofStep (@Step.rearranged_grouped "x" value (by decide) ⟨whole, flat ▸ Nat.zero_le _⟩)
  refine ⟨?_, List.forall_mem_cons.mpr ⟨⟨?_, ?_⟩, List.forall_mem_singleton.mpr ⟨?_, ?_⟩⟩⟩
  · rw [ofText_of_spells spells_grouped]
    rfl
  · exact ⟨_, _, spells_grouped, edit (.string _) rfl,
      spells_grouped_member (.string _) rfl (.string quoted) rfl⟩
  · rw [ofText_of_spells (spells_grouped_member (.string _) rfl (.string quoted) rfl)]
    rfl
  · exact ⟨_, _, spells_grouped, edit (.number _) rfl,
      spells_grouped_member (.number _) rfl (.number numeral) rfl⟩
  · rw [ofText_of_spells (spells_grouped_member (.number _) rfl (.number numeral) rfl)]
    rfl

end DeskScript
