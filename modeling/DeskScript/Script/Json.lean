import DeskScript.Json.Basic
import DeskScript.Script.Basic

/-! Scripts as JSON. A value that is not set is left out. -/

namespace DeskScript

def millisecondsJson (n : UInt64) : Json := .int n.toNat

def Coordinate.members (p : Coordinate) : List (String × Json) :=
  [("x", .int p.x.toInt), ("y", .int p.y.toInt)]

def Element.toJson : Element → Json
  | .position p => .object (("type", .string "by_coordinate") :: p.members)
  | .picture p =>
    .object <| [("type", .string "by_image"), ("base64Data", .string p.data)] ++
      Json.optional "matchThreshold" p.threshold .real

mutual

def Condition.toJson : Condition → Json
  | .present e => .object [("type", .string "element_exists"), ("identifier", e.toJson)]
  | .absent e => .object [("type", .string "element_not_exists"), ("identifier", e.toJson)]
  | .all cs => .object [("type", .string "and"), ("conditions", .array (Condition.listJson cs))]
  | .any cs => .object [("type", .string "or"), ("conditions", .array (Condition.listJson cs))]
  | .not c => .object [("type", .string "not"), ("condition", c.toJson)]

def Condition.listJson : List Condition → List Json
  | [] => []
  | c :: cs => c.toJson :: Condition.listJson cs

end

def Direction.word : Direction → String
  | .up => "up"
  | .down => "down"
  | .left => "left"
  | .right => "right"

/-- The type of an action of the mouse and the members that go with it. -/
def MouseAction.typeAndMembers : MouseAction → String × List (String × Json)
  | .leftClick e => ("left_click", [("target", e.toJson)])
  | .rightClick e => ("right_click", [("target", e.toJson)])
  | .doubleClick e => ("double_click", [("target", e.toJson)])
  | .moveTo e => ("move_to", [("target", e.toJson)])
  | .drag e₁ e₂ => ("drag", [("from", e₁.toJson), ("to", e₂.toJson)])
  | .scroll n d => ("scroll", [("amount", .int n.toInt), ("direction", .string d.word)])

/-- The type of an action of the keyboard and the members that go with it. -/
def KeyboardAction.typeAndMembers : KeyboardAction → String × List (String × Json)
  | .typeText text => ("type_text", [("text", .string text)])
  | .pressKey key => ("press_key", [("key", .string key)])
  | .pressCombination keys => ("press_key_combination", [("keys", .strings keys)])

/-- The type of an action of the system and the members that go with it. -/
def SystemAction.typeAndMembers : SystemAction → String × List (String × Json)
  | .wait n => ("wait", [("milliseconds", millisecondsJson n)])
  | .launch path args => ("launch_application", [("path", .string path), ("args", .strings args)])
  | .close process => ("close_application", [("processName", .string process)])

/-- The type of an action on the flow and the members that go with it. -/
def FlowAction.typeAndMembers : FlowAction → String × List (String × Json)
  | .stop => ("stop", [])
  | .jumpTo target => ("jump_to", [("targetStepId", .string target)])
  | .proceed => ("continue", [])

def Action.toJson (a : Action) : Json :=
  let (category, type, members) := match a with
    | .mouse a => ("mouse", a.typeAndMembers)
    | .keyboard a => ("keyboard", a.typeAndMembers)
    | .system a => ("system", a.typeAndMembers)
    | .flow a => ("flow", a.typeAndMembers)
  .object (("category", .string category) :: ("type", .string type) :: members)

def Header.members (h : Header) : List (String × Json) :=
  [("id", .string h.id)] ++ Json.optional "label" h.label .string ++
    Json.optional "delayBefore" h.delayBefore millisecondsJson ++
    Json.optional "delayAfter" h.delayAfter millisecondsJson

mutual

def Step.toJson : Step → Json
  | .action h a => .object (("type", .string "action") :: h.members ++ [("action", a.toJson)])
  | .conditional h c thens elses =>
    .object <| ("type", .string "conditional") :: h.members ++
      [("condition", c.toJson), ("thenSteps", .array (Step.listJson thens)),
        ("elseSteps", .array (Step.listJson elses))]
  | .observer h c steps =>
    .object <| ("type", .string "observer") :: h.members ++
      [("condition", c.toJson), ("actionSteps", .array (Step.listJson steps))]
  | .group h name steps =>
    .object <| ("type", .string "group") :: h.members ++
      [("name", .string name), ("steps", .array (Step.listJson steps))]

def Step.listJson : List Step → List Json
  | [] => []
  | s :: steps => s.toJson :: Step.listJson steps

end

def Settings.toJson (s : Settings) : Json :=
  .object <| [("defaultDelayBefore", millisecondsJson s.delayBefore),
      ("defaultDelayAfter", millisecondsJson s.delayAfter)] ++
    Json.optional "observerCheckDelay" s.checkDelay millisecondsJson ++
    [("defaultImageMatchThreshold", .real s.threshold)]

def Script.toJson (s : Script) : Json :=
  .object [("name", .string s.name), ("description", .string s.description),
    ("steps", .array (Step.listJson s.steps)), ("settings", s.settings.toJson)]

end DeskScript
