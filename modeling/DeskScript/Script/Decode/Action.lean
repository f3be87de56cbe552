import DeskScript.Script.Decode.Element
import DeskScript.Script.Json

/-! Actions from JSON. The category comes first, then the type within the category. -/

namespace DeskScript

open Json

def Direction.all : List Direction := [.up, .down, .left, .right]

/-- Reads a direction: its word, or an object with that word as its only key and nothing in it. -/
def Direction.read : Reading → Decoded Direction
  | .string q => do named (← exactly q.exact)
  | .object [(key, content)] _ => do
    let direction ← named (← exactly key.exact)
    content.asUnit .stored
    return direction
  | .object _ _ => mismatched (.wrongValue .map "map with a single key")
  | r => r.refuse "string or map"
where
  named (name : String) : Decoded Direction := do
    return Direction.all.getD (← variantNamed (Direction.all.map Direction.word) name) .up

inductive Action.Field where
  | target | start | finish | amount | direction | text | key | keys | milliseconds | path | args
  | process | targetStep
deriving DecidableEq

abbrev Action.Field.Value : Action.Field → Type
  | .target | .start | .finish => Element
  | .amount => Int32
  | .direction => Direction
  | .text | .key | .path | .process | .targetStep => String
  | .keys | .args => List String
  | .milliseconds => UInt64

def Action.Field.name : Action.Field → String
  | .target => "target"
  | .start => "from"
  | .finish => "to"
  | .amount => "amount"
  | .direction => "direction"
  | .text => "text"
  | .key => "key"
  | .keys => "keys"
  | .milliseconds => "milliseconds"
  | .path => "path"
  | .args => "args"
  | .process => "processName"
  | .targetStep => "targetStepId"

def Action.Field.read (room : Nat) : (i : Action.Field) → Reading → Decoded i.Value
  | .target, r | .start, r | .finish, r => Element.read room r
  | .amount, r => r.asInt32
  | .direction, r => Direction.read r
  | .text, r | .key, r | .path, r | .process, r | .targetStep, r => r.asString
  | .keys, r | .args, r => r.asList room fun _ => Reading.asString
  | .milliseconds, r => r.asMilliseconds

def Action.readFields (title : String) (all : List Action.Field) (room : Nat) (content : Reading) :
    Decoded (Fields.Record Action.Field.Value) :=
  (⟨"struct variant " ++ title, all, Action.Field.name⟩ : Fields Action.Field).readRecord .stored
    room Action.Field.read content

def MouseAction.tags : Tags :=
  ⟨"internally tagged enum MouseAction", "type",
    ["left_click", "right_click", "double_click", "move_to", "drag", "scroll"]⟩

def MouseAction.read (room : Nat) (r : Reading) : Decoded MouseAction := do
  let (variant, content) ← MouseAction.tags.read .stored room r
  match variant with
  | 0 =>
    let s ← Action.readFields "MouseAction::LeftClick" [.target] room content
    return .leftClick (← s.get .target)
  | 1 =>
    let s ← Action.readFields "MouseAction::RightClick" [.target] room content
    return .rightClick (← s.get .target)
  | 2 =>
    let s ← Action.readFields "MouseAction::DoubleClick" [.target] room content
    return .doubleClick (← s.get .target)
  | 3 =>
    let s ← Action.readFields "MouseAction::MoveTo" [.target] room content
    return .moveTo (← s.get .target)
  | 4 =>
    let s ← Action.readFields "MouseAction::Drag" [.start, .finish] room content
    return .drag (← s.get .start) (← s.get .finish)
  | _ =>
    let s ← Action.readFields "MouseAction::Scroll" [.amount, .direction] room content
    return .scroll (← s.get .amount) (← s.get .direction)

def KeyboardAction.tags : Tags :=
  ⟨"internally tagged enum KeyboardAction", "type",
    ["type_text", "press_key", "press_key_combination"]⟩

def KeyboardAction.read (room : Nat) (r : Reading) : Decoded KeyboardAction := do
  let (variant, content) ← KeyboardAction.tags.read .stored room r
  match variant with
  | 0 =>
    let s ← Action.readFields "KeyboardAction::TypeText" [.text] room content
    return .typeText (← s.get .text)
  | 1 =>
    let s ← Action.readFields "KeyboardAction::PressKey" [.key] room content
    return .pressKey (← s.get .key)
  | _ =>
    let s ← Action.readFields "KeyboardAction::PressKeyCombination" [.keys] room content
    return .pressCombination (← s.get .keys)

def SystemAction.tags : Tags :=
  ⟨"internally tagged enum SystemAction", "type",
    ["wait", "launch_application", "close_application"]⟩

def SystemAction.read (room : Nat) (r : Reading) : Decoded SystemAction := do
  let (variant, content) ← SystemAction.tags.read .stored room r
  match variant with
  | 0 =>
    let s ← Action.readFields "SystemAction::Wait" [.milliseconds] room content
    return .wait (← s.get .milliseconds)
  | 1 =>
    let s ← Action.readFields "SystemAction::LaunchApplication" [.path, .args] room content
    return .launch (← s.get .path) (s.getD .args [])
  | _ =>
    let s ← Action.readFields "SystemAction::CloseApplication" [.process] room content
    return .close (← s.get .process)

def FlowAction.tags : Tags :=
  ⟨"internally tagged enum FlowAction", "type", ["stop", "jump_to", "continue"]⟩

def FlowAction.read (room : Nat) (r : Reading) : Decoded FlowAction := do
  let (variant, content) ← FlowAction.tags.read .stored room r
  match variant with
  | 0 =>
    content.asNothing
    return .stop
  | 1 =>
    let s ← Action.readFields "FlowAction::JumpTo" [.targetStep] room content
    return .jumpTo (← s.get .targetStep)
  | _ =>
    content.asNothing
    return .proceed

def Action.tags : Tags :=
  ⟨"internally tagged enum Action", "category", ["mouse", "keyboard", "system", "flow"]⟩

def Action.read (room : Nat) (r : Reading) : Decoded Action := do
  let (variant, content) ← Action.tags.read .stored room r
  match variant with
  | 0 => return .mouse (← MouseAction.read room content)
  | 1 => return .keyboard (← KeyboardAction.read room content)
  | 2 => return .system (← SystemAction.read room content)
  | _ => return .flow (← FlowAction.read room content)

end DeskScript
