import DeskScript.Script.Element

/-! What a script can do. -/

namespace DeskScript

inductive Direction where
  | up | down | left | right
deriving DecidableEq, Inhabited

inductive MouseAction where
  | leftClick (target : Element)
  | rightClick (target : Element)
  | doubleClick (target : Element)
  | moveTo (target : Element)
  | drag (start finish : Element)
  | scroll (amount : Int32) (direction : Direction)
deriving DecidableEq

inductive KeyboardAction where
  | typeText (text : String)
  | pressKey (key : String)
  | pressCombination (keys : List String)
deriving DecidableEq

inductive SystemAction where
  | wait (milliseconds : UInt64)
  | launch (path : String) (args : List String)
  | close (process : String)
deriving DecidableEq

inductive FlowAction where
  | stop
  | jumpTo (target : String)
  | proceed
deriving DecidableEq

inductive Action where
  | mouse (action : MouseAction)
  | keyboard (action : KeyboardAction)
  | system (action : SystemAction)
  | flow (action : FlowAction)
deriving DecidableEq

namespace Action

def name : Action → String
  | .mouse (.leftClick _) => "LeftClick"
  | .mouse (.rightClick _) => "RightClick"
  | .mouse (.doubleClick _) => "DoubleClick"
  | .mouse (.moveTo _) => "MoveTo"
  | .mouse (.drag _ _) => "Drag"
  | .mouse (.scroll _ _) => "Scroll"
  | .keyboard (.typeText _) => "TypeText"
  | .keyboard (.pressKey _) => "PressKey"
  | .keyboard (.pressCombination _) => "PressKeyCombination"
  | .system (.wait _) => "Wait"
  | .system (.launch _ _) => "LaunchApplication"
  | .system (.close _) => "CloseApplication"
  | .flow .stop => "Stop"
  | .flow (.jumpTo _) => "JumpTo"
  | .flow .proceed => "Continue"

def isInput : Action → Bool
  | .mouse _ | .keyboard _ => true
  | .system _ | .flow _ => false

/-- The elements that have to be found before the action, in the order in which it needs them. -/
def targets : Action → List Element
  | .mouse (.leftClick e) | .mouse (.rightClick e) | .mouse (.doubleClick e)
  | .mouse (.moveTo e) => [e]
  | .mouse (.drag e₁ e₂) => [e₁, e₂]
  | _ => []

def map (f : Element → Element) : Action → Action
  | .mouse (.leftClick e) => .mouse (.leftClick (f e))
  | .mouse (.rightClick e) => .mouse (.rightClick (f e))
  | .mouse (.doubleClick e) => .mouse (.doubleClick (f e))
  | .mouse (.moveTo e) => .mouse (.moveTo (f e))
  | .mouse (.drag e₁ e₂) => .mouse (.drag (f e₁) (f e₂))
  | a => a

theorem targets_map (f : Element → Element) (a : Action) : (a.map f).targets = a.targets.map f := by
  rcases a with m | k | s | w
  · cases m <;> rfl
  all_goals rfl

end Action

end DeskScript
