import DeskScript.Engine.World

/-! What an action comes to once its targets have been looked for. -/

namespace DeskScript

/-- What is to be done for an action. -/
inductive Deed where
  | call (c : Call)
  | launch (path : String) (args : List String)
  | close (process : String)
  | wait (milliseconds : UInt64)
  | nothing
  | refused (cause : Failure)
deriving DecidableEq

/-- What an action of the mouse comes to: a request, unless a place that it needs is missing. -/
def MouseAction.deed (name : String) (aim : Aim) : MouseAction → Deed
  | .leftClick _ => atPlace .leftClick
  | .rightClick _ => atPlace .rightClick
  | .doubleClick _ => atPlace .doubleClick
  | .moveTo _ => atPlace .move
  | .drag _ _ =>
    match aim.place, aim.finish with
    | some p, some q => .call (.drag p q)
    | _, _ => .refused (.missingTarget name)
  | .scroll n d => .call (.scroll n d)
where
  atPlace (request : Coordinate → Call) : Deed :=
    match aim.place with
    | some p => .call (request p)
    | none => .refused (.missingTarget name)

/-- What an action of the keyboard comes to: a request, unless there is no key in a combination. -/
def KeyboardAction.deed : KeyboardAction → Deed
  | .typeText text => .call (.typeText text)
  | .pressKey key => .call (.key key)
  | .pressCombination keys =>
    if keys.isEmpty then .refused .emptyCombination else .call (.combination keys)

def SystemAction.deed : SystemAction → Deed
  | .wait ms => .wait ms
  | .launch path args => .launch path args
  | .close process => .close process

def Action.deed (a : Action) (aim : Aim) : Deed :=
  match a with
  | .mouse m => m.deed a.name aim
  | .keyboard k => k.deed
  | .system s => s.deed
  | .flow _ => .nothing

namespace World

/-- Does what is to be done. Waiting is not the world's concern. -/
def perform (w : World) : Deed → Except Failure Unit
  | .call c => w.input c
  | .launch path args => w.launch path args
  | .close process => w.close process
  | .wait _ | .nothing => .ok ()
  | .refused cause => .error cause

end World

end DeskScript
