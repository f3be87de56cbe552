import DeskScript.Script.Action
import DeskScript.Text.Blank

/-! Scripts: trees of steps, and the values that steps take where they say nothing themselves. -/

namespace DeskScript

/-- What every step has: its name for the script, its name for people, and the milliseconds to wait
before and after it. -/
structure Header where
  id : String
  label : Option String
  delayBefore : Option UInt64
  delayAfter : Option UInt64
deriving DecidableEq, Inhabited

/-- A step of a script. An observer waits beside the script for its condition and then runs its
steps; a group only holds steps together. -/
inductive Step where
  | action (header : Header) (action : Action)
  | conditional (header : Header) (condition : Condition) (thenSteps elseSteps : List Step)
  | observer (header : Header) (condition : Condition) (actionSteps : List Step)
  | group (header : Header) (name : String) (steps : List Step)

instance : Inhabited Step := ⟨.group default "" []⟩

namespace Step

def header : Step → Header
  | .action h _ | .conditional h _ _ _ | .observer h _ _ | .group h _ _ => h

def withHeader (h : Header) : Step → Step
  | .action _ a => .action h a
  | .conditional _ c thens elses => .conditional h c thens elses
  | .observer _ c steps => .observer h c steps
  | .group _ name steps => .group h name steps

def id (s : Step) : String := s.header.id

def delayBefore (s : Step) : UInt64 := s.header.delayBefore.getD 0

def delayAfter (s : Step) : UInt64 := s.header.delayAfter.getD 0

/-- The name to show: the label unless it is blank, else the id. -/
def displayName (s : Step) : String :=
  match s.header.label with
  | some label => if Text.allBlank label then s.id else label
  | none => s.id

def kind : Step → String
  | .action _ _ => "action"
  | .conditional _ _ _ _ => "conditional"
  | .observer _ _ _ => "observer"
  | .group _ _ _ => "group"

/-- The lists of steps inside the step, in order; a conditional has two. -/
def childLists : Step → List (List Step)
  | .action _ _ => []
  | .conditional _ _ thens elses => [thens, elses]
  | .observer _ _ steps => [steps]
  | .group _ _ steps => [steps]

def withChildLists (lists : List (List Step)) : Step → Step
  | .action h a => .action h a
  | .conditional h c _ _ => .conditional h c (lists.getD 0 []) (lists.getD 1 [])
  | .observer h c _ => .observer h c (lists.getD 0 [])
  | .group h name _ => .group h name (lists.getD 0 [])

/-- The elements that the step itself asks for: the targets of an action, or those of a condition. -/
def elements : Step → List Element
  | .action _ a => a.targets
  | .conditional _ c _ _ | .observer _ c _ => c.elements
  | .group _ _ _ => []

/-- The step with every element of its own replaced by its image under `f`. -/
def mapElements (f : Element → Element) : Step → Step
  | .action h a => .action h (a.map f)
  | .conditional h c thens elses => .conditional h (c.map f) thens elses
  | .observer h c steps => .observer h (c.map f) steps
  | .group h name steps => .group h name steps

end Step

structure Settings where
  delayBefore : UInt64
  delayAfter : UInt64
  checkDelay : Option UInt64
  threshold : Float
deriving DecidableEq

instance : Inhabited Settings := ⟨0, 0, none, usualThreshold⟩

structure Script where
  name : String
  description : String
  steps : List Step
  settings : Settings
deriving Inhabited

end DeskScript
