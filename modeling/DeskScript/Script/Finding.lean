import DeskScript.Decimal.Style
import DeskScript.Script.Forest

/-! What is wrong or odd about a script. Findings keep no script from running. -/

namespace DeskScript

inductive Severity where
  | warning
  | error
deriving DecidableEq, Repr

def Severity.text : Severity → String
  | .warning => "warning"
  | .error => "error"

inductive Finding where
  | blankName
  | noSteps
  | defaultThreshold (t : Float)
  | duplicateId (id : String)
  | blankLabel
  | duplicateLabel (label : String)
  | missingTarget (id : String)
  | threshold (t : Float)
  | emptyCombination (id : String)
  | emptyConditional
  | emptyObserver
  | blankGroupName
  | emptyGroup
deriving DecidableEq

namespace Finding

/-- What can do nothing at all is a warning; the rest are errors. -/
def severity : Finding → Severity
  | .noSteps | .emptyConditional | .emptyObserver | .emptyGroup => .warning
  | _ => .error

def message : Finding → String
  | .blankName => "Script must have a name"
  | .noSteps => "Script should contain at least one step"
  | .defaultThreshold t =>
    s!"Default match threshold must be between 0 and 1, got {Decimal.textOfFloat .plain t}"
  | .duplicateId id => s!"Duplicate step ID: {id}"
  | .blankLabel => "Label cannot be empty"
  | .duplicateLabel label => s!"Duplicate label: {label}"
  | .missingTarget id => s!"Jump target step not found: {id}"
  | .threshold t => s!"Match threshold must be between 0 and 1, got {Decimal.textOfFloat .plain t}"
  | .emptyCombination id => s!"Key combination is empty in step {id}"
  | .emptyConditional => "Conditional block must have at least one branch with steps"
  | .emptyObserver => "Observer block must have at least one action step"
  | .blankGroupName => "Group block must have a name"
  | .emptyGroup => "Group block should contain at least one step"

/-- The field of the script where it is to be seen. -/
def field : Finding → String
  | .blankName | .blankGroupName => "name"
  | .noSteps | .emptyGroup => "steps"
  | .defaultThreshold _ => "defaultImageMatchThreshold"
  | .duplicateId _ => "id"
  | .blankLabel | .duplicateLabel _ => "label"
  | .missingTarget _ => "targetStepId"
  | .threshold _ => "matchThreshold"
  | .emptyCombination _ => "keys"
  | .emptyConditional => "thenSteps/elseSteps"
  | .emptyObserver => "actionSteps"

def text (f : Finding) : String := s!"{f.severity.text} [{f.field}]: {f.message}"

def count (severity : Severity) (fs : List Finding) : Nat := fs.countP fun f => f.severity = severity

/-- Whether `words` stand in the message of a finding. -/
def mentions (words : String) (fs : List Finding) : Bool := fs.any fun f => f.message.contains words

end Finding

def inUnitRange (t : Float) : Bool := 0 ≤ t && t ≤ 1

def findingIf (b : Bool) (f : Finding) : List Finding := if b then [f] else []

/-- The findings on an element: a threshold of its own has to be in range. -/
def Element.findings (e : Element) : List Finding :=
  match e.threshold? with
  | some t => findingIf (!inUnitRange t) (.threshold t)
  | none => []

def Step.ownFindings (s : Step) : List Finding :=
  s.elements.flatMap Element.findings ++
  match s with
  | .action h (.keyboard (.pressCombination keys)) => findingIf keys.isEmpty (.emptyCombination h.id)
  | .action _ _ => []
  | .conditional _ _ thens elses => findingIf (thens.isEmpty && elses.isEmpty) .emptyConditional
  | .observer _ _ steps => findingIf steps.isEmpty .emptyObserver
  | .group _ name steps =>
    findingIf (Text.allBlank name) .blankGroupName ++ findingIf steps.isEmpty .emptyGroup

/-- The findings on a step and the steps inside it, none of which look beyond one step. -/
def Step.findings (s : Step) : List Finding :=
  (Forest.walk [s]).flatMap fun v => v.step.ownFindings

namespace Finding

/-- The findings on ids and labels, of which no two may be equal, given those that have been seen. -/
def ofNames (ids labels : List String) : List Step → List Finding
  | [] => []
  | s :: rest =>
    findingIf (ids.contains s.id) (.duplicateId s.id) ++
    match s.header.label with
    | some label =>
      if Text.allBlank label then .blankLabel :: ofNames (s.id :: ids) labels rest
      else
        findingIf (labels.contains label) (.duplicateLabel label) ++
          ofNames (s.id :: ids) (label :: labels) rest
    | none => ofNames (s.id :: ids) labels rest

def ofJumps (ids : List String) (steps : List Step) : List Finding :=
  steps.flatMap fun s =>
    match s with
    | .action _ (.flow (.jumpTo target)) => findingIf (!ids.contains target) (.missingTarget target)
    | _ => []

end Finding

def Script.findings (s : Script) : List Finding :=
  let steps := (Forest.walk s.steps).map Visit.step
  findingIf (Text.allBlank s.name) .blankName ++
  findingIf s.steps.isEmpty .noSteps ++
  findingIf (!inUnitRange s.settings.threshold) (.defaultThreshold s.settings.threshold) ++
  Finding.ofNames [] [] steps ++
  Finding.ofJumps (steps.map Step.id) steps ++
  s.steps.flatMap Step.findings

end DeskScript
