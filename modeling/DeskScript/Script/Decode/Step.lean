import DeskScript.Script.Decode.Action

/-! Steps, settings and scripts from JSON. The settings and the steps of the script itself are read
as the text goes on, what stands inside a step after the step as a whole. -/

namespace DeskScript

open Json

/-! ### Steps -/

inductive Step.Field where
  | id | label | delayBefore | delayAfter | action | condition | thenSteps | elseSteps | actionSteps
  | groupName | steps
deriving DecidableEq

abbrev Step.Field.Value : Step.Field → Type
  | .id | .groupName => String
  | .label => Option String
  | .delayBefore | .delayAfter => Option UInt64
  | .action => Action
  | .condition => Condition
  | .thenSteps | .elseSteps | .actionSteps | .steps => List Step

def Step.Field.name : Step.Field → String
  | .id => "id"
  | .label => "label"
  | .delayBefore => "delayBefore"
  | .delayAfter => "delayAfter"
  | .action => "action"
  | .condition => "condition"
  | .thenSteps => "thenSteps"
  | .elseSteps => "elseSteps"
  | .actionSteps => "actionSteps"
  | .groupName => "name"
  | .steps => "steps"

def Step.Field.read (list : Reading → Decoded (List Step)) (room : Nat) :
    (i : Step.Field) → Reading → Decoded i.Value
  | .id, r | .groupName, r => r.asString
  | .label, r => r.asOption Reading.asString
  | .delayBefore, r | .delayAfter, r => r.asOption Reading.asMilliseconds
  | .action, r => Action.read room r
  | .condition, r => Condition.read room r
  | .thenSteps, r | .elseSteps, r | .actionSteps, r | .steps, r => list r

def Header.fields : List Step.Field := [.id, .label, .delayBefore, .delayAfter]

def Header.ofRecord (s : Fields.Record Step.Field.Value) : Decoded Header := do
  return ⟨← s.get .id, s.getD .label none, s.getD .delayBefore none, s.getD .delayAfter none⟩

def Step.tags : Tags :=
  ⟨"internally tagged enum Step", "type", ["action", "conditional", "observer", "group"]⟩

/-- The fields of the kind of step called `title`: the header and `own`. -/
def Step.fields (title : String) (own : List Step.Field) : Fields Step.Field :=
  ⟨"struct " ++ title, Header.fields ++ own, Step.Field.name⟩

def Step.readObserver (mode : Mode) (room : Nat) (list : Reading → Decoded (List Step))
    (content : Reading) : Decoded Step := do
  let s ← (Step.fields "ObserverBlock" [.condition, .actionSteps]).readRecord mode room
    (Step.Field.read list) content
  return .observer (← Header.ofRecord s) (← s.get .condition) (s.getD .actionSteps [])

def Step.readWith (mode : Mode) (room : Nat) (list : Reading → Decoded (List Step)) (r : Reading) :
    Decoded Step := do
  let (variant, content) ← Step.tags.read mode room r
  match variant with
  | 0 =>
    let s ← (Step.fields "ActionStep" [.action]).readRecord .stored room (Step.Field.read list)
      content
    return .action (← Header.ofRecord s) (← s.get .action)
  | 1 =>
    let s ← (Step.fields "ConditionalBlock" [.condition, .thenSteps, .elseSteps]).readRecord .stored
      room (Step.Field.read list) content
    return .conditional (← Header.ofRecord s) (← s.get .condition) (s.getD .thenSteps [])
      (s.getD .elseSteps [])
  | 2 => Step.readObserver .stored room list content
  | _ =>
    let s ← (Step.fields "GroupBlock" [.groupName, .steps]).readRecord .stored room
      (Step.Field.read list) content
    return .group (← Header.ofRecord s) (← s.get .groupName) (s.getD .steps [])

/-- Reads a step. Those inside it are stored by then. -/
def Step.read (mode : Mode) : (room : Nat) → Reading → Decoded Step
  | 0 => Step.readWith mode 0 noRoom
  | 1 => Step.readWith mode 1 (Reading.asList 0 fun _ => noRoom)
  | room + 2 =>
    Step.readWith mode (room + 2) (Reading.asList (room + 1) fun _ => Step.read .stored room)

/-! ### Settings -/

inductive Settings.Field where
  | delayBefore | delayAfter | checkDelay | threshold
deriving DecidableEq

abbrev Settings.Field.Value : Settings.Field → Type
  | .delayBefore | .delayAfter => UInt64
  | .checkDelay => Option UInt64
  | .threshold => Float

def Settings.Field.read : (i : Settings.Field) → Reading → Decoded i.Value
  | .delayBefore, r | .delayAfter, r => r.asMilliseconds
  | .checkDelay, r => r.asOption Reading.asMilliseconds
  | .threshold, r => r.asFloat

def Settings.fields : Fields Settings.Field where
  title := "struct ScriptSettings"
  all := [.delayBefore, .delayAfter, .checkDelay, .threshold]
  name
    | .delayBefore => "defaultDelayBefore"
    | .delayAfter => "defaultDelayAfter"
    | .checkDelay => "observerCheckDelay"
    | .threshold => "defaultImageMatchThreshold"

def Settings.read (room : Nat) (r : Reading) : Decoded Settings := do
  let s ← Settings.fields.readRecord .streamed room (fun _ => Settings.Field.read) r
  return ⟨s.getD .delayBefore 0, s.getD .delayAfter 0, s.getD .checkDelay none,
    s.getD .threshold usualThreshold⟩

/-! ### Scripts -/

inductive Script.Field where
  | title | description | steps | settings
deriving DecidableEq

abbrev Script.Field.Value : Script.Field → Type
  | .title | .description => String
  | .steps => List Step
  | .settings => Settings

def Script.Field.read (room : Nat) : (i : Script.Field) → Reading → Decoded i.Value
  | .title, r | .description, r => r.asString
  | .steps, r => r.asList room (Step.read .streamed)
  | .settings, r => Settings.read room r

def Script.fields : Fields Script.Field where
  title := "struct Script"
  all := [.title, .description, .steps, .settings]
  name
    | .title => "name"
    | .description => "description"
    | .steps => "steps"
    | .settings => "settings"

def Script.read (room : Nat) (r : Reading) : Decoded Script := do
  let s ← Script.fields.readRecord .streamed room Script.Field.read r
  return ⟨← s.get .title, s.getD .description "", s.getD .steps [], s.getD .settings default⟩

end DeskScript
