import DeskScript.Script.Forest

/-! A script made ready for a run: steps and pictures that say nothing themselves take what the
settings say. -/

namespace DeskScript

def Header.withDefaults (settings : Settings) (h : Header) : Header :=
  { h with
    delayBefore := some (h.delayBefore.getD settings.delayBefore)
    delayAfter := some (h.delayAfter.getD settings.delayAfter) }

/-- The step with the values of `settings` where it has none. Steps inside it stay as they are. -/
def Step.withDefaults (settings : Settings) (s : Step) : Step :=
  (s.withHeader (s.header.withDefaults settings)).mapElements (.withThreshold settings.threshold)

/-- Whether the step has all the values that settings could give it. -/
def Step.isComplete (s : Step) : Bool :=
  s.header.delayBefore.isSome && s.header.delayAfter.isSome && s.elements.all Element.hasThreshold

/-- The script with the values of its settings in all steps that have none of their own. -/
def Script.withDefaults (s : Script) : Script :=
  { s with steps := Forest.map (Step.withDefaults s.settings) s.steps }

def Script.isComplete (s : Script) : Bool :=
  (Forest.walk s.steps).all fun v => v.step.isComplete

end DeskScript
