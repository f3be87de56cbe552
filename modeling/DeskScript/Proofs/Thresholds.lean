import DeskScript.Proofs.Walk

/-! The thresholds that a script sets, wherever a picture may stand. -/

namespace DeskScript

def Element.thresholds : Element → List Float
  | .position _ => []
  | .picture p => p.threshold.toList

mutual

def Condition.thresholds : Condition → List Float
  | .present e | .absent e => e.thresholds
  | .all cs | .any cs => thresholdsOfList cs
  | .not c => thresholds c

def Condition.thresholdsOfList : List Condition → List Float
  | [] => []
  | c :: cs => thresholds c ++ thresholdsOfList cs

end

def MouseAction.thresholds : MouseAction → List Float
  | .leftClick e | .rightClick e | .doubleClick e | .moveTo e => e.thresholds
  | .drag e₁ e₂ => e₁.thresholds ++ e₂.thresholds
  | .scroll _ _ => []

/-- The thresholds that the step itself sets, those of the steps inside it apart. -/
def Step.thresholds : Step → List Float
  | .action _ (.mouse a) => a.thresholds
  | .action _ _ | .group _ _ _ => []
  | .conditional _ c _ _ | .observer _ c _ => c.thresholds

/-- All thresholds of a script, the one for pictures without their own among them. -/
def Script.thresholds (s : Script) : List Float :=
  s.settings.threshold :: (Forest.everyStep s.steps).flatMap Step.thresholds

mutual

theorem Condition.thresholds_eq (c : Condition) :
    c.thresholds = c.elements.flatMap Element.thresholds := by
  cases c with
  | present e | absent e => simp [thresholds, elements]
  | all cs | any cs => exact Condition.thresholdsOfList_eq cs
  | not c => exact Condition.thresholds_eq c

theorem Condition.thresholdsOfList_eq (cs : List Condition) :
    thresholdsOfList cs = (elementsOfList cs).flatMap Element.thresholds := by
  cases cs with
  | nil => rfl
  | cons c cs =>
    rw [thresholdsOfList, elementsOfList, List.flatMap_append, Condition.thresholds_eq,
      Condition.thresholdsOfList_eq]

end

/-- The elements that a step asks for are all that can set a threshold. -/
theorem Step.thresholds_eq (s : Step) : s.thresholds = s.elements.flatMap Element.thresholds := by
  cases s with
  | action h a =>
    cases a with
    | mouse a => cases a <;> simp [thresholds, MouseAction.thresholds, elements, Action.targets]
    | _ => rfl
  | conditional h c thens elses => exact c.thresholds_eq
  | observer h c steps => exact c.thresholds_eq
  | group h name steps => rfl

end DeskScript
