import DeskScript.Proofs.Preparing

/-! Making a script ready fills in what it leaves open, at every depth, and touches nothing else.
There is nothing left to fill in afterwards, whatever the settings say by then. -/

namespace DeskScript

/-! ### What a script made ready has to look like -/

/-- A value that was set is kept, and one that was not set is `given`. -/
inductive Filled {α : Type} (given : α) : Option α → Option α → Prop
  | kept (v : α) : Filled given (some v) (some v)
  | taken : Filled given none (some given)

/-- The second header is the first one with both delays set. -/
structure Header.Completed (settings : Settings) (h h' : Header) : Prop where
  id : h'.id = h.id
  label : h'.label = h.label
  delayBefore : Filled settings.delayBefore h.delayBefore h'.delayBefore
  delayAfter : Filled settings.delayAfter h.delayAfter h'.delayAfter

/-- The second element is the first one, with a threshold if it is a picture. -/
inductive Element.Completed (t : Float) : Element → Element → Prop
  | position (p : Coordinate) : Completed t (.position p) (.position p)
  | picture {own own' : Option Float} (data : String) :
      Filled t own own' → Completed t (.picture ⟨data, own⟩) (.picture ⟨data, own'⟩)

/-- The second action is the first one, with a threshold for every picture that is a target. -/
inductive Action.Completed (t : Float) : Action → Action → Prop
  | leftClick {e e' : Element} :
      e.Completed t e' → Completed t (.mouse (.leftClick e)) (.mouse (.leftClick e'))
  | rightClick {e e' : Element} :
      e.Completed t e' → Completed t (.mouse (.rightClick e)) (.mouse (.rightClick e'))
  | doubleClick {e e' : Element} :
      e.Completed t e' → Completed t (.mouse (.doubleClick e)) (.mouse (.doubleClick e'))
  | moveTo {e e' : Element} :
      e.Completed t e' → Completed t (.mouse (.moveTo e)) (.mouse (.moveTo e'))
  | drag {start start' finish finish' : Element} :
      start.Completed t start' → finish.Completed t finish' →
      Completed t (.mouse (.drag start finish)) (.mouse (.drag start' finish'))
  | scroll (amount : Int32) (direction : Direction) :
      Completed t (.mouse (.scroll amount direction)) (.mouse (.scroll amount direction))
  | keyboard (a : KeyboardAction) : Completed t (.keyboard a) (.keyboard a)
  | system (a : SystemAction) : Completed t (.system a) (.system a)
  | flow (a : FlowAction) : Completed t (.flow a) (.flow a)

/-- The second condition is the first one, with a threshold for every picture anywhere in it. -/
inductive Condition.Completed (t : Float) : Condition → Condition → Prop
  | present {e e' : Element} : e.Completed t e' → Completed t (.present e) (.present e')
  | absent {e e' : Element} : e.Completed t e' → Completed t (.absent e) (.absent e')
  | all {cs cs' : List Condition} :
      List.Forall₂ (Completed t) cs cs' → Completed t (.all cs) (.all cs')
  | any {cs cs' : List Condition} :
      List.Forall₂ (Completed t) cs cs' → Completed t (.any cs) (.any cs')
  | not {c c' : Condition} : Completed t c c' → Completed t (.not c) (.not c')

/-- The second step is the first one with everything filled in, in it and in the steps inside it. -/
inductive Step.Completed (settings : Settings) : Step → Step → Prop
  | action {h h' : Header} {a a' : Action} :
      h.Completed settings h' → a.Completed settings.threshold a' →
      Completed settings (.action h a) (.action h' a')
  | conditional {h h' : Header} {c c' : Condition} {thens thens' elses elses' : List Step} :
      h.Completed settings h' → c.Completed settings.threshold c' →
      List.Forall₂ (Completed settings) thens thens' →
      List.Forall₂ (Completed settings) elses elses' →
      Completed settings (.conditional h c thens elses) (.conditional h' c' thens' elses')
  | observer {h h' : Header} {c c' : Condition} {steps steps' : List Step} :
      h.Completed settings h' → c.Completed settings.threshold c' →
      List.Forall₂ (Completed settings) steps steps' →
      Completed settings (.observer h c steps) (.observer h' c' steps')
  | group {h h' : Header} {steps steps' : List Step} (name : String) :
      h.Completed settings h' → List.Forall₂ (Completed settings) steps steps' →
      Completed settings (.group h name steps) (.group h' name steps')

/-! ### Values, headers and elements -/

section

variable {α : Type} {given : α} {v v' : Option α}

theorem filled_iff : Filled given v v' ↔ v' = some (v.getD given) := by
  constructor
  · rintro (v | _) <;> rfl
  · rintro rfl
    cases v with
    | none => exact .taken
    | some v => exact .kept v

end

variable {settings : Settings} {t : Float}

namespace Header

variable {h h' : Header}

theorem completed_iff : h.Completed settings h' ↔ h' = h.withDefaults settings := by
  constructor
  · rintro ⟨id, label, before, after⟩
    rw [filled_iff] at before after
    rw [withDefaults, ← before, ← after, ← id, ← label]
  · rintro rfl
    exact ⟨rfl, rfl, filled_iff.mpr rfl, filled_iff.mpr rfl⟩

theorem withDefaults_withDefaults (settings later : Settings) (h : Header) :
    (h.withDefaults settings).withDefaults later = h.withDefaults settings := rfl

end Header

namespace Element

variable {e e' : Element}

theorem completed_iff : e.Completed t e' ↔ e' = e.withThreshold t := by
  constructor
  · rintro (p | ⟨data, filled⟩)
    · rfl
    · rw [filled_iff.mp filled]
      rfl
  · rintro rfl
    cases e with
    | position p => exact .position p
    | picture p => exact .picture p.data (filled_iff.mpr rfl)

theorem withThreshold_comp_withThreshold (s t : Float) :
    withThreshold t ∘ withThreshold s = withThreshold s :=
  funext (withThreshold_withThreshold s t)

end Element

/-! ### Actions and conditions -/

namespace Action

variable {a a' : Action}

theorem completed_map (t : Float) (a : Action) : a.Completed t (a.map (.withThreshold t)) := by
  have element (e : Element) : e.Completed t (e.withThreshold t) := Element.completed_iff.mpr rfl
  cases a with
  | mouse m =>
    cases m with
    | leftClick e => exact .leftClick (element e)
    | rightClick e => exact .rightClick (element e)
    | doubleClick e => exact .doubleClick (element e)
    | moveTo e => exact .moveTo (element e)
    | drag start finish => exact .drag (element start) (element finish)
    | scroll amount direction => exact .scroll amount direction
  | keyboard k => exact .keyboard k
  | system s => exact .system s
  | flow f => exact .flow f

theorem Completed.eq_map (c : a.Completed t a') : a' = a.map (.withThreshold t) := by
  cases c with
  | leftClick e | rightClick e | doubleClick e | moveTo e =>
    rw [Element.completed_iff.mp e]
    rfl
  | drag start finish =>
    rw [Element.completed_iff.mp start, Element.completed_iff.mp finish]
    rfl
  | _ => rfl

theorem map_map (f g : Element → Element) (a : Action) : (a.map f).map g = a.map (g ∘ f) := by
  cases a with
  | mouse m => cases m <;> rfl
  | keyboard | system | flow => rfl

end Action

mutual

theorem Condition.completed_map (t : Float) (c : Condition) :
    c.Completed t (c.map (.withThreshold t)) := by
  cases c with
  | present e => exact .present (Element.completed_iff.mpr rfl)
  | absent e => exact .absent (Element.completed_iff.mpr rfl)
  | all cs => exact .all (Condition.completed_mapList t cs)
  | any cs => exact .any (Condition.completed_mapList t cs)
  | not c => exact .not (Condition.completed_map t c)

theorem Condition.completed_mapList (t : Float) (cs : List Condition) :
    List.Forall₂ (Condition.Completed t) cs (Condition.mapList (.withThreshold t) cs) := by
  cases cs with
  | nil => exact .nil
  | cons c cs => exact .cons (Condition.completed_map t c) (Condition.completed_mapList t cs)

end

mutual

theorem Condition.Completed.eq_map {c c' : Condition} (h : c.Completed t c') :
    c' = c.map (.withThreshold t) := by
  cases c with
  | present e | absent e =>
    cases h with | _ h =>
    rw [Element.completed_iff.mp h]
    rfl
  | all cs | any cs =>
    cases h with | _ h =>
    rw [Condition.Completed.eq_mapList h]
    rfl
  | not c =>
    cases h with | _ h =>
    rw [Condition.Completed.eq_map h]
    rfl

theorem Condition.Completed.eq_mapList {cs cs' : List Condition}
    (h : List.Forall₂ (Condition.Completed t) cs cs') :
    cs' = Condition.mapList (.withThreshold t) cs := by
  cases cs with
  | nil =>
    cases h
    rfl
  | cons c cs =>
    cases h with | cons first others =>
    rw [Condition.Completed.eq_map first, Condition.Completed.eq_mapList others]
    rfl

end

mutual

theorem Condition.map_map (f g : Element → Element) (c : Condition) :
    (c.map f).map g = c.map (g ∘ f) := by
  cases c with
  | present e | absent e => rfl
  | all cs | any cs => simp only [Condition.map, Condition.mapList_mapList f g cs]
  | not c => simp only [Condition.map, Condition.map_map f g c]

theorem Condition.mapList_mapList (f g : Element → Element) (cs : List Condition) :
    Condition.mapList g (Condition.mapList f cs) = Condition.mapList (g ∘ f) cs := by
  cases cs with
  | nil => rfl
  | cons c cs =>
    simp only [Condition.mapList, Condition.map_map f g c, Condition.mapList_mapList f g cs]

end

/-! ### Steps -/

namespace Step

variable (settings : Settings) (h : Header) (c : Condition) (steps : List Step)

theorem prepared_action (a : Action) : (Step.action h a).prepared settings =
    .action (h.withDefaults settings) (a.map (.withThreshold settings.threshold)) := rfl

theorem prepared_conditional (thens elses : List Step) :
    (Step.conditional h c thens elses).prepared settings =
      .conditional (h.withDefaults settings) (c.map (.withThreshold settings.threshold))
        (Forest.images (.withDefaults settings) thens)
        (Forest.images (.withDefaults settings) elses) := rfl

theorem prepared_observer : (Step.observer h c steps).prepared settings =
    .observer (h.withDefaults settings) (c.map (.withThreshold settings.threshold))
      (Forest.images (.withDefaults settings) steps) := rfl

theorem prepared_group (name : String) : (Step.group h name steps).prepared settings =
    .group (h.withDefaults settings) name (Forest.images (.withDefaults settings) steps) := rfl

end Step

theorem Forest.images_cons_prepared (settings : Settings) (s : Step) (steps : List Step) :
    images (.withDefaults settings) (s :: steps) =
      s.prepared settings :: images (.withDefaults settings) steps := rfl

mutual

theorem Step.completed_prepared (settings : Settings) (s : Step) :
    s.Completed settings (s.prepared settings) := by
  have header : s.header.Completed settings (s.header.withDefaults settings) :=
    Header.completed_iff.mpr rfl
  cases s with
  | action h a => exact .action header (a.completed_map _)
  | conditional h c thens elses =>
    exact .conditional header (c.completed_map _) (Forest.completed_images settings thens)
      (Forest.completed_images settings elses)
  | observer h c steps =>
    exact .observer header (c.completed_map _) (Forest.completed_images settings steps)
  | group h name steps => exact .group name header (Forest.completed_images settings steps)

theorem Forest.completed_images (settings : Settings) (steps : List Step) :
    List.Forall₂ (Step.Completed settings) steps
      (Forest.images (.withDefaults settings) steps) := by
  cases steps with
  | nil => exact .nil
  | cons s steps =>
    exact .cons (Step.completed_prepared settings s) (Forest.completed_images settings steps)

end

mutual

theorem Step.Completed.eq_prepared {s s' : Step} (h : s.Completed settings s') :
    s' = s.prepared settings := by
  cases s with
  | action g a =>
    cases h with | action header action =>
    rw [Step.prepared_action, Header.completed_iff.mp header, action.eq_map]
  | conditional g c thens elses =>
    cases h with | conditional header condition first second =>
    rw [Step.prepared_conditional, Header.completed_iff.mp header, condition.eq_map,
      Forest.eq_images_of_completed first, Forest.eq_images_of_completed second]
  | observer g c steps =>
    cases h with | observer header condition inside =>
    rw [Step.prepared_observer, Header.completed_iff.mp header, condition.eq_map,
      Forest.eq_images_of_completed inside]
  | group g name steps =>
    cases h with | group _ header inside =>
    rw [Step.prepared_group, Header.completed_iff.mp header, Forest.eq_images_of_completed inside]

theorem Forest.eq_images_of_completed {steps steps' : List Step}
    (h : List.Forall₂ (Step.Completed settings) steps steps') :
    steps' = Forest.images (.withDefaults settings) steps := by
  cases steps with
  | nil =>
    cases h
    rfl
  | cons s steps =>
    cases h with | cons first others =>
    rw [Forest.images_cons_prepared, Step.Completed.eq_prepared first,
      Forest.eq_images_of_completed others]

end

/-- Made ready, the steps are what they have to be, and nothing else is. -/
theorem Forest.completed_iff {steps steps' : List Step} :
    List.Forall₂ (Step.Completed settings) steps steps' ↔
      steps' = map (.withDefaults settings) steps := by
  rw [map_eq, ← images_eq_map]
  constructor
  · exact eq_images_of_completed
  · rintro rfl
    exact completed_images settings steps

section

variable (settings later : Settings)

mutual

/-- A step that was made ready has nothing left to take from other settings. -/
theorem Step.prepared_prepared (s : Step) :
    (s.prepared settings).prepared later = s.prepared settings := by
  have again := Element.withThreshold_comp_withThreshold settings.threshold later.threshold
  cases s with
  | action h a =>
    rw [Step.prepared_action, Step.prepared_action, Header.withDefaults_withDefaults,
      Action.map_map, again]
  | conditional h c thens elses =>
    rw [Step.prepared_conditional, Step.prepared_conditional, Header.withDefaults_withDefaults,
      Condition.map_map, again, Forest.images_images thens, Forest.images_images elses]
  | observer h c steps =>
    rw [Step.prepared_observer, Step.prepared_observer, Header.withDefaults_withDefaults,
      Condition.map_map, again, Forest.images_images steps]
  | group h name steps =>
    rw [Step.prepared_group, Step.prepared_group, Header.withDefaults_withDefaults,
      Forest.images_images steps]

theorem Forest.images_images (steps : List Step) :
    Forest.images (.withDefaults later) (Forest.images (.withDefaults settings) steps) =
      Forest.images (.withDefaults settings) steps := by
  cases steps with
  | nil => rfl
  | cons s steps =>
    rw [Forest.images_cons_prepared, Forest.images_cons_prepared, Step.prepared_prepared s,
      Forest.images_images steps]

end

end

namespace Step

variable (settings : Settings) (s : Step)

theorem header_prepared : (s.prepared settings).header = s.header.withDefaults settings := by
  cases s <;> rfl

/-- Nothing is left open in a step made ready. -/
theorem isComplete_prepared : (s.prepared settings).isComplete = true := by
  have elements : (s.prepared settings).elements.all Element.hasThreshold = true := by
    rw [elements_prepared, List.all_map, List.all_eq_true]
    exact fun e _ => e.hasThreshold_withThreshold settings.threshold
  rw [isComplete, header_prepared, elements]
  rfl

end Step

namespace Script

variable (s : Script)

/-- Made ready once more, under any settings, the script stays as it is. -/
theorem withDefaults_withDefaults (settings : Settings) :
    ({ s.withDefaults with settings } : Script).withDefaults =
      { s.withDefaults with settings } := by
  have steps : Forest.map (.withDefaults settings) s.withDefaults.steps = s.withDefaults.steps := by
    simp only [withDefaults, Forest.map_eq, ← Forest.images_eq_map, Forest.images_images]
  rw [withDefaults, steps]

/-- Making a script ready fills in what was left open and keeps the rest: the result is the one script
with the same name, description and settings whose steps are the completed ones. Every step at every
depth then has both delays, every picture that it asks for has a threshold, and nothing is left for a
second time, whatever the settings have become. -/
theorem completes :
    (∀ t : Script, t = s.withDefaults ↔
      t.name = s.name ∧ t.description = s.description ∧ t.settings = s.settings ∧
        List.Forall₂ (Step.Completed s.settings) s.steps t.steps) ∧
    (∀ step ∈ Forest.everyStep s.withDefaults.steps,
      step.header.delayBefore.isSome ∧ step.header.delayAfter.isSome ∧
        ∀ p, .picture p ∈ step.elements → p.threshold.isSome) ∧
    ∀ settings, ({ s.withDefaults with settings } : Script).withDefaults =
      { s.withDefaults with settings } := by
  refine ⟨fun t => ?_, fun step hs => ?_, s.withDefaults_withDefaults⟩
  · rw [Forest.completed_iff]
    constructor
    · rintro rfl
      exact ⟨rfl, rfl, rfl, rfl⟩
    · rintro ⟨name, description, settings, steps⟩
      obtain ⟨_, _, _, _⟩ := t
      cases name
      cases description
      cases settings
      cases steps
      rfl
  · rw [s.everyStep_withDefaults] at hs
    obtain ⟨origin, -, rfl⟩ := List.mem_map.mp hs
    have complete := origin.isComplete_prepared s.settings
    rw [Step.isComplete, Bool.and_eq_true, Bool.and_eq_true, List.all_eq_true] at complete
    exact ⟨complete.1.1, complete.1.2, fun p hp => complete.2 (.picture p) hp⟩

end Script

end DeskScript
