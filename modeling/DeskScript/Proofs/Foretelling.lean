import DeskScript.Proofs.Completing
import Mathlib.Data.List.Flatten

/-! What is found on a script tells what would be found on it made ready. A value that comes from the
settings is at fault only where the settings are. -/

namespace DeskScript

/-! ### Elements -/

namespace Element

variable {t : Float} (e : Element)

/-- A threshold of its own is looked at as before; one that is in range is not noticed. -/
theorem findings_withThreshold (range : inUnitRange t = true) :
    (e.withThreshold t).findings = e.findings := by
  cases e with
  | position p => rfl
  | picture p =>
    obtain ⟨data, own⟩ := p
    cases own with
    | none =>
      change findingIf (!inUnitRange t) (.threshold t) = []
      rw [range]
      rfl
    | some u => rfl

/-- Whatever the threshold is, nothing is found less. -/
theorem findings_sublist_withThreshold (t : Float) :
    e.findings.Sublist (e.withThreshold t).findings := by
  cases e with
  | position p => exact .refl _
  | picture p =>
    obtain ⟨data, own⟩ := p
    cases own with
    | none => exact List.nil_sublist _
    | some u => exact .refl _

end Element

/-! ### Steps -/

namespace Step

variable (settings : Settings) (s : Step)

theorem label_prepared : (s.prepared settings).header.label = s.header.label := by
  rw [header_prepared]
  rfl

theorem jump?_prepared : (s.prepared settings).jump? = s.jump? := by
  cases s with
  | action h a =>
    cases a with
    | mouse m => cases m <;> rfl
    | keyboard k | system k | flow k => cases k <;> rfl
  | _ => rfl

theorem isEmpty_images {f : Step → Step} (steps : List Step) :
    (Forest.images f steps).isEmpty = steps.isEmpty := by
  rw [Forest.images_eq_map, List.isEmpty_map]

/-- What is found on a step apart from its elements is found on it made ready. -/
theorem exists_ownFindings : ∃ others,
    s.ownFindings = s.elements.flatMap Element.findings ++ others ∧
    (s.prepared settings).ownFindings =
      (s.prepared settings).elements.flatMap Element.findings ++ others := by
  refine ⟨_, rfl, ?_⟩
  unfold ownFindings
  congr 1
  cases s with
  | action h a =>
    cases a with
    | mouse m => cases m <;> rfl
    | keyboard k => cases k <;> rfl
    | system | flow => rfl
  | conditional h c thens elses =>
    rw [prepared_conditional]
    simp only [isEmpty_images]
  | observer h c steps =>
    rw [prepared_observer]
    simp only [isEmpty_images]
  | group h name steps =>
    rw [prepared_group]
    simp only [isEmpty_images]

theorem ownFindings_prepared (range : inUnitRange settings.threshold = true) :
    (s.prepared settings).ownFindings = s.ownFindings := by
  obtain ⟨others, own, own'⟩ := s.exists_ownFindings settings
  have elements : (s.prepared settings).elements.flatMap Element.findings =
      s.elements.flatMap Element.findings := by
    rw [elements_prepared, List.flatMap_map]
    exact List.flatMap_congr fun e _ => e.findings_withThreshold range
  rw [own', own, elements]

theorem ownFindings_sublist_prepared :
    s.ownFindings.Sublist (s.prepared settings).ownFindings := by
  obtain ⟨others, own, own'⟩ := s.exists_ownFindings settings
  rw [own', own, elements_prepared, List.flatMap_map]
  apply List.Sublist.append _ (.refl others)
  exact .flatMap_right _ fun e _ => e.findings_sublist_withThreshold _

end Step

/-! ### Scripts -/

namespace Finding

variable (settings : Settings)

theorem ofNames_prepared (ids labels : List String) (steps : List Step) :
    ofNames ids labels (steps.map (Step.prepared settings)) = ofNames ids labels steps := by
  induction steps generalizing ids labels with
  | nil => rfl
  | cons s steps ih =>
    simp only [List.map_cons, ofNames, Step.id_prepared, Step.label_prepared, ih]

theorem ofJumps_eq (ids : List String) (steps : List Step) :
    ofJumps ids steps = (steps.filterMap Step.jump?).flatMap fun target =>
      findingIf (!ids.contains target) (.missingTarget target) := by
  induction steps with
  | nil => rfl
  | cons s steps ih =>
    rw [ofJumps, List.flatMap_cons, ← ofJumps, ih, List.filterMap_cons]
    cases s with
    | action h a =>
      cases a with
      | flow f => cases f <;> rfl
      | _ => rfl
    | _ => rfl

theorem ofJumps_prepared (ids : List String) (steps : List Step) :
    ofJumps ids (steps.map (Step.prepared settings)) = ofJumps ids steps := by
  have jumps : Step.jump? ∘ Step.prepared settings = Step.jump? :=
    funext (Step.jump?_prepared settings)
  rw [ofJumps_eq, ofJumps_eq, List.filterMap_map, jumps]

end Finding

namespace Script

variable (s : Script)

/-- The findings that do not depend on any threshold that a script leaves open. -/
def fixedFindings : List Finding :=
  findingIf (Text.allBlank s.name) .blankName ++
  findingIf s.steps.isEmpty .noSteps ++
  findingIf (!inUnitRange s.settings.threshold) (.defaultThreshold s.settings.threshold) ++
  Finding.ofNames [] [] (Forest.everyStep s.steps) ++
  Finding.ofJumps s.ids (Forest.everyStep s.steps)

theorem findings_eq : s.findings =
    s.fixedFindings ++ (Forest.everyStep s.steps).flatMap Step.ownFindings := by
  rw [findings, Forest.map_step_walk, Forest.flatMap_findings]
  rfl

theorem fixedFindings_withDefaults : s.withDefaults.fixedFindings = s.fixedFindings := by
  have empty : s.withDefaults.steps.isEmpty = s.steps.isEmpty := by
    rw [withDefaults, Forest.map_eq, List.isEmpty_map]
  rw [fixedFindings, empty, s.ids_withDefaults, s.everyStep_withDefaults, Finding.ofNames_prepared,
    Finding.ofJumps_prepared]
  rfl

theorem findings_withDefaults (range : inUnitRange s.settings.threshold = true) :
    s.withDefaults.findings = s.findings := by
  have own : (Forest.everyStep s.withDefaults.steps).flatMap Step.ownFindings =
      (Forest.everyStep s.steps).flatMap Step.ownFindings := by
    rw [s.everyStep_withDefaults, List.flatMap_map]
    exact List.flatMap_congr fun step _ => step.ownFindings_prepared s.settings range
  rw [findings_eq, findings_eq, s.fixedFindings_withDefaults, own]

/-- Nothing that is found on the script is lost when it is made ready. -/
theorem findings_sublist_withDefaults : s.findings.Sublist s.withDefaults.findings := by
  rw [findings_eq, findings_eq, s.fixedFindings_withDefaults, s.everyStep_withDefaults,
    List.flatMap_map]
  apply List.Sublist.append (.refl _)
  exact .flatMap_right _ fun step _ => step.ownFindings_sublist_prepared s.settings

/-- Settings that could be at fault in the steps are at fault themselves. -/
theorem defaultThreshold_mem_findings (h : inUnitRange s.settings.threshold = false) :
    .defaultThreshold s.settings.threshold ∈ s.findings := by
  have mem : Finding.defaultThreshold s.settings.threshold ∈
      findingIf (!inUnitRange s.settings.threshold) (.defaultThreshold s.settings.threshold) := by
    rw [h]
    exact List.mem_singleton_self _
  rw [findings_eq, fixedFindings]
  simp only [List.mem_append]
  exact .inl (.inl (.inl (.inr mem)))

/-- What is found on a script before it is made ready is found on it afterwards: exactly that, where the
default threshold is in range; and whatever the default is, there are errors before if and only if there
are errors afterwards. -/
theorem foretells :
    (0 ≤ s.settings.threshold ∧ s.settings.threshold ≤ 1 →
      s.withDefaults.findings = s.findings) ∧
    ((∃ f ∈ s.withDefaults.findings, f.severity = .error) ↔
      ∃ f ∈ s.findings, f.severity = .error) := by
  constructor
  · intro range
    exact s.findings_withDefaults (by simpa [inUnitRange] using range)
  · constructor
    · rintro ⟨f, hf, severe⟩
      cases range : inUnitRange s.settings.threshold with
      | true => exact ⟨f, s.findings_withDefaults range ▸ hf, severe⟩
      | false => exact ⟨_, s.defaultThreshold_mem_findings range, rfl⟩
    · rintro ⟨f, hf, severe⟩
      exact ⟨f, s.findings_sublist_withDefaults.subset hf, severe⟩

/-- A script that leaves a threshold open at its top, in a condition and in the middle of a tree. -/
def unsure : Script := { (default : Script) with
  name := "unsure"
  steps := [
    .observer ⟨"seen", none, none, none⟩
      (.all [.present (.picture ⟨"first", some 1.5⟩), .not (.absent (.picture ⟨"second", none⟩))]) [
        .action ⟨"drag", none, none, none⟩
          (.mouse (.drag (.picture ⟨"from", some (-1)⟩) (.picture ⟨"to", none⟩)))],
    .action ⟨"click", none, none, none⟩ (.mouse (.leftClick (.picture ⟨"third", none⟩)))] }

theorem foretells_unsure :
    (0 ≤ unsure.settings.threshold ∧ unsure.settings.threshold ≤ 1) ∧
    unsure.findings = [.threshold 1.5, .threshold (-1)] ∧
    unsure.withDefaults.findings = unsure.findings ∧
    Finding.count .error { unsure with settings.threshold := 2 }.findings = 3 ∧
    Finding.count .error { unsure with settings.threshold := 2 }.withDefaults.findings = 6 := by
  have range : 0 ≤ unsure.settings.threshold ∧ unsure.settings.threshold ≤ 1 := by decide +kernel
  exact ⟨range, by decide +kernel, unsure.foretells.1 range, by decide +kernel, by decide +kernel⟩

end Script

end DeskScript
