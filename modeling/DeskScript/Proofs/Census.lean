import DeskScript.Proofs.Thresholds
import DeskScript.Script.Finding
import Mathlib.Data.Finset.Card

/-! The findings on a script are as many as there are violations in its tree, in every list and at
every depth. -/

namespace DeskScript

/-! ### Violations -/

/-- How many of the values repeat others. -/
def repetitions (xs : List String) : Nat := xs.length - xs.toFinset.card

def Step.jump? : Step → Option String
  | .action _ (.flow (.jumpTo target)) => some target
  | _ => none

def Step.combination? : Step → Option (List String)
  | .action _ (.keyboard (.pressCombination keys)) => some keys
  | _ => none

def Step.groupName? : Step → Option String
  | .group _ name _ => some name
  | _ => none

/-- Whether there should be steps inside the step, but there are none. -/
def Step.isHollow : Step → Bool
  | .action _ _ => false
  | .conditional _ _ thens elses => thens.isEmpty && elses.isEmpty
  | .observer _ _ steps | .group _ _ steps => steps.isEmpty

namespace Script

variable (s : Script)

def ids : List String := (Forest.everyStep s.steps).map Step.id

def labels : List String := (Forest.everyStep s.steps).filterMap fun step => step.header.label

/-- The labels that are not blank. -/
def givenLabels : List String := s.labels.filter fun label => !Text.allBlank label

def jumps : List String := (Forest.everyStep s.steps).filterMap Step.jump?

def combinations : List (List String) := (Forest.everyStep s.steps).filterMap Step.combination?

def groupNames : List String := (Forest.everyStep s.steps).filterMap Step.groupName?

/-- The thresholds that steps set, each as often as it is set. -/
def ownThresholds : List Float := (Forest.everyStep s.steps).flatMap Step.thresholds

/-- How many errors there are in the whole tree. -/
def errorCount : Nat :=
  (if Text.allBlank s.name then 1 else 0) +
  (if 0 ≤ s.settings.threshold ∧ s.settings.threshold ≤ 1 then 0 else 1) +
  repetitions s.ids + s.labels.countP Text.allBlank + repetitions s.givenLabels +
  s.jumps.countP (fun target => target ∉ s.ids) +
  s.ownThresholds.countP (fun t => ¬(0 ≤ t ∧ t ≤ 1)) +
  s.combinations.countP List.isEmpty + s.groupNames.countP Text.allBlank

/-- How many things there are in the whole tree that can do nothing. -/
def warningCount : Nat :=
  (if s.steps = [] then 1 else 0) + (Forest.everyStep s.steps).countP Step.isHollow

/-- What makes a script fit to run. -/
structure Lawful : Prop where
  name : Text.allBlank s.name = false
  threshold : 0 ≤ s.settings.threshold ∧ s.settings.threshold ≤ 1
  ids : s.ids.Nodup
  label : ∀ label ∈ s.labels, Text.allBlank label = false
  labels : s.givenLabels.Nodup
  jump : ∀ target ∈ s.jumps, target ∈ s.ids
  ownThreshold : ∀ t ∈ s.ownThresholds, 0 ≤ t ∧ t ≤ 1
  combination : ∀ keys ∈ s.combinations, keys ≠ []
  groupName : ∀ name ∈ s.groupNames, Text.allBlank name = false

end Script

/-! ### Repetitions -/

/-- How many of the values are among those seen or repeat others. -/
def repeated (seen : List String) : List String → Nat
  | [] => 0
  | x :: xs => (if x ∈ seen then 1 else 0) + repeated (x :: seen) xs

theorem repeated_add_card (seen xs : List String) :
    repeated seen xs + (xs.toFinset \ seen.toFinset).card = xs.length := by
  induction xs generalizing seen with
  | nil => simp [repeated]
  | cons x xs ih =>
    have rest : repeated (x :: seen) xs + (xs.toFinset \ (x :: seen).toFinset).card = xs.length :=
      ih (x :: seen)
    rw [repeated, List.length_cons, ← rest, List.toFinset_cons, List.toFinset_cons]
    by_cases h : x ∈ seen
    · have hx : x ∈ seen.toFinset := List.mem_toFinset.mpr h
      rw [if_pos h, Finset.insert_sdiff_of_mem _ hx, Finset.insert_eq_of_mem hx]
      omega
    · have fresh : x ∉ xs.toFinset \ insert x seen.toFinset := by simp
      have new : insert x xs.toFinset \ seen.toFinset =
          insert x (xs.toFinset \ insert x seen.toFinset) := by
        ext y
        by_cases hy : y = x <;> simp [hy, h]
      rw [if_neg h, new, Finset.card_insert_of_notMem fresh]
      omega

theorem repeated_nil (xs : List String) : repeated [] xs = repetitions xs := by
  have h := repeated_add_card [] xs
  rw [List.toFinset_nil, Finset.sdiff_empty] at h
  rw [repetitions]
  omega

theorem repetitions_eq_zero {xs : List String} : repetitions xs = 0 ↔ xs.Nodup := by
  have le : xs.toFinset.card ≤ xs.length := xs.toFinset_card_le
  have all : xs.toFinset.card = xs.length ↔ xs.Nodup :=
    Multiset.toFinset_card_eq_card_iff_nodup (m := Multiset.ofList xs)
  rw [← all, repetitions]
  omega

/-! ### Counting findings -/

namespace Finding

theorem count_nil (severity : Severity) : count severity [] = 0 := rfl

theorem count_cons (severity : Severity) (f : Finding) (fs : List Finding) :
    count severity (f :: fs) = count severity fs + if f.severity = severity then 1 else 0 := by
  simp [count, List.countP_cons]

theorem count_append (severity : Severity) (fs gs : List Finding) :
    count severity (fs ++ gs) = count severity fs + count severity gs := List.countP_append

theorem count_findingIf (severity : Severity) (b : Bool) (f : Finding) :
    count severity (findingIf b f) = if b = true ∧ f.severity = severity then 1 else 0 := by
  cases b <;> simp [findingIf, count_cons, count_nil]

theorem count_warning_eq_zero {fs : List Finding} (h : ∀ f ∈ fs, f.severity = .error) :
    count .warning fs = 0 := by
  rw [count, List.countP_eq_zero]
  intro f hf
  simp [h f hf]

theorem eq_of_mem_findingIf {b : Bool} {f g : Finding} (h : f ∈ findingIf b g) : f = g := by
  cases b <;> simp_all [findingIf]

/-- Ids and labels are looked at one step after the other, beside those that were seen. -/
theorem count_ofNames (ids labels : List String) (steps : List Step) :
    count .error (ofNames ids labels steps) =
      repeated ids (steps.map Step.id) +
      (steps.filterMap fun step => step.header.label).countP Text.allBlank +
      repeated labels ((steps.filterMap fun step => step.header.label).filter
        fun label => !Text.allBlank label) := by
  induction steps generalizing ids labels with
  | nil => rfl
  | cons s steps ih =>
    have id : count .error (findingIf (ids.contains s.id) (.duplicateId s.id)) =
        if s.id ∈ ids then 1 else 0 := by simp [count_findingIf, severity]
    rw [ofNames, count_append, id, List.map_cons, repeated]
    cases hl : s.header.label with
    | none =>
      simp only [ih, List.filterMap_cons, hl]
      omega
    | some label =>
      cases hb : Text.allBlank label with
      | true =>
        simp only [List.filterMap_cons, hl, hb, if_true, count_cons, severity, ih, List.countP_cons,
          List.filter_cons, Bool.not_true, Bool.false_eq_true, if_false]
        omega
      | false =>
        have again : count .error (findingIf (labels.contains label) (.duplicateLabel label)) =
            if label ∈ labels then 1 else 0 := by simp [count_findingIf, severity]
        simp only [List.filterMap_cons, hl, hb, Bool.false_eq_true, if_false, count_append, again,
          ih, List.countP_cons, List.filter_cons, Bool.not_false, if_true, repeated]
        omega

theorem count_ofJumps (ids : List String) (steps : List Step) :
    count .error (ofJumps ids steps) =
      (steps.filterMap Step.jump?).countP fun target => target ∉ ids := by
  induction steps with
  | nil => rfl
  | cons s steps ih =>
    rw [ofJumps, List.flatMap_cons, count_append, ← ofJumps, ih, List.filterMap_cons]
    cases s with
    | action h a =>
      cases a with
      | flow a =>
        cases a with
        | jumpTo target =>
          simp [Step.jump?, count_findingIf, severity, List.countP_cons, Nat.add_comm]
        | _ => simp [Step.jump?, count_nil]
      | _ => simp [Step.jump?, count_nil]
    | _ => simp [Step.jump?, count_nil]

theorem severity_of_mem_ofNames {f : Finding} {ids labels : List String} {steps : List Step}
    (h : f ∈ ofNames ids labels steps) : f.severity = .error := by
  induction steps generalizing ids labels with
  | nil => cases h
  | cons s steps ih =>
    rw [ofNames, List.mem_append] at h
    rcases h with h | h
    · obtain rfl := eq_of_mem_findingIf h
      rfl
    · split at h
      · split at h
        · rcases List.mem_cons.mp h with rfl | h
          · rfl
          · exact ih h
        · rcases List.mem_append.mp h with h | h
          · obtain rfl := eq_of_mem_findingIf h
            rfl
          · exact ih h
      · exact ih h

theorem severity_of_mem_ofJumps {f : Finding} {ids : List String} {steps : List Step}
    (h : f ∈ ofJumps ids steps) : f.severity = .error := by
  obtain ⟨s, -, hs⟩ := List.mem_flatMap.mp h
  split at hs
  · obtain rfl := eq_of_mem_findingIf hs
    rfl
  · cases hs

end Finding

/-- A threshold of its own that is out of range is all that is found on an element. -/
theorem Element.count_findings (e : Element) :
    Finding.count .error e.findings = e.thresholds.countP (fun t => ¬(0 ≤ t ∧ t ≤ 1)) ∧
      Finding.count .warning e.findings = 0 := by
  cases e with
  | position p => exact ⟨rfl, rfl⟩
  | picture p =>
    cases ht : p.threshold with
    | none => simp [findings, thresholds, threshold?, ht, Finding.count_nil]
    | some t =>
      simp only [findings, thresholds, threshold?, ht, Finding.count_findingIf, Finding.severity]
      by_cases ht : 0 ≤ t ∧ t ≤ 1 <;> simp [inUnitRange, ht]

theorem Element.count_flatMap_findings (es : List Element) :
    Finding.count .error (es.flatMap Element.findings) =
        (es.flatMap Element.thresholds).countP (fun t => ¬(0 ≤ t ∧ t ≤ 1)) ∧
      Finding.count .warning (es.flatMap Element.findings) = 0 := by
  induction es with
  | nil => exact ⟨rfl, rfl⟩
  | cons e es ih =>
    simp only [List.flatMap_cons, Finding.count_append, List.countP_append, e.count_findings, ih,
      and_self]

/-- What is found on a step itself. -/
theorem Step.count_ownFindings (s : Step) :
    Finding.count .error s.ownFindings = s.thresholds.countP (fun t => ¬(0 ≤ t ∧ t ≤ 1)) +
        s.combination?.toList.countP List.isEmpty + s.groupName?.toList.countP Text.allBlank ∧
      Finding.count .warning s.ownFindings = if s.isHollow then 1 else 0 := by
  have elements := Element.count_flatMap_findings s.elements
  unfold ownFindings
  rw [Finding.count_append, Finding.count_append, elements.1, elements.2, ← s.thresholds_eq]
  cases s with
  | action h a =>
    cases a with
    | keyboard a =>
      cases a <;> simp [combination?, groupName?, isHollow, Finding.count_nil,
        Finding.count_findingIf, Finding.severity]
    | _ => simp [combination?, groupName?, isHollow, Finding.count_nil]
  | conditional h c thens elses | observer h c steps =>
    simp [combination?, groupName?, isHollow, Finding.count_findingIf, Finding.severity]
  | group h name steps =>
    simp [combination?, groupName?, isHollow, Finding.count_append, Finding.count_findingIf,
      Finding.severity]

theorem Step.count_flatMap_ownFindings (steps : List Step) :
    Finding.count .error (steps.flatMap Step.ownFindings) =
        (steps.flatMap Step.thresholds).countP (fun t => ¬(0 ≤ t ∧ t ≤ 1)) +
          (steps.filterMap Step.combination?).countP List.isEmpty +
          (steps.filterMap Step.groupName?).countP Text.allBlank ∧
      Finding.count .warning (steps.flatMap Step.ownFindings) = steps.countP Step.isHollow := by
  have cons {α : Type} (f : Step → Option α) (s : Step) (steps : List Step) :
      (s :: steps).filterMap f = (f s).toList ++ steps.filterMap f := by
    cases hf : f s <;> simp [hf]
  induction steps with
  | nil => exact ⟨rfl, rfl⟩
  | cons s steps ih =>
    simp only [List.flatMap_cons, cons, Finding.count_append, List.countP_append, List.countP_cons,
      s.count_ownFindings, ih]
    omega

namespace Forest

theorem everyStep_cons (s : Step) (steps : List Step) :
    everyStep (s :: steps) = everyStep [s] ++ everyStep steps := by
  simp [everyStep]

/-- Looking at each step of a script together with what is inside it is looking at every step. -/
theorem flatMap_findings (steps : List Step) :
    steps.flatMap Step.findings = (everyStep steps).flatMap Step.ownFindings := by
  have one (s : Step) : s.findings = (everyStep [s]).flatMap Step.ownFindings := by
    rw [Step.findings, ← map_step_walk, List.flatMap_map]
  induction steps with
  | nil => rfl
  | cons s steps ih => rw [List.flatMap_cons, one, ih, everyStep_cons s steps, List.flatMap_append]

end Forest

namespace Script

variable (s : Script)

/-- The errors on a script are those that its tree has. -/
theorem count_error_findings : Finding.count .error s.findings = s.errorCount := by
  have name : Finding.count .error (findingIf (Text.allBlank s.name) .blankName) =
      if Text.allBlank s.name then 1 else 0 := by simp [Finding.count_findingIf, Finding.severity]
  have noSteps : Finding.count .error (findingIf s.steps.isEmpty .noSteps) = 0 := by
    simp [Finding.count_findingIf, Finding.severity]
  have threshold : Finding.count .error (findingIf (!inUnitRange s.settings.threshold)
      (.defaultThreshold s.settings.threshold)) =
      if 0 ≤ s.settings.threshold ∧ s.settings.threshold ≤ 1 then 0 else 1 := by
    by_cases h : 0 ≤ s.settings.threshold ∧ s.settings.threshold ≤ 1 <;>
      simp [Finding.count_findingIf, Finding.severity, inUnitRange, h]
  have names : Finding.count .error (Finding.ofNames [] [] (Forest.everyStep s.steps)) =
      repetitions s.ids + s.labels.countP Text.allBlank + repetitions s.givenLabels := by
    rw [Finding.count_ofNames, repeated_nil, repeated_nil]
    rfl
  have jumps : Finding.count .error (Finding.ofJumps s.ids (Forest.everyStep s.steps)) =
      s.jumps.countP fun target => target ∉ s.ids := Finding.count_ofJumps _ _
  have own : Finding.count .error ((Forest.everyStep s.steps).flatMap Step.ownFindings) =
      s.ownThresholds.countP (fun t => ¬(0 ≤ t ∧ t ≤ 1)) + s.combinations.countP List.isEmpty +
        s.groupNames.countP Text.allBlank := (Step.count_flatMap_ownFindings _).1
  simp only [findings, Finding.count_append, Forest.map_step_walk, Forest.flatMap_findings, name,
    noSteps, threshold, names, own]
  rw [← ids, jumps, errorCount]
  omega

/-- The warnings on a script are those that its tree gives rise to. -/
theorem count_warning_findings : Finding.count .warning s.findings = s.warningCount := by
  have name : Finding.count .warning (findingIf (Text.allBlank s.name) .blankName) = 0 := by
    simp [Finding.count_findingIf, Finding.severity]
  have noSteps : Finding.count .warning (findingIf s.steps.isEmpty .noSteps) =
      if s.steps = [] then 1 else 0 := by simp [Finding.count_findingIf, Finding.severity]
  have threshold : Finding.count .warning (findingIf (!inUnitRange s.settings.threshold)
      (.defaultThreshold s.settings.threshold)) = 0 := by
    simp [Finding.count_findingIf, Finding.severity]
  have names : Finding.count .warning (Finding.ofNames [] [] (Forest.everyStep s.steps)) = 0 :=
    Finding.count_warning_eq_zero fun _ => Finding.severity_of_mem_ofNames
  have jumps : Finding.count .warning (Finding.ofJumps s.ids (Forest.everyStep s.steps)) = 0 :=
    Finding.count_warning_eq_zero fun _ => Finding.severity_of_mem_ofJumps
  simp only [findings, Finding.count_append, Forest.map_step_walk, Forest.flatMap_findings, name,
    noSteps, threshold, names, Step.count_flatMap_ownFindings]
  rw [← ids, jumps, warningCount]
  omega

/-- There are no errors exactly where all laws hold. -/
theorem errorCount_eq_zero : s.errorCount = 0 ↔ s.Lawful := by
  simp only [errorCount, Nat.add_eq_zero_iff, repetitions_eq_zero, List.countP_eq_zero,
    ite_eq_left_iff, ite_eq_right_iff, decide_eq_true_eq, not_not, Bool.not_eq_true,
    List.isEmpty_iff, one_ne_zero, imp_false]
  constructor
  · rintro ⟨⟨⟨⟨⟨⟨⟨⟨name, threshold⟩, ids⟩, label⟩, labels⟩, jump⟩, own⟩, combination⟩, group⟩
    exact ⟨name, threshold, ids, label, labels, jump, own, combination, group⟩
  · rintro ⟨name, threshold, ids, label, labels, jump, own, combination, group⟩
    exact ⟨⟨⟨⟨⟨⟨⟨⟨name, threshold⟩, ids⟩, label⟩, labels⟩, jump⟩, own⟩, combination⟩, group⟩

/-- The findings on a script count what is wrong in its tree and what in it can do nothing; one of them
is an error exactly where a law is broken. -/
theorem census :
    Finding.count .error s.findings = s.errorCount ∧
    Finding.count .warning s.findings = s.warningCount ∧
    ((∃ f ∈ s.findings, f.severity = .error) ↔ ¬ s.Lawful) := by
  refine ⟨s.count_error_findings, s.count_warning_findings, ?_⟩
  rw [← s.errorCount_eq_zero, ← s.count_error_findings, Finding.count, List.countP_eq_zero]
  simp

end Script

end DeskScript
