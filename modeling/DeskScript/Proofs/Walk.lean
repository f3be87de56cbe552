import DeskScript.Script.Forest
import Mathlib.Tactic.Common

/-! The walk through a forest keeps a stack of the visits to come. It makes the same visits as the
recursion over the trees, so that it comes to every step in every list once. -/

namespace DeskScript

mutual

/-- The visits to the steps inside a step that has `depth` steps around it. -/
def Step.visitsInside (depth : Nat) : Step → List Visit
  | .action _ _ => []
  | .conditional _ _ thens elses =>
    Forest.visits (depth + 1) 0 thens ++ Forest.visits (depth + 1) 0 elses
  | .observer _ _ steps | .group _ _ steps => Forest.visits (depth + 1) 0 steps

/-- The visits to steps in a row and to those inside them, where the first of the row has the place
`position`. -/
def Forest.visits (depth position : Nat) : List Step → List Visit
  | [] => []
  | s :: steps =>
    ⟨s, depth, position⟩ :: (s.visitsInside depth ++ Forest.visits depth (position + 1) steps)

end

mutual

/-- The steps inside a step, in the order of the script. -/
def Step.within : Step → List Step
  | .action _ _ => []
  | .conditional _ _ thens elses => Forest.everyStep thens ++ Forest.everyStep elses
  | .observer _ _ steps | .group _ _ steps => Forest.everyStep steps

/-- All steps of a forest, each before those inside it. -/
def Forest.everyStep : List Step → List Step
  | [] => []
  | s :: steps => s :: (s.within ++ Forest.everyStep steps)

end

/-- The lists of siblings in a forest, each with the number of steps around it. -/
inductive Forest.Level (steps : List Step) : Nat → List Step → Prop
  | top : Level steps 0 steps
  | inside {depth : Nat} {siblings children : List Step} {s : Step} :
      Level steps depth siblings → s ∈ siblings → children ∈ s.childLists →
      Level steps (depth + 1) children

theorem Step.visitsInside_eq (depth : Nat) (s : Step) :
    s.visitsInside depth = s.childLists.flatMap (Forest.visits (depth + 1) 0) := by
  cases s <;> simp [visitsInside, childLists]

mutual

theorem Step.map_step_visitsInside (depth : Nat) (s : Step) :
    (s.visitsInside depth).map Visit.step = s.within := by
  cases s with
  | action h a => rfl
  | conditional h c thens elses =>
    rw [Step.visitsInside, Step.within, List.map_append, Forest.map_step_visits,
      Forest.map_step_visits]
  | observer h c steps => exact Forest.map_step_visits _ _ steps
  | group h name steps => exact Forest.map_step_visits _ _ steps

theorem Forest.map_step_visits (depth position : Nat) (steps : List Step) :
    (Forest.visits depth position steps).map Visit.step = Forest.everyStep steps := by
  cases steps with
  | nil => rfl
  | cons s steps =>
    rw [Forest.visits, Forest.everyStep, List.map_cons, List.map_append,
      Step.map_step_visitsInside, Forest.map_step_visits]

end

namespace Forest

/-! ### The stack -/

mutual

theorem walkFrom_children (s : Step) (depth position : Nat) (stack : List Visit) :
    walkFrom ((⟨s, depth, position⟩ : Visit).children ++ stack) =
      s.visitsInside depth ++ walkFrom stack := by
  cases s with
  | action h a => rfl
  | conditional h c thens elses =>
    have both : (⟨.conditional h c thens elses, depth, position⟩ : Visit).children ++ stack =
        siblings (depth + 1) thens ++ (siblings (depth + 1) elses ++ stack) := by
      simp [Visit.children, Step.childLists]
    rw [both, Step.visitsInside, siblings, walkFrom_row, siblings, walkFrom_row, List.append_assoc]
  | observer h c steps =>
    have one : (⟨.observer h c steps, depth, position⟩ : Visit).children =
        siblings (depth + 1) steps := by simp [Visit.children, Step.childLists]
    rw [one, Step.visitsInside, siblings, walkFrom_row]
  | group h name steps =>
    have one : (⟨.group h name steps, depth, position⟩ : Visit).children =
        siblings (depth + 1) steps := by simp [Visit.children, Step.childLists]
    rw [one, Step.visitsInside, siblings, walkFrom_row]

/-- A row of siblings on top of the stack is walked through, with all that is inside, before what is
beneath it. -/
theorem walkFrom_row (depth position : Nat) (steps : List Step) (stack : List Visit) :
    walkFrom (((steps.zipIdx position).map fun (s, i) => ⟨s, depth, i⟩) ++ stack) =
      visits depth position steps ++ walkFrom stack := by
  cases steps with
  | nil => rfl
  | cons s steps =>
    rw [List.zipIdx_cons, List.map_cons, List.cons_append, walkFrom, walkFrom_children,
      walkFrom_row, visits, List.cons_append, List.append_assoc]

end

/-- The walk makes the visits of the recursion over the trees. -/
theorem walk_eq_visits (steps : List Step) : walk steps = visits 0 0 steps := by
  have h := walkFrom_row 0 0 steps []
  rwa [List.append_nil, walkFrom, List.append_nil] at h

@[simp] theorem map_step_walk (steps : List Step) :
    (walk steps).map Visit.step = everyStep steps := by
  rw [walk_eq_visits, map_step_visits]

/-! ### Depths and places -/

mutual

theorem visitsInside_subset_inside {v : Visit} (s : Step) (depth : Nat)
    (h : v ∈ s.visitsInside depth) : v.step.visitsInside v.depth ⊆ s.visitsInside depth := by
  cases s with
  | action _ a => simp [Step.visitsInside] at h
  | conditional _ c thens elses =>
    rw [Step.visitsInside] at h ⊢
    rcases List.mem_append.mp h with h | h
    · exact List.Subset.trans (visitsInside_subset thens h) (List.subset_append_left _ _)
    · exact List.Subset.trans (visitsInside_subset elses h) (List.subset_append_right _ _)
  | observer _ c steps => exact visitsInside_subset steps h
  | group _ name steps => exact visitsInside_subset steps h

/-- What is inside a visited step is visited. -/
theorem visitsInside_subset {v : Visit} {depth position : Nat} (steps : List Step)
    (h : v ∈ visits depth position steps) :
    v.step.visitsInside v.depth ⊆ visits depth position steps := by
  cases steps with
  | nil => simp [visits] at h
  | cons s steps =>
    rw [visits] at h ⊢
    refine List.Subset.trans ?_ (List.subset_cons_self _ _)
    rcases List.mem_cons.mp h with rfl | h
    · exact List.subset_append_left _ _
    · rcases List.mem_append.mp h with h | h
      · exact List.Subset.trans (visitsInside_subset_inside s depth h) (List.subset_append_left _ _)
      · exact List.Subset.trans (visitsInside_subset steps h) (List.subset_append_right _ _)

end

theorem mem_visits_of_getElem? (depth position : Nat) {s : Step} {steps : List Step} {i : Nat}
    (h : steps[i]? = some s) : ⟨s, depth, position + i⟩ ∈ visits depth position steps := by
  induction steps generalizing i position with
  | nil => simp at h
  | cons s' steps ih =>
    rw [visits, List.mem_cons, List.mem_append]
    cases i with
    | zero =>
      obtain rfl : s' = s := by simpa using h
      exact .inl rfl
    | succ i =>
      have place : position + (i + 1) = position + 1 + i := by omega
      rw [place]
      exact .inr (.inr (ih (position + 1) (by simpa using h)))

/-- Each step is visited at its depth and in its place among its siblings. -/
theorem Level.mem_walk {steps siblings : List Step} {depth i : Nat} {s : Step}
    (level : Level steps depth siblings) (h : siblings[i]? = some s) :
    ⟨s, depth, i⟩ ∈ walk steps := by
  rw [walk_eq_visits]
  induction level generalizing i s with
  | top => simpa using mem_visits_of_getElem? 0 0 h
  | @inside depth siblings children parent _ hp hc ih =>
    obtain ⟨j, hj⟩ := List.getElem?_of_mem hp
    refine visitsInside_subset steps (ih hj) ?_
    rw [Step.visitsInside_eq, List.mem_flatMap]
    exact ⟨children, hc, by simpa using mem_visits_of_getElem? (depth + 1) 0 h⟩

mutual

theorem level_of_mem_visitsInside {steps siblings : List Step} {depth : Nat} {v : Visit} (s : Step)
    (level : Level steps depth siblings) (hs : s ∈ siblings) (h : v ∈ s.visitsInside depth) :
    ∃ siblings, Level steps v.depth siblings ∧ siblings[v.position]? = some v.step := by
  cases s with
  | action _ a => simp [Step.visitsInside] at h
  | conditional _ c thens elses =>
    rw [Step.visitsInside] at h
    rcases List.mem_append.mp h with h | h
    · exact level_of_mem_visits thens [] (.inside level hs (by simp [Step.childLists])) h
    · exact level_of_mem_visits elses [] (.inside level hs (by simp [Step.childLists])) h
  | observer _ c inside | group _ name inside =>
    exact level_of_mem_visits inside [] (.inside level hs (by simp [Step.childLists])) h

theorem level_of_mem_visits {steps : List Step} {depth : Nat} {v : Visit}
    (row before : List Step) (level : Level steps depth (before ++ row))
    (h : v ∈ visits depth before.length row) :
    ∃ siblings, Level steps v.depth siblings ∧ siblings[v.position]? = some v.step := by
  cases row with
  | nil => simp [visits] at h
  | cons s row =>
    rw [visits, List.mem_cons, List.mem_append] at h
    rcases h with rfl | h | h
    · exact ⟨_, level, by simp⟩
    · exact level_of_mem_visitsInside s level (by simp) h
    · refine level_of_mem_visits row (before ++ [s]) (by simpa using level) ?_
      simpa using h

end

/-- The walk comes to nothing else. -/
theorem level_of_mem_walk {steps : List Step} {v : Visit} (h : v ∈ walk steps) :
    ∃ siblings, Level steps v.depth siblings ∧ siblings[v.position]? = some v.step := by
  rw [walk_eq_visits] at h
  exact level_of_mem_visits steps [] .top h

theorem mem_everyStep_iff {steps : List Step} {s : Step} :
    s ∈ everyStep steps ↔ ∃ depth siblings, Level steps depth siblings ∧ s ∈ siblings := by
  rw [← map_step_walk, List.mem_map]
  constructor
  · rintro ⟨v, hv, rfl⟩
    obtain ⟨siblings, level, at_⟩ := level_of_mem_walk hv
    exact ⟨_, siblings, level, List.mem_of_getElem? at_⟩
  · rintro ⟨depth, siblings, level, hs⟩
    obtain ⟨i, hi⟩ := List.getElem?_of_mem hs
    exact ⟨_, level.mem_walk hi, rfl⟩

theorem subset_everyStep (steps : List Step) : steps ⊆ everyStep steps :=
  fun _ hs => mem_everyStep_iff.mpr ⟨0, steps, .top, hs⟩

/-- What is inside a step of the forest is in the forest. -/
theorem children_subset_everyStep {steps children : List Step} {s : Step} (hs : s ∈ everyStep steps)
    (hc : children ∈ s.childLists) : children ⊆ everyStep steps := by
  obtain ⟨depth, siblings, level, hs⟩ := mem_everyStep_iff.mp hs
  exact fun t ht => mem_everyStep_iff.mpr ⟨depth + 1, children, .inside level hs hc, ht⟩

end Forest

end DeskScript
