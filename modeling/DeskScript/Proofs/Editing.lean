import DeskScript.Proofs.Walk
import DeskScript.Script.Defaults

/-! Editing a forest keeps a stack of the lists that were left for others inside them. It makes the
changes of the recursion over the trees, to every step once and in the order of the walk. A change that
leaves the lists inside a step alone leaves every step in its place. -/

namespace DeskScript

/-! ### The stack -/

section Recursion

variable {σ : Type}

mutual

/-- The lists inside a step, edited, and the state after them. -/
def Step.editInside (f : σ → Step → Step × σ) (state : σ) : Step → List (List Step) × σ
  | .action _ _ => ([], state)
  | .conditional _ _ thens elses =>
    let thens := Forest.edited f state thens
    let elses := Forest.edited f thens.2 elses
    ([thens.1, elses.1], elses.2)
  | .observer _ _ steps | .group _ _ steps =>
    let steps := Forest.edited f state steps
    ([steps.1], steps.2)

/-- Steps in a row, each edited before those inside it, and the state after them. -/
def Forest.edited (f : σ → Step → Step × σ) (state : σ) : List Step → List Step × σ
  | [] => ([], state)
  | s :: steps =>
    let lists := s.editInside f (f state s).2
    let rest := Forest.edited f lists.2 steps
    ((f state s).1.withChildLists lists.1 :: rest.1, rest.2)

end

namespace Forest

variable (f : σ → Step → Step × σ)

mutual

theorem editFrom_cons (s : Step) (state : σ) (around : List Frame) (before after : List Step) :
    editFrom f state around before (s :: after) =
      editFrom f (s.editInside f (f state s).2).2 around
        ((f state s).1.withChildLists (s.editInside f (f state s).2).1 :: before) after := by
  cases s with
  | action h a =>
    rw [editFrom]
    rfl
  | conditional h c thens elses =>
    rw [editFrom]
    simp only [Step.childLists]
    rw [editFrom_row thens, editFrom, editFrom_row elses, editFrom]
    simp [Step.editInside]
  | observer h c steps =>
    rw [editFrom]
    simp only [Step.childLists]
    rw [editFrom_row steps, editFrom]
    simp [Step.editInside]
  | group h name steps =>
    rw [editFrom]
    simp only [Step.childLists]
    rw [editFrom_row steps, editFrom]
    simp [Step.editInside]

/-- The steps that come are edited, with all that is inside, before the list is left. -/
theorem editFrom_row (after : List Step) (state : σ) (around : List Frame) (before : List Step) :
    editFrom f state around before after =
      editFrom f (edited f state after).2 around ((edited f state after).1.reverse ++ before) [] := by
  cases after with
  | nil => simp [edited]
  | cons s after =>
    rw [editFrom_cons, editFrom_row after]
    simp [edited]

end

/-- Editing makes the changes of the recursion over the trees. -/
theorem edit_eq_edited (state : σ) (steps : List Step) :
    edit f state steps = edited f state steps := by
  rw [edit, editFrom_row, editFrom]
  simp

end Forest

end Recursion

/-! ### Images -/

mutual

/-- The lists inside a step, each with the images of its steps under `f`. -/
def Step.imagesInside (f : Step → Step) : Step → List (List Step)
  | .action _ _ => []
  | .conditional _ _ thens elses => [Forest.images f thens, Forest.images f elses]
  | .observer _ _ steps | .group _ _ steps => [Forest.images f steps]

/-- The images of steps under `f`, each around the images of the steps inside it. -/
def Forest.images (f : Step → Step) : List Step → List Step
  | [] => []
  | s :: steps => (f s).withChildLists (s.imagesInside f) :: Forest.images f steps

end

/-- The image of a step under `f`, around the images of the steps inside it. -/
def Step.image (f : Step → Step) (s : Step) : Step := (f s).withChildLists (s.imagesInside f)

/-- The change leaves the lists inside every step alone. -/
def Step.KeepsLists (f : Step → Step) : Prop := ∀ s : Step, (f s).childLists = s.childLists

section Images

variable {f : Step → Step}

theorem Forest.images_eq_map (steps : List Step) : images f steps = steps.map (Step.image f) := by
  induction steps with
  | nil => rfl
  | cons s steps ih => rw [images, ih, List.map_cons, Step.image]

theorem Step.imagesInside_eq (s : Step) :
    s.imagesInside f = s.childLists.map fun steps => steps.map (Step.image f) := by
  cases s <;> simp [imagesInside, childLists, Forest.images_eq_map]

mutual

theorem Step.editInside_eq_imagesInside (s : Step) :
    s.editInside (fun (_ : Unit) s => (f s, ())) () = (s.imagesInside f, ()) := by
  cases s with
  | action h a => rfl
  | conditional h c thens elses =>
    simp only [Step.editInside, Step.imagesInside, Forest.edited_eq_images thens,
      Forest.edited_eq_images elses]
  | observer h c steps | group h name steps =>
    simp only [Step.editInside, Step.imagesInside, Forest.edited_eq_images steps]

theorem Forest.edited_eq_images (steps : List Step) :
    Forest.edited (fun (_ : Unit) s => (f s, ())) () steps = (Forest.images f steps, ()) := by
  cases steps with
  | nil => rfl
  | cons s steps =>
    simp only [Forest.edited, Forest.images, Step.editInside_eq_imagesInside s,
      Forest.edited_eq_images steps]

end

/-- Every step is replaced by its image. -/
theorem Forest.map_eq (f : Step → Step) (steps : List Step) :
    map f steps = steps.map (Step.image f) := by
  rw [map, edit_eq_edited, edited_eq_images, images_eq_map]

theorem Step.childLists_withChildLists {s : Step} {lists : List (List Step)}
    (h : lists.length = s.childLists.length) : (s.withChildLists lists).childLists = lists := by
  cases s with
  | action h' a => exact (List.length_eq_zero_iff.mp h).symm
  | conditional h' c thens elses =>
    match lists, h with
    | [_, _], _ => rfl
  | observer h' c steps | group h' name steps =>
    obtain ⟨a, rfl⟩ := List.length_eq_one_iff.mp h
    rfl

theorem Step.childLists_image (keeps : KeepsLists f) (s : Step) :
    (s.image f).childLists = s.childLists.map fun steps => steps.map (Step.image f) := by
  rw [image, imagesInside_eq]
  apply childLists_withChildLists
  rw [keeps, List.length_map]

/-- The visit to the image of the step, in the same place. -/
def Visit.image (f : Step → Step) (v : Visit) : Visit := { v with step := v.step.image f }

mutual

theorem Step.visitsInside_image (keeps : Step.KeepsLists f) (depth : Nat) (s : Step) :
    (s.image f).visitsInside depth = (s.visitsInside depth).map (Visit.image f) := by
  have lists := s.childLists_image keeps
  rw [Step.visitsInside_eq, lists, List.flatMap_map]
  cases s with
  | action h a => rfl
  | conditional h c thens elses =>
    simp only [Step.childLists, List.flatMap_cons, List.flatMap_nil, List.append_nil,
      Step.visitsInside, List.map_append, Forest.visits_map_image keeps _ _ thens,
      Forest.visits_map_image keeps _ _ elses]
  | observer h c steps | group h name steps =>
    simp only [Step.childLists, List.flatMap_cons, List.flatMap_nil, List.append_nil,
      Step.visitsInside, Forest.visits_map_image keeps _ _ steps]

/-- The image of each step is visited where the step was. -/
theorem Forest.visits_map_image (keeps : Step.KeepsLists f) (depth position : Nat)
    (steps : List Step) :
    Forest.visits depth position (steps.map (Step.image f)) =
      (Forest.visits depth position steps).map (Visit.image f) := by
  cases steps with
  | nil => rfl
  | cons s steps =>
    rw [List.map_cons, Forest.visits, Forest.visits, List.map_cons, List.map_append,
      Step.visitsInside_image keeps depth s, Forest.visits_map_image keeps depth (position + 1) steps]
    rfl

end

theorem Forest.walk_map (keeps : Step.KeepsLists f) (steps : List Step) :
    walk (map f steps) = (walk steps).map (Visit.image f) := by
  rw [map_eq, walk_eq_visits, walk_eq_visits, visits_map_image keeps]

theorem Forest.everyStep_map (keeps : Step.KeepsLists f) (steps : List Step) :
    everyStep (map f steps) = (everyStep steps).map (Step.image f) := by
  rw [← map_step_walk, walk_map keeps, ← map_step_walk steps, List.map_map, List.map_map]
  rfl

end Images

end DeskScript
