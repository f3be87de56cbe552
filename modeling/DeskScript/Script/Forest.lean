import DeskScript.Script.Basic

/-! The steps of a forest one by one, each before the steps inside it and after its elder siblings.
Neither looking nor editing recurses, so that no depth of nesting is too deep. -/

namespace DeskScript

mutual

def Step.count : Step → Nat
  | .action _ _ => 1
  | .conditional _ _ thens elses => 1 + Forest.count thens + Forest.count elses
  | .observer _ _ steps => 1 + Forest.count steps
  | .group _ _ steps => 1 + Forest.count steps

def Forest.count : List Step → Nat
  | [] => 0
  | s :: steps => s.count + Forest.count steps

end

/-- A step with the number of steps around it and its place in its own list of siblings. -/
structure Visit where
  step : Step
  depth : Nat
  position : Nat

namespace Forest

def siblings (depth : Nat) (steps : List Step) : List Visit :=
  steps.zipIdx.map fun (s, i) => ⟨s, depth, i⟩

end Forest

def Visit.children (v : Visit) : List Visit :=
  v.step.childLists.flatMap (Forest.siblings (v.depth + 1))

namespace Forest

/-- The number of steps in the trees of visits still to be made. -/
def pending (stack : List Visit) : Nat := count (stack.map Visit.step)

@[simp] theorem count_append (as bs : List Step) : count (as ++ bs) = count as + count bs := by
  induction as with
  | nil => simp [count]
  | cons s as ih => simp [count, ih]; omega

@[simp] theorem map_step_siblings (depth : Nat) (steps : List Step) :
    (siblings depth steps).map Visit.step = steps := by
  simp [siblings, Function.comp_def]

theorem pending_children (v : Visit) : pending v.children + 1 = v.step.count := by
  rcases v with ⟨s, depth, position⟩
  cases s <;> simp [Visit.children, pending, Step.childLists, Step.count, count] <;> omega

/-- The visits of a walk that has those of `stack` still to make, each with what is inside it. -/
def walkFrom : List Visit → List Visit
  | [] => []
  | v :: stack => v :: walkFrom (v.children ++ stack)
termination_by stack => pending stack
decreasing_by
  have h := pending_children v
  simp only [pending, List.map_append, List.map_cons, count_append, count] at *
  omega

def walk (steps : List Step) : List Visit := walkFrom (siblings 0 steps)

/-! ### Editing -/

/-- A list of steps under edit is left for a list inside its next step: the edited siblings before
that step (last first), the step itself, edited, with its edited lists (last first) and those to
come, and the siblings after it. -/
structure Frame where
  before : List Step
  parent : Step
  finished : List (List Step)
  later : List (List Step)
  after : List Step

/-- A bound for the work left at a frame. -/
def Frame.work (f : Frame) : Nat :=
  1 + f.later.foldr (fun l n => 1 + 4 * count l + n) 0 + 4 * count f.after

/-- Edits the steps of `after` and then those that `around` still has to come; `before` are the
edited siblings, last first. What `f` makes of the lists inside a step does not count. -/
def editFrom (f : σ → Step → Step × σ) (state : σ) (around : List Frame)
    (before after : List Step) : List Step × σ :=
  match after with
  | s :: after =>
    let (t, state) := f state s
    match _h : s.childLists with
    | [] => editFrom f state around (t.withChildLists [] :: before) after
    | l :: later => editFrom f state (⟨before, t, [], later, after⟩ :: around) [] l
  | [] =>
    match around with
    | [] => (before.reverse, state)
    | ⟨outer, parent, finished, later, after⟩ :: around =>
      let finished := before.reverse :: finished
      match later with
      | l :: later => editFrom f state (⟨outer, parent, finished, later, after⟩ :: around) [] l
      | [] => editFrom f state around (parent.withChildLists finished.reverse :: outer) after
termination_by 4 * count after + around.foldr (fun f n => f.work + n) 0
decreasing_by
  · cases s <;> simp_all [Step.childLists, count, Step.count]
  · cases s <;> simp_all [Step.childLists, count, Step.count, Frame.work] <;> (try omega)
    obtain ⟨rfl, rfl⟩ := _h
    simp; omega
  · simp [Frame.work, count]; omega
  · simp [Frame.work, count]

/-- The forest with each step replaced by its image under `f`, the lists inside it apart. The state
goes through all steps in the order of the walk. -/
def edit (f : σ → Step → Step × σ) (state : σ) (steps : List Step) : List Step × σ :=
  editFrom f state [] [] steps

/-- The forest with each step replaced by its image under `f`, the lists inside it apart. -/
def map (f : Step → Step) (steps : List Step) : List Step :=
  (edit (fun _ s => (f s, ())) () steps).1

end Forest

end DeskScript
