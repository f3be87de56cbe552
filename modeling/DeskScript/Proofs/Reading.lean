import DeskScript.Proofs.Lanes

/-! The plain reading of a tree of steps: what it shows when nobody interferes and the screen stays as
it is, and that the pieces of work which the engine makes of the tree read the same. -/

namespace DeskScript

/-- What is shown, and whether the run is stopped by it. -/
@[ext]
structure Reading where
  marks : List Mark
  stops : Bool := false

namespace Reading

def nothing : Reading := ⟨[], false⟩

/-- The first reading and then the other, unless the run is stopped by the first. -/
def andThen (a b : Reading) : Reading :=
  if a.stops then a else ⟨a.marks ++ b.marks, b.stops⟩

@[simp] theorem nothing_andThen (a : Reading) : nothing.andThen a = a := rfl

@[simp] theorem andThen_nothing (a : Reading) : a.andThen nothing = a := by
  obtain ⟨marks, stops⟩ := a
  cases stops <;> simp [andThen, nothing]

theorem andThen_assoc (a b c : Reading) : (a.andThen b).andThen c = a.andThen (b.andThen c) := by
  obtain ⟨ma, sa⟩ := a
  obtain ⟨mb, sb⟩ := b
  cases sa <;> cases sb <;> simp [andThen]

theorem marks_andThen (marks : List Mark) (a : Reading) :
    andThen ⟨marks, false⟩ a = ⟨marks ++ a.marks, a.stops⟩ := rfl

/-- What is found in the first reading comes before what is found in the other. -/
theorem filterMap_andThen {β : Type} (f : Mark → Option β) (a b : Reading) :
    (a.andThen b).marks.filterMap f =
      a.marks.filterMap f ++ if a.stops then [] else b.marks.filterMap f := by
  unfold andThen
  split <;> simp

end Reading

/-- What an action shows once the answers of `q` tell where it goes: what it looks for, what the world
does for it, and how it went. -/
def Action.reading (w : World) (step : Step) (a : Action) (q : Inquiry Aim) : Reading :=
  let (aim, log) := q.run w.find
  let deed := a.deed aim
  let ok := (w.perform deed).isOk
  { marks := log.map (fun (e, sighting) => .looked e sighting) ++
      (if deed.isOutward then [.did deed ok] else []) ++ [.reported step a ok]
    stops := a = .flow .stop }

def Condition.reading (w : World) (q : Inquiry (Except Failure Bool)) : Reading :=
  { marks := (q.run w.find).2.map fun (e, sighting) => .looked e sighting }

/-- What reaching an observer block shows: the observer is registered, and nothing of it is run. -/
def Lane.enlisting (lane : Lane) (h : Header) (c : Condition) (steps : List Step) : Reading :=
  { marks := [.enlisted ⟨h.id, c, steps⟩ (lane.run.priority h.id)] }

mutual

/-- What a step shows after it was entered. -/
def Step.bodyReading (w : World) (lane : Lane) : Step → Reading
  | .action h a => a.reading w (.action h a) a.aim
  | .conditional _ c thens elses =>
    (Condition.reading w c.inquiry).andThen <|
      match (c.inquiry.run w.find).1 with
      | .ok true => Forest.reading w lane thens
      | .ok false => Forest.reading w lane elses
      | .error _ => .nothing
  | .observer h c steps => lane.enlisting h c steps
  | .group _ _ steps => Forest.reading w lane steps

/-- What steps in a row show. The first of them that stops the run ends them all. -/
def Forest.reading (w : World) (lane : Lane) : List Step → Reading
  | [] => .nothing
  | step :: steps =>
    (Reading.andThen ⟨[.entered lane.foreground step], false⟩ (step.bodyReading w lane)).andThen
      (Forest.reading w lane steps)

end

def Step.reading (w : World) (lane : Lane) (step : Step) : Reading :=
  Reading.andThen ⟨[.entered lane.foreground step], false⟩ (step.bodyReading w lane)

theorem Forest.reading_cons (w : World) (lane : Lane) (step : Step) (steps : List Step) :
    Forest.reading w lane (step :: steps) =
      (step.reading w lane).andThen (Forest.reading w lane steps) := by
  rw [Forest.reading, Step.reading]

def Job.branchReading (w : World) (lane : Lane) (truth : Except Failure Bool)
    (thens elses : List Step) : Reading :=
  match truth with
  | .ok true => Forest.reading w lane thens
  | .ok false => Forest.reading w lane elses
  | .error _ => .nothing

theorem Job.branchReading_eq (w : World) (lane : Lane) (truth : Except Failure Bool)
    (thens elses : List Step) :
    branchReading w lane truth thens elses = Forest.reading w lane (branch truth thens elses) := by
  unfold branchReading branch
  split <;> simp [Forest.reading]

/-! ### The work reads like the tree -/

/-- What the work and all that comes of it show. -/
def Job.reading (w : World) : Job → Reading
  | .level lane steps => Forest.reading w lane steps
  | .levelOpen lane step steps => (step.reading w lane).andThen (Forest.reading w lane steps)
  | .enter lane step => step.reading w lane
  | .body lane step => step.bodyReading w lane
  | .decide lane q thens elses =>
    (Condition.reading w q).andThen (branchReading w lane (q.run w.find).1 thens elses)
  | .aim step action _ q => action.reading w step q
  | .act step action _ place => action.reading w step (.done place)
  | .report step action _ ok => { marks := [.reported step action ok], stops := action = .flow .stop }
  | .enlist r o | .enlistOpen r o => { marks := [.enlisted o (r.priority o.id)] }
  | .halt => { marks := [], stops := true }
  | _ => .nothing

/-- What the work shows, one piece after the other. -/
def Work.reading (w : World) : Work → Reading
  | [] => .nothing
  | job :: work => (job.reading w).andThen (reading w work)

theorem Work.reading_append (w : World) (a b : Work) :
    reading w (a ++ b) = (reading w a).andThen (reading w b) := by
  induction a with
  | nil => rfl
  | cons job a ih => rw [List.cons_append, reading, reading, ih, Reading.andThen_assoc]

theorem Action.reading_ask (w : World) (step : Step) (a : Action) (e : Element)
    (next : Sighting → Inquiry Aim) :
    a.reading w step (.ask e next) =
      Reading.andThen ⟨[.looked e (w.find e)], false⟩ (a.reading w step (next (w.find e))) := rfl

theorem Condition.reading_ask (w : World) (e : Element)
    (next : Sighting → Inquiry (Except Failure Bool)) :
    Condition.reading w (.ask e next) =
      Reading.andThen ⟨[.looked e (w.find e)], false⟩ (Condition.reading w (next (w.find e))) := rfl

/-- A piece of work of the script's own loop reads as what it shows and what it leaves to be done,
where the run goes on and no pause keeps a step from being entered. -/
theorem Job.reading_run {setup : Setup} {w : World} {s : State} {lane : Lane} {job : Job}
    (own : job.IsOf lane) (hf : lane.foreground = true) (hh : job.isHalt = false)
    (live : s.isCancelled lane.run.token = false)
    (going : s.phase = .paused → ∀ l step steps, job ≠ .levelOpen l step steps) :
    job.reading w = Reading.andThen ⟨(job.mark w).toList, false⟩
      (Work.reading w (job.run setup w s).next) := by
  have one (job : Job) : Work.reading w [job] = job.reading w := Reading.andThen_nothing _
  have silent (a : Reading) : Reading.andThen ⟨[], false⟩ a = a := rfl
  cases job with
  | level l steps =>
    obtain rfl : l = lane := own
    cases steps with
    | nil => simp [reading, Forest.reading, run, mark, Work.reading, silent]
    | cons step steps =>
      simp only [run, guarded, live, Bool.false_eq_true, if_false, one]
      exact Forest.reading_cons w l step steps
  | levelOpen l step steps =>
    have hp : s.phase ≠ .paused := fun hp => going hp l step steps rfl
    simp only [run, unlessPaused, if_neg hp, Work.reading, Reading.andThen_nothing]
    rfl
  | enter l step => simp [run, Work.reading, reading, mark, Step.reading]
  | body l step =>
    obtain rfl : l = lane := own
    cases step with
    | observer h c steps => simp [run, ofStep, one, mark, silent, reading, Step.bodyReading]; rfl
    | action h a => simp [run, ofStep, one, mark, silent, reading, Step.bodyReading]
    | conditional h c thens elses =>
      simp only [run, ofStep, one, mark, reading, Step.bodyReading]
      rfl
    | group h name steps => simp [run, ofStep, one, mark, silent, reading, Step.bodyReading]
  | decide l q thens elses =>
    cases q with
    | ask e next =>
      simp only [run, one, reading, Condition.reading_ask, Reading.andThen_assoc]
      rfl
    | done truth =>
      simp only [run, one, reading, branchReading_eq]
      rfl
  | aim step action since q =>
    cases q with
    | ask e next =>
      simp only [run, one, reading]
      rfl
    | done place =>
      simp only [run, one, reading]
      rfl
  | act step action since place =>
    have told : Work.reading w ((act step action since place).run setup w s).next =
        (report step action since (w.perform (action.deed place)).isOk).reading w := by
      simp only [run, perform]
      split <;> exact one _
    rw [told]
    by_cases ho : (action.deed place).isOutward = true
    · simp [reading, Action.reading, Inquiry.run, mark, ho, Reading.marks_andThen]
    · simp [reading, Action.reading, Inquiry.run, mark, ho, Reading.marks_andThen]
  | report step action since ok =>
    simp only [run, mark, reading]
    unfold afterAction
    split
    · rfl
    · rename_i h
      simpa [Work.reading, Reading.marks_andThen, Reading.nothing] using h
  | enlist r o =>
    obtain rfl : r = lane.run := own
    simp only [run, guarded, live, Bool.false_eq_true, if_false, one]
    rfl
  | enlistOpen r o => simp [run, mark, reading, Work.reading]
  | rest ms => rfl
  | halt => cases hh
  | survey | probe | takeIn => exact absurd (hf.symm.trans own) (by simp)
  | tell e =>
    cases e <;> first | exact absurd own id | exact absurd (hf.symm.trans own) (by simp)
  | _ => exact absurd own id

/-! ### The order of steps -/

mutual

/-- The steps inside a step in the order of the script. An observer keeps its own to itself. -/
def Step.inside : Step → List Step
  | .action _ _ | .observer _ _ _ => []
  | .conditional _ _ thens elses => Forest.inOrder thens ++ Forest.inOrder elses
  | .group _ _ steps => Forest.inOrder steps

/-- The steps of a forest in the order of the script, each before the steps inside it. -/
def Forest.inOrder : List Step → List Step
  | [] => []
  | step :: steps => step :: (step.inside ++ Forest.inOrder steps)

end

def Reading.entered (a : Reading) : List Step := a.marks.filterMap Mark.entered?

theorem Reading.entered_andThen (a b : Reading) :
    (a.andThen b).entered.Sublist (a.entered ++ b.entered) := by
  unfold entered
  rw [filterMap_andThen]
  refine List.Sublist.append_left ?_ _
  split
  · exact List.nil_sublist _
  · exact List.Sublist.refl _

theorem Action.entered_reading (w : World) (step : Step) (a : Action) (q : Inquiry Aim) :
    (a.reading w step q).entered = [] := by
  unfold Action.reading Reading.entered
  dsimp only
  split <;> simp [Mark.entered?, Function.comp_def]

theorem Condition.entered_reading (w : World) (q : Inquiry (Except Failure Bool)) :
    (Condition.reading w q).entered = [] := by
  simp [Condition.reading, Reading.entered, Mark.entered?, Function.comp_def]

mutual

theorem Step.entered_bodyReading (w : World) (lane : Lane) (step : Step) :
    (step.bodyReading w lane).entered.Sublist step.inside := by
  cases step with
  | action h a =>
    rw [Step.bodyReading, Action.entered_reading]
    exact List.nil_sublist _
  | conditional h c thens elses =>
    rw [Step.bodyReading, Step.inside]
    refine (Reading.entered_andThen _ _).trans ?_
    rw [Condition.entered_reading, List.nil_append]
    split
    · exact (Forest.entered_reading w lane thens).trans (List.sublist_append_left _ _)
    · exact (Forest.entered_reading w lane elses).trans (List.sublist_append_right _ _)
    · exact List.nil_sublist _
  | observer h c steps =>
    rw [Step.bodyReading]
    exact List.nil_sublist _
  | group h name steps =>
    rw [Step.bodyReading, Step.inside]
    exact Forest.entered_reading w lane steps

/-- The plain reading enters steps in the order of the script, each at most once, and none that is
inside an observer. -/
theorem Forest.entered_reading (w : World) (lane : Lane) (steps : List Step) :
    (Forest.reading w lane steps).entered.Sublist (Forest.inOrder steps) := by
  cases steps with
  | nil =>
    rw [Forest.reading]
    exact List.nil_sublist _
  | cons step steps =>
    rw [Forest.reading, Forest.inOrder]
    refine (Reading.entered_andThen _ _).trans ?_
    refine List.Sublist.trans ?_
      (((Step.entered_bodyReading w lane step).append (Forest.entered_reading w lane steps)).cons_cons step)
    rw [← List.cons_append]
    apply List.Sublist.append_right
    exact Reading.entered_andThen _ _

end

end DeskScript
