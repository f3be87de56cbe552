import DeskScript.Engine.Work

/-! How much work comes of work until others may go first. -/

namespace DeskScript

mutual

/-- A bound for the pieces of work that a step comes to. -/
def Step.effort (w : World) : Step → Nat
  | .action _ a => 10 + (a.aim.run w.find).2.length
  | .conditional _ c thens elses =>
    4 + (c.inquiry.run w.find).2.length + Forest.effort w thens + Forest.effort w elses
  | .observer _ _ _ => 5
  | .group _ _ steps => 3 + Forest.effort w steps

def Forest.effort (w : World) : List Step → Nat
  | [] => 1
  | step :: steps => 3 + step.effort w + Forest.effort w steps

end

/-- A bound for the pieces of work that a piece comes to. What is found out about observers later on
does not count. -/
def Job.effort (w : World) : Job → Nat
  | .iterate r => 5 + Forest.effort w r.script.steps
  | .iterateOpen r => 4 + Forest.effort w r.script.steps
  | .endIteration _ => 3
  | .level _ steps => Forest.effort w steps
  | .levelOpen _ step steps => 2 + step.effort w + Forest.effort w steps
  | .enter _ step => 1 + step.effort w
  | .body _ step => step.effort w - 2
  | .decide _ q thens elses =>
    1 + (q.run w.find).2.length + Forest.effort w thens + Forest.effort w elses
  | .aim _ _ _ q => 7 + (q.run w.find).2.length
  | .act _ _ _ _ => 6
  | .report _ _ _ _ => 4
  | .takeIn o => 2 + Forest.effort w o.steps
  | .probe q =>
    1 + (q.run w.find).2.length +
      (q.run w.find).1.elim 0 fun o => 2 + Forest.effort w o.steps
  | .halt => 3
  | .count _ | .enlist _ _ | .relax _ => 2
  | .enlistOpen _ _ | .rest _ | .giveWay _ | .clear | .tell _ | .settle _ | .watch _ | .survey => 1

/-- How often the work takes stock of the observers. -/
def Job.looks : Job → Nat
  | .watch _ => 2
  | .survey => 1
  | _ => 0

namespace Work

/-- A bound for the pieces of work to be done until others go first. -/
def effort (w : World) : Work → Nat
  | [] => 0
  | .giveWay _ :: _ => 1
  | job :: work => job.effort w + effort w work

/-- How often the observers are taken stock of until others go first. -/
def looks : Work → Nat
  | [] => 0
  | .giveWay _ :: _ => 0
  | job :: work => job.looks + looks work

theorem effort_append_le (w : World) (a b : Work) :
    effort w (a ++ b) ≤ effort w a + effort w b := by
  induction a with
  | nil => simp [effort]
  | cons job a ih => cases job <;> simp only [List.cons_append, effort] <;> omega

theorem looks_append_le (a b : Work) : looks (a ++ b) ≤ looks a + looks b := by
  induction a with
  | nil => simp [looks]
  | cons job a ih => cases job <;> simp only [List.cons_append, looks] <;> omega

end Work

/-- There is something to do for any forest, if only to see that it is empty. -/
theorem Forest.effort_pos (w : World) (steps : List Step) : 0 < Forest.effort w steps := by
  cases steps <;> simp only [Forest.effort] <;> omega

/-- What work leaves to be done comes to less, unless it takes stock of the observers less often. -/
theorem Job.effort_run (setup : Setup) (w : World) (s : State) (job : Job) :
    Work.looks (job.run setup w s).next < job.looks ∨
      Work.looks (job.run setup w s).next = job.looks ∧
        Work.effort w (job.run setup w s).next < job.effort w := by
  cases job with
  | watch t =>
    refine .inl ?_
    simp only [run, guarded]
    split <;> simp [Work.looks, looks]
  | survey => exact .inl (by simp [run, Work.looks, looks])
  | body lane step =>
    refine .inr ?_
    cases step <;>
      simp [run, ofStep, Work.looks, Work.effort, looks, effort, Step.effort] <;> omega
  | level lane steps =>
    refine .inr ?_
    cases steps with
    | nil => simp [run, Work.looks, Work.effort, looks, effort, Forest.effort]
    | cons step steps =>
      simp only [run, guarded]
      split <;> simp only [Work.looks, Work.effort, looks, effort, Forest.effort, true_and] <;> omega
  | decide lane q thens elses =>
    refine .inr ?_
    cases q with
    | ask e next => simp [run, Work.looks, Work.effort, looks, effort, Inquiry.run]
    | done truth =>
      have := Forest.effort_pos w thens
      have := Forest.effort_pos w elses
      simp only [run, Work.looks, Work.effort, looks, effort, Inquiry.run]
      unfold branch
      split <;> simp [Forest.effort] <;> omega
  | aim step action since q =>
    refine .inr ?_
    cases q <;> simp [run, Work.looks, Work.effort, looks, effort, Inquiry.run]
  | probe q =>
    refine .inr ?_
    cases q with
    | ask e next => simp [run, Work.looks, Work.effort, looks, effort, Inquiry.run]
    | done fired =>
      cases fired <;> simp [run, Work.looks, Work.effort, looks, effort, Inquiry.run]
  | act step action since place =>
    refine .inr ?_
    simp only [run, perform]
    split <;> simp [Work.looks, Work.effort, looks, effort]
  | report step action since ok =>
    refine .inr ?_
    simp only [run]
    unfold afterAction
    split <;> simp [Work.looks, Work.effort, looks, effort]
  | halt =>
    refine .inr ?_
    simp only [run]
    split <;> simp [Work.looks, Work.effort, looks, effort]
  | takeIn o =>
    refine .inr ?_
    simp only [run]
    split <;> simp only [Work.looks, Work.effort, looks, effort, true_and] <;> omega
  | enter lane step =>
    refine .inr ?_
    have : 2 ≤ step.effort w := by cases step <;> simp [Step.effort] <;> omega
    simp [run, Work.looks, Work.effort, looks, effort]
    omega
  | _ =>
    refine .inr ?_
    simp only [run, guarded, unlessPaused]
    (try split) <;>
      simp [Work.looks, Work.effort, looks, effort] <;> omega

/-- Work that goes on at once comes to less than before. -/
theorem Work.effort_run {setup : Setup} {w : World} {s : State} {job : Job} (work : Work)
    (h : (job.run setup w s).pause = none) :
    looks ((job.run setup w s).next ++ work) < looks (job :: work) ∨
      looks ((job.run setup w s).next ++ work) = looks (job :: work) ∧
        effort w ((job.run setup w s).next ++ work) < effort w (job :: work) := by
  have hl : looks (job :: work) = job.looks + looks work := by
    cases job <;> first | rfl | cases h
  have he : effort w (job :: work) = job.effort w + effort w work := by
    cases job <;> first | rfl | cases h
  have al := looks_append_le (job.run setup w s).next work
  have ae := effort_append_le w (job.run setup w s).next work
  rw [hl, he]
  rcases job.effort_run setup w s with less | ⟨same, less⟩ <;> omega

end DeskScript
