import DeskScript.Engine.State

/-! What each piece of work does to the state, and what work it leaves. -/

namespace DeskScript

/-- What comes of a piece of work: the new state, the work to be done next, and the milliseconds to
wait before that, if others may go first. -/
structure Outcome where
  state : State
  next : Work := []
  pause : Option UInt64 := none

namespace Job

/-- Goes on only under a token that is not cancelled. -/
def guarded (s : State) (t : Token) (next : Work) : Outcome :=
  if s.isCancelled t then { state := s } else { state := s, next }

/-- Goes on only while the run is not paused. -/
def unlessPaused (s : State) (next : Work) : Outcome :=
  if s.phase = .paused then { state := s } else { state := s, next }

/-- Enters a step. Only the script's own loop moves the current step. -/
def enterStep (lane : Lane) (step : Step) (s : State) : State :=
  let s := s.note (.entered lane.foreground step.id)
  if lane.foreground then { s with currentStep := some step.id } else s

/-- The work of a step between its two delays. -/
def ofStep (lane : Lane) (since : Nat) (step : Step) : Work :=
  match step with
  | .action _ a => [.aim step a since a.aim]
  | .conditional _ c thens elses => [.decide lane c.inquiry thens elses]
  | .observer h c steps => [.enlist lane.run ⟨h.id, c, steps⟩]
  | .group _ _ steps => [.level lane steps]

/-- The steps to take once the truth of a condition is known; none if it cannot be told. -/
def branch (truth : Except Failure Bool) (thens elses : List Step) : List Step :=
  match truth with
  | .ok true => thens
  | .ok false => elses
  | .error _ => []

/-- The event for the outcome of a step that was begun at the time `since`. -/
def outcomeEvent (step : Step) (action : Action) (duration : Nat) (ok : Bool) : Event :=
  if ok then .stepSucceeded step.displayName duration
  else .stepFailed step.displayName duration s!"{action.name} failed"

@[simp] theorem outcomeEvent_true (step : Step) (action : Action) (duration : Nat) :
    outcomeEvent step action duration true = .stepSucceeded step.displayName duration := rfl

@[simp] theorem outcomeEvent_false (step : Step) (action : Action) (duration : Nat) :
    outcomeEvent step action duration false =
      .stepFailed step.displayName duration s!"{action.name} failed" := rfl

/-- What an action does to the flow. A jump is not carried out. -/
def afterAction : Action → Work
  | .flow .stop => [.halt]
  | _ => []

def perform (w : World) (s : State) (step : Step) (action : Action) (since : Nat) (aim : Aim) :
    Outcome :=
  let deed := action.deed aim
  let ok := (w.perform deed).isOk
  { state := match deed with
      | .call c => s.note (.called c ok)
      | _ => s
    next := match deed with
      | .wait ms => [.rest ms, .report step action since ok]
      | _ => [.report step action since ok] }

/-- Does a piece of work. -/
def run (setup : Setup) (w : World) (s : State) : Job → Outcome
  | .iterate r => guarded s r.token [.iterateOpen r]
  | .iterateOpen r =>
    if s.phase = .paused then { state := s, next := [.giveWay setup.pace.pausePoll, .iterate r] }
    else { state := s, next := [.level ⟨r, true⟩ r.script.steps, .endIteration r] }
  | .endIteration r => guarded s r.token [.count r]
  | .count r =>
    { state := { s with iterations := s.iterations + 1 }
      next := [.giveWay 0, .rest setup.pace.iterationDelay, .iterate r] }
  | .level _ [] => { state := s }
  | .level lane (step :: steps) => guarded s lane.run.token [.levelOpen lane step steps]
  | .levelOpen lane step steps => unlessPaused s [.enter lane step, .level lane steps]
  | .enter lane step =>
    { state := enterStep lane step s
      next := [.rest step.delayBefore, .body lane step, .rest step.delayAfter] }
  | .body lane step => { state := s, next := ofStep lane s.clock step }
  | .decide lane (.ask e next) thens elses =>
    { state := s.note (.looked e (w.find e)), next := [.decide lane (next (w.find e)) thens elses] }
  | .decide lane (.done truth) thens elses =>
    { state := s, next := [.level lane (branch truth thens elses)] }
  | .aim step action since (.ask e next) =>
    { state := s.note (.looked e (w.find e)), next := [.aim step action since (next (w.find e))] }
  | .aim step action since (.done place) => { state := s, next := [.act step action since place] }
  | .act step action since place => perform w s step action since place
  | .report step action since ok =>
    { state := s.tell (outcomeEvent step action (s.clock - since) ok), next := afterAction action }
  | .enlist r o => guarded s r.token [.enlistOpen r o]
  | .enlistOpen r o => { state := s.enlist setup o (r.priority o.id) }
  | .rest ms => { state := s, pause := if ms = 0 then none else some ms }
  | .giveWay ms => { state := s, pause := some ms }
  | .halt =>
    let (stopped, s) := s.halt
    { state := s, next := .clear :: if stopped then [.tell .scriptStopped] else [] }
  | .clear => { state := s.clear }
  | .tell e => { state := s.tell e }
  | .settle r => { state := s.settle r }
  | .watch t => guarded s t [.survey, .relax t]
  | .survey => { state := s, next := [.probe (Registry.scan s.registry.candidates)] }
  | .probe (.ask e next) =>
    { state := s.note (.looked e (w.find e)), next := [.probe (next (w.find e))] }
  | .probe (.done fired) => { state := s, next := fired.toList.map .takeIn }
  | .takeIn o =>
    match s.phase, s.run with
    | .running, some r =>
      { state := s, next := [.tell (.observerTriggered o.id), .level ⟨r, false⟩ o.steps] }
    | _, _ => { state := s }
  | .relax t => guarded s t [.giveWay setup.checkDelay, .watch t]

end Job

end DeskScript
