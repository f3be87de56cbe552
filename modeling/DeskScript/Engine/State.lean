import DeskScript.Config.Basic
import DeskScript.Engine.Deed
import DeskScript.Journal
import DeskScript.Script.Defaults
import DeskScript.Watch.Priority
import DeskScript.Watch.Registry

/-! The state of the engine and the changes made to it at one stroke. -/

namespace DeskScript

/-- Where a run is in its life. A stopped run is one that has yet to wind up. -/
inductive Phase where
  | idle | running | paused | stopped
deriving DecidableEq, Repr, Inhabited

def Phase.text : Phase → String
  | .idle => "IDLE"
  | .running => "RUNNING"
  | .paused => "PAUSED"
  | .stopped => "STOPPED"

/-- What ends a run or the polling of observers once it is cancelled. -/
abbrev Token := Nat

structure Run where
  token : Token
  script : Script
deriving Inhabited

/-- The priority of the observer called `id` in the run. -/
def Run.priority (r : Run) (id : String) : Int32 :=
  ((Priority.table r.script.steps).lookup id).getD (Priority.ofPlace 0 0)

/-- On whose behalf steps are run: the script's own loop, or an observer that has fired. -/
structure Lane where
  run : Run
  foreground : Bool

/-- Something that the engine tells of its work. -/
inductive Note where
  | entered (foreground : Bool) (step : String)
  | looked (element : Element) (sighting : Sighting)
  | called (c : Call) (ok : Bool)
  | event (e : Event)

/-- Work that is done at one stroke. What it leaves to be done is work again. -/
inductive Job where
  /-- Goes on with the next iteration of the script unless the run is cancelled. -/
  | iterate (run : Run)
  /-- Goes on with the next iteration unless the run is paused. -/
  | iterateOpen (run : Run)
  /-- Ends an iteration unless the run is cancelled. -/
  | endIteration (run : Run)
  /-- Counts an iteration. -/
  | count (run : Run)
  /-- Goes on with steps in a row unless the run is cancelled. -/
  | level (lane : Lane) (steps : List Step)
  /-- Goes on with steps in a row unless the run is paused. -/
  | levelOpen (lane : Lane) (step : Step) (rest : List Step)
  /-- Enters a step. -/
  | enter (lane : Lane) (step : Step)
  /-- Does what a step is for. -/
  | body (lane : Lane) (step : Step)
  /-- Finds out which branch to take. -/
  | decide (lane : Lane) (truth : Inquiry (Except Failure Bool)) (thens elses : List Step)
  /-- Looks for the targets of an action that was begun at the time `since`. -/
  | aim (step : Step) (action : Action) (since : Nat) (aim : Inquiry Aim)
  /-- Performs an action. -/
  | act (step : Step) (action : Action) (since : Nat) (aim : Aim)
  /-- Tells how an action went, and obeys it if it acts on the flow. -/
  | report (step : Step) (action : Action) (since : Nat) (ok : Bool)
  /-- Registers an observer unless the run is cancelled. -/
  | enlist (run : Run) (observer : Observer)
  /-- Registers an observer. -/
  | enlistOpen (run : Run) (observer : Observer)
  /-- Waits, if there is anything to wait for. -/
  | rest (milliseconds : UInt64)
  /-- Waits, or at least lets others go first. -/
  | giveWay (milliseconds : UInt64)
  /-- Stops the current run. -/
  | halt
  /-- Clears the registry. -/
  | clear
  /-- Tells of an event. -/
  | tell (e : Event)
  /-- Winds up a run. -/
  | settle (run : Run)
  /-- Begins a tick of the observers unless polling is cancelled. -/
  | watch (token : Token)
  /-- Takes stock of the observers. -/
  | survey
  /-- Finds out which observer fires. -/
  | probe (fired : Inquiry (Option Observer))
  /-- Takes in an observer that has fired. -/
  | takeIn (observer : Observer)
  /-- Waits for the next tick unless polling is cancelled. -/
  | relax (token : Token)

/-- Work yet to be done, in order. -/
abbrev Work := List Job

/-- What a thread of work is for. A visitor is there for somebody who waits for its end. -/
inductive Role where
  | foreground | watcher | visitor
deriving DecidableEq, Repr

/-- A thread of work. When `token` is cancelled it drops its work for `closing`, at the latest when
it next goes on after waiting. -/
structure Thread where
  role : Role
  token : Option Token
  work : Work
  closing : Work
  /-- When it is to go on. -/
  due : Nat

/-- What never changes: the pace of the script and of its observers, and whether threads can be
started at all. -/
structure Setup where
  pace : Config.Pace
  checkDelay : UInt64
  hasRuntime : Bool := true

structure State where
  clock : Nat := 0
  phase : Phase := .idle
  /-- The script of the current run or else of the last one. -/
  script : Option Script := none
  /-- The step that the script's own loop entered last. -/
  currentStep : Option String := none
  iterations : Nat := 0
  run : Option Run := none
  registry : Registry := {}
  polling : Option Token := none
  /-- How many tokens there are. -/
  issued : Nat := 0
  cancelled : List Token := []
  /-- The threads, the one that has waited longest first. -/
  threads : List Thread := []
  /-- What was told, with its time, the last first. -/
  notes : List (Nat × Note) := []

namespace State

def isCancelled (s : State) (t : Token) : Bool := s.cancelled.contains t

def cancel (s : State) (t : Token) : State := { s with cancelled := t :: s.cancelled }

def note (s : State) (n : Note) : State := { s with notes := (s.clock, n) :: s.notes }

def tell (s : State) (e : Event) : State := s.note (.event e)

def spawn (s : State) (role : Role) (token : Token) (work closing : Work) : State :=
  { s with threads := s.threads ++ [⟨role, some token, work, closing, s.clock⟩] }

/-! ### The life of a run -/

/-- Opens a run of a script, which only an idle engine does. -/
def openRun (s : State) (script : Script) : Option (Run × State) :=
  if s.phase = .idle then
    let run : Run := ⟨s.issued, script⟩
    some (run, { s with
      phase := .running, script := some script, currentStep := none, iterations := 0
      run := some run, issued := s.issued + 1 })
  else none

def transition (s : State) (before after : Phase) : Option State :=
  if s.phase = before then some { s with phase := after } else none

/-- Cancels the current run; with whether it had not been stopped before. -/
def halt (s : State) : Bool × State :=
  match s.run with
  | some run => (s.phase ≠ .stopped, { s.cancel run.token with phase := .stopped })
  | none => (false, { s with phase := .idle })

/-- Forgets a run, if it is the current one. -/
def settle (s : State) (run : Run) : State :=
  match s.run with
  | some current =>
    if current.token = run.token then { s with run := none, phase := .idle } else s
  | none => s

/-- The work that winds up a run. -/
def closing (run : Run) : Work := [.clear, .settle run]

def launch (s : State) (run : Run) : State :=
  s.spawn .foreground run.token (.iterate run :: closing run) (closing run)

/-! ### Observers -/

def isPolling (s : State) : Bool := s.polling.any fun t => !s.isCancelled t

/-- With a thread that polls the observers, if there can be one. -/
def startPolling (s : State) (setup : Setup) : State :=
  if setup.hasRuntime then
    { s.spawn .watcher s.issued [.watch s.issued] [] with
      polling := some s.issued, issued := s.issued + 1 }
  else { s with polling := none }

/-- With an observer registered, and polling under way. -/
def enlist (s : State) (setup : Setup) (o : Observer) (priority : Int32) : State :=
  let s := { s with registry := s.registry.register o priority }
  if s.isPolling then s else s.startPolling setup

/-- Without observers, and with polling cancelled. -/
def clear (s : State) : State :=
  let s := match s.polling with
    | some t => s.cancel t
    | none => s
  { s with registry := s.registry.clear, polling := none }

end State

end DeskScript
