import DeskScript.Command
import DeskScript.Engine.Schedule

/-! The engine as it is seen from outside. -/

namespace DeskScript.State

/-- Starts a script, with the values of its settings in all its steps. Only an idle engine starts
one, and only where threads can be started. Tells whether it did. -/
def start (setup : Setup) (script : Script) (s : State) : Bool × State :=
  if setup.hasRuntime then
    match s.openRun script.withDefaults with
    | some (run, s) => (true, (s.tell (.scriptStarted script.name)).launch run)
    | none => (false, s)
  else (false, s)

/-- Changes the phase and tells of it, if the phase is as it should be. Tells whether it was. -/
def change (before after : Phase) (e : Event) (s : State) : Bool × State :=
  match s.transition before after with
  | some s => (true, s.tell e)
  | none => (false, s)

def pause : State → Bool × State := change .running .paused .scriptPaused

def resume : State → Bool × State := change .paused .running .scriptResumed

def stop (s : State) : State :=
  let (stopped, s) := s.halt
  let s := s.clear
  if stopped then s.tell .scriptStopped else s

def statusText (s : State) : String :=
  let script := (s.script.map Script.name).getD "-"
  let step := s.currentStep.getD "-"
  s!"state={s.phase.text} script={script} iteration={s.iterations} step={step}"

/-- Obeys a command; with the answer, if it has one. -/
def obey (c : Command) (s : State) : Option String × State :=
  match c with
  | .pause => (none, s.pause.2)
  | .resume => (none, s.resume.2)
  | .stop => (none, s.stop)
  | .status => (some s.statusText, s)

/-- Obeys commands up to the first one to stop; with the answers. -/
def obeyAll : List Command → State → List String × State
  | [], s => ([], s)
  | c :: cs, s =>
    let (answer, s) := s.obey c
    let (answers, s) := if c = .stop then ([], s) else obeyAll cs s
    (answer.toList ++ answers, s)

/-- The events told of, the first of them first. -/
def events (s : State) : List Event :=
  s.notes.reverse.filterMap fun (_, n) =>
    match n with
    | .event e => some e
    | _ => none

def noteAll (s : State) (log : List (Element × Sighting)) : State :=
  log.foldl (fun s (e, sighting) => s.note (.looked e sighting)) s

/-- Makes one tick of the observers at once and waits for its end; with the observer that fired. -/
def check (setup : Setup) (w : World) (s : State) : Option Observer × State :=
  let (fired, log) := (Registry.scan s.registry.candidates).run w.find
  let s := s.noteAll log
  match fired with
  | some o =>
    let visitor : Thread := ⟨.visitor, none, [.takeIn o], [], s.clock⟩
    (some o, awaitVisitors setup w { s with threads := visitor :: s.threads })
  | none => (none, s)

end DeskScript.State
