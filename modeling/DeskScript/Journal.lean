import DeskScript.Json.Basic

/-! What happens in a run, and the record of the last of it. -/

namespace DeskScript

/-- Something that happens in a run. The outcome of a step comes with the milliseconds it took. -/
inductive Event where
  | scriptStarted (name : String)
  | scriptStopped
  | scriptPaused
  | scriptResumed
  | stepSucceeded (step : String) (duration : Nat)
  | stepFailed (step : String) (duration : Nat) (error : String)
  | observerTriggered (id : String)
deriving DecidableEq, Repr

namespace Event

def kind : Event → String
  | .scriptStarted _ => "script_started"
  | .scriptStopped => "script_stopped"
  | .scriptPaused => "script_paused"
  | .scriptResumed => "script_resumed"
  | .stepSucceeded _ _ => "step_succeeded"
  | .stepFailed _ _ _ => "step_failed"
  | .observerTriggered _ => "observer_triggered"

def members : Event → List (String × Json)
  | .scriptStarted name => [("name", .string name)]
  | .scriptStopped | .scriptPaused | .scriptResumed => []
  | .stepSucceeded step duration => [("step", .string step), ("duration_ms", .int duration)]
  | .stepFailed step duration error =>
    [("step", .string step), ("duration_ms", .int duration), ("error", .string error)]
  | .observerTriggered id => [("observer_id", .string id)]

def toJson (e : Event) : Json := .object (("event", .string e.kind) :: e.members)

def text : Event → String
  | .scriptStarted name => s!"Script started: {name}"
  | .scriptStopped => "Script stopped"
  | .scriptPaused => "Script paused"
  | .scriptResumed => "Script resumed"
  | .stepSucceeded step duration => s!"{step} succeeded in {duration}ms"
  | .stepFailed step duration error => s!"{step} failed after {duration}ms: {error}"
  | .observerTriggered id => s!"Observer triggered: {id}"

end Event

/-- The last events, oldest first. There is room for at least one. -/
structure Journal where
  capacity : Nat
  events : List Event

namespace Journal

def usualCapacity : Nat := 1000

/-- A journal with room for `capacity` events, or for one if that is zero. -/
def empty (capacity : Nat) : Journal := ⟨max capacity 1, []⟩

/-- Adds an event; a full journal drops its oldest. -/
def record (j : Journal) (e : Event) : Journal :=
  { j with events := (if j.capacity ≤ j.events.length then j.events.drop 1 else j.events) ++ [e] }

def recordAll (j : Journal) (es : List Event) : Journal := es.foldl record j

def clear (j : Journal) : Journal := { j with events := [] }

end Journal

end DeskScript
