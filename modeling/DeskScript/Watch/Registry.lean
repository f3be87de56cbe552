import DeskScript.Screen.Inquiry
import DeskScript.Script.Basic

/-! The observers that are waiting for their conditions. -/

namespace DeskScript

structure Observer where
  id : String
  condition : Condition
  steps : List Step
deriving Inhabited

/-- An observer in the registry. The sequence number tells which of several came first. -/
structure Entry where
  observer : Observer
  active : Bool
  priority : Int32
  sequence : Nat
deriving Inhabited

/-- The observers, no two with one name, and the last sequence number given. -/
structure Registry where
  entries : List Entry := []
  lastSequence : Nat := 0
deriving Inhabited

namespace Registry

def find? (r : Registry) (id : String) : Option Entry :=
  r.entries.find? fun e => e.observer.id == id

/-- With the observer `o`, active. It takes the place of the one with its name, if any, else it comes
after all others. -/
def register (r : Registry) (o : Observer) (priority : Int32) : Registry :=
  match r.find? o.id with
  | some old =>
    { r with entries := r.entries.map fun e =>
        if e.observer.id == o.id then ⟨o, true, priority, old.sequence⟩ else e }
  | none =>
    { entries := r.entries ++ [⟨o, true, priority, r.lastSequence + 1⟩]
      lastSequence := r.lastSequence + 1 }

def unregister (r : Registry) (id : String) : Registry :=
  { r with entries := r.entries.filter fun e => e.observer.id != id }

def setActive (r : Registry) (id : String) (active : Bool) : Registry :=
  { r with entries := r.entries.map fun e =>
      if e.observer.id == id then { e with active } else e }

/-- Without any observer. Sequence numbers go on. -/
def clear (r : Registry) : Registry := { r with entries := [] }

/-- Whether `a` is looked at no later than `b`: the higher priority first, then the elder. -/
def comesFirst (a b : Entry) : Bool :=
  b.priority < a.priority || a.priority == b.priority && a.sequence ≤ b.sequence

/-- The active entries in the order in which they are looked at. -/
def candidates (r : Registry) : List Entry := (r.entries.filter Entry.active).mergeSort comesFirst

/-- The first of the entries whose condition holds. A condition that cannot be told does not. -/
def scan : List Entry → Inquiry (Option Observer)
  | [] => .done none
  | e :: es => e.observer.condition.inquiry.bind fun
    | .ok true => .done (some e.observer)
    | _ => scan es

end Registry

end DeskScript
