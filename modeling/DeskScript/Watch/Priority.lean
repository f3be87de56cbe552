import DeskScript.Script.Forest

/-! Which of several observers comes first. -/

namespace DeskScript

namespace Priority

def clamp (n : Int) : Int := max Int32.minValue.toInt (min n Int32.maxValue.toInt)

/-- The priority of an observer by the number of steps around it and its place in its list: deeper
observers come before others, and elder siblings before younger ones. Numbers that do not fit into
31 bits count as 2147483 and 999. -/
def ofPlace (depth position : Nat) : Int32 :=
  let depth := if depth < 1 <<< 31 then depth else 2147483
  let position := if position < 1 <<< 31 then position else 999
  .ofInt (clamp (clamp (depth * 1000) - position))

def ofVisits (visits : List Visit) : List (String × Int32) :=
  visits.filterMap fun v =>
    match v.step with
    | .observer h _ _ => some (h.id, ofPlace v.depth v.position)
    | _ => none

/-- The first entry of each name that has not been seen. -/
def firsts (seen : List String) : List (String × Int32) → List (String × Int32)
  | [] => []
  | (id, p) :: rest =>
    if seen.contains id then firsts seen rest else (id, p) :: firsts (id :: seen) rest

/-- The priorities of the observers of a forest by name. Of several with one name the first
counts. -/
def table (steps : List Step) : List (String × Int32) := firsts [] (ofVisits (Forest.walk steps))

end Priority

end DeskScript
