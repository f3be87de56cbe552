import DeskScript.Decimal.Style
import DeskScript.Screen.Inquiry

/-! What the engine asks of the world around it. -/

namespace DeskScript

/-- A single request to the mouse or the keyboard. -/
inductive Call where
  | move (p : Coordinate)
  | leftClick (p : Coordinate)
  | rightClick (p : Coordinate)
  | doubleClick (p : Coordinate)
  | drag (p q : Coordinate)
  | scroll (amount : Int32) (direction : Direction)
  | typeText (text : String)
  | key (name : String)
  | combination (names : List String)
deriving DecidableEq

def Direction.name : Direction → String
  | .up => "Up"
  | .down => "Down"
  | .left => "Left"
  | .right => "Right"

def Call.text : Call → String
  | .move p => s!"move {p.text}"
  | .leftClick p => s!"left {p.text}"
  | .rightClick p => s!"right {p.text}"
  | .doubleClick p => s!"double {p.text}"
  | .drag p q => s!"drag {p.text} {q.text}"
  | .scroll n d => s!"scroll {n} {d.name}"
  | .typeText text => s!"type {text}"
  | .key name => s!"key {name}"
  | .combination names => "combo " ++ "+".intercalate names

/-- The screen, the input devices and the system, as far as the engine is concerned. -/
structure World where
  find : Element → Sighting
  input : Call → Except Failure Unit
  launch : (path : String) → (args : List String) → Except Failure Unit
  close : (process : String) → Except Failure Unit

/-- Launches a program where `isProgram` tells which there are. No path and no argument can hold the
character with the code zero. -/
def World.launchAmong (isProgram : String → Bool) (path : String) (args : List String) :
    Except Failure Unit :=
  if (path :: args).any (·.contains '\x00') then .error (.process "nul byte found in provided data")
  else if isProgram path then .ok ()
  else .error (.process "No such file or directory")

def World.notRunning (process : String) : Failure :=
  .process s!"closing '{process}' exited with exit status: 1"

/-- A screen described by the names of what is on it, with places where they matter, and the names of
what fails. -/
structure Described where
  visible : List (String × Option Coordinate)
  failing : List String

namespace Described

/-- What looking for `e` yields. What is on the screen without a place is where it says itself, and a
picture at the origin. -/
def find (d : Described) (e : Element) : Sighting :=
  if d.failing.contains e.name then .error (.capture "described failure")
  else match d.visible.lookup e.name with
    | none => .ok none
    | some (some p) => .ok (some p)
    | some none =>
      match e with
      | .position p => .ok (some p)
      | .picture _ => .ok (some ⟨0, 0⟩)

def input (d : Described) (c : Call) : Except Failure Unit :=
  if d.failing.contains c.text then .error (.input "described failure") else .ok ()

/-- The world with the screen described, on a system with these programs. -/
def world (d : Described) (isProgram : String → Bool) : World where
  find := d.find
  input := d.input
  launch := World.launchAmong isProgram
  close process := .error (World.notRunning process)

def put (d : Described) (name : String) (place : Option Coordinate) : Described :=
  { d with visible := (name, place) :: d.visible }

def remove (d : Described) (name : String) : Described :=
  { d with visible := d.visible.filter (·.1 != name) }

def fail (d : Described) (name : String) : Described := { d with failing := name :: d.failing }

def mend (d : Described) (name : String) : Described :=
  { d with failing := d.failing.filter (· != name) }

end Described

end DeskScript
