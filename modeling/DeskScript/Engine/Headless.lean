import DeskScript.Engine.World
import DeskScript.Key
import DeskScript.Screen.Lookup

/-! Input where there is no display. Keys are made out before anything is sent. -/

namespace DeskScript.Headless

def key (name : String) : Except Failure Key :=
  match Key.ofName? name with
  | some k => .ok k
  | none => .error (.unknownKey name)

/-- The keys of a combination, of which there has to be one at least. -/
def combination (names : List String) : Except Failure (List Key) :=
  if names.isEmpty then .error .emptyCombination else names.mapM key

def unavailable : Except Failure Unit := .error (.inputUnavailable "no display")

/-- What comes of a request when nothing is sent. -/
def rehearse : Call → Except Failure Unit
  | .key name => discard (key name)
  | .combination names => discard (combination names)
  | _ => .ok ()

/-- What comes of a request. An empty text needs nothing to be sent. -/
def send : Call → Except Failure Unit
  | .key name => do
    discard (key name)
    unavailable
  | .combination names => do
    discard (combination names)
    unavailable
  | .typeText text => if text.isEmpty then .ok () else unavailable
  | _ => unavailable

def input (dryRun : Bool) (c : Call) : Except Failure Unit :=
  if dryRun then rehearse c else send c

def world (codec : Picture.Codec) (dryRun : Bool) (isProgram : String → Bool) : World where
  find := Element.findOn codec .unavailable
  input := input dryRun
  launch := World.launchAmong isProgram
  close process := .error (World.notRunning process)

end DeskScript.Headless
