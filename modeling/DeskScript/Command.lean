import DeskScript.Text.Blank
import DeskScript.Text.Lowercase
import DeskScript.Text.Utf8

/-! Commands to a run, written on lines. -/

namespace DeskScript

inductive Command where
  | pause | resume | stop | status
deriving DecidableEq, Repr

namespace Command

def word : Command → String
  | .pause => "pause"
  | .resume => "resume"
  | .stop => "stop"
  | .status => "status"

/-- The word of `text`: without the white space around it, in small letters. -/
def normalized (text : String) : String := Text.lowercase (Text.trim text)

def ofText? (text : String) : Option Command :=
  match normalized text with
  | "pause" | "p" => some .pause
  | "resume" | "r" => some .resume
  | "stop" | "quit" | "exit" | "q" => some .stop
  | "status" | "s" => some .status
  | _ => none

def unknownMessage (text : String) : String := s!"unknown command '{normalized text}'"

/-! ### Lines -/

/-- The first line of `bytes` without its line feed, and what follows. -/
def splitLine (bytes : List UInt8) : List UInt8 × List UInt8 :=
  (bytes.takeWhile (· != 0x0A), (bytes.dropWhile (· != 0x0A)).drop 1)

theorem length_splitLine {b : UInt8} {bytes : List UInt8} :
    (splitLine (b :: bytes)).2.length < (b :: bytes).length := by
  unfold splitLine
  by_cases h : b = 0x0A
  · simp [h]
  · have := (List.dropWhile_sublist (· != (0x0A : UInt8)) (l := bytes)).length_le
    simp [h]
    omega

/-- The commands on the lines of `bytes`. Lines that are no command are passed over; a line that is
no text in UTF-8 ends the reading. -/
def ofBytes : List UInt8 → List Command
  | [] => []
  | b :: bytes =>
    match Text.ofUtf8? (splitLine (b :: bytes)).1 with
    | some text => (ofText? text).toList ++ ofBytes (splitLine (b :: bytes)).2
    | none => []
termination_by bytes => bytes.length
decreasing_by exact length_splitLine

end Command

end DeskScript
