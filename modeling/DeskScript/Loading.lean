import DeskScript.Config.Decode
import DeskScript.Json.Writer
import DeskScript.Script.Decode.Step

/-! Scripts and configurations from texts and files, and the words for what keeps them from being
loaded. -/

namespace DeskScript

/-- The ways to a text: it is at hand, it comes from a reader, or from the file at `path`, which is
read while it is parsed or before. -/
inductive Route where
  | text
  | reader
  | file (path : String)
  | wholeFile (path : String)
deriving DecidableEq, Repr

inductive LoadError where
  | noFile (route : Route)
  | unreadable (route : Route) (cause : Json.ReadError)
  | outOfRange (values : List Config.Positive)

namespace Route

def noScript : Route → String
  | .file path => s!"Failed to open script file {path}"
  | .wholeFile path => s!"Failed to read script file {path}"
  | .text | .reader => ""

def badScript : Route → String
  | .file path | .wholeFile path => s!"Failed to parse script JSON from {path}"
  | .text | .reader => "Failed to parse script JSON string"

def noConfig : Route → String
  | .file path => s!"Failed to open config file {path}"
  | .wholeFile path => s!"Failed to read config file {path}"
  | .text | .reader => ""

def badConfig : Route → String
  | .text => "Failed to parse JSON config string into EngineConfig"
  | .reader | .file _ => "Failed to parse JSON config from reader"
  | .wholeFile path => s!"Failed to parse JSON config from {path}"

end Route

namespace LoadError

def rangeMessage (values : List Config.Positive) : String :=
  "Invalid configuration: " ++ (Config.rangeReport values).text

def scriptMessage : LoadError → String
  | .noFile route => route.noScript
  | .unreadable route _ => route.badScript
  | .outOfRange values => rangeMessage values

def configMessage : LoadError → String
  | .noFile route => route.noConfig
  | .unreadable route _ => route.badConfig
  | .outOfRange values => rangeMessage values

end LoadError

/-- The document at the end of a route, which a missing file cuts off. -/
def Route.document (route : Route) (document : Option Json.Document) :
    Except LoadError Json.Document :=
  match document with
  | some d => .ok d
  | none => .error (.noFile route)

def Script.load (route : Route) (document : Option Json.Document) : Except LoadError Script := do
  ((← route.document document).decode Script.read).mapError (.unreadable route)

/-- The configuration in a document. Its values have to be in range. -/
def Config.load (route : Route) (document : Option Json.Document) : Except LoadError Config := do
  let c ← ((← route.document document).decode Config.read).mapError (.unreadable route)
  if c.outOfRange.isEmpty then return c else throw (.outOfRange c.outOfRange)

def Script.ofText (text : String) : Except LoadError Script :=
  Script.load .text (some (.ofText text))

def Config.ofText (text : String) : Except LoadError Config :=
  Config.load .text (some (.ofText text))

end DeskScript
