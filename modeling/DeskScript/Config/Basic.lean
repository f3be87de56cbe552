import DeskScript.Json.Basic
import DeskScript.Script.Json
import DeskScript.Text.Blank
import DeskScript.Text.Lowercase

/-! The configuration of the engine. Every part of it has a usual value. -/

namespace DeskScript

/-- How much is told of what goes on, the most talkative level first. -/
inductive LogLevel where
  | trace | debug | info | warn | error
deriving DecidableEq, Repr

namespace LogLevel

def all : List LogLevel := [.trace, .debug, .info, .warn, .error]

def word : LogLevel → String
  | .trace => "trace"
  | .debug => "debug"
  | .info => "info"
  | .warn => "warn"
  | .error => "error"

def rank : LogLevel → Nat
  | .trace => 0
  | .debug => 1
  | .info => 2
  | .warn => 3
  | .error => 4

/-- Whether messages of the level `l` are told at the level `threshold`. -/
def tells (threshold l : LogLevel) : Bool := threshold.rank ≤ l.rank

/-- The level called `name`; case and white space around it do not count. -/
def ofName? (name : String) : Option LogLevel :=
  match Text.lowercase (Text.trim name) with
  | "trace" => some .trace
  | "debug" => some .debug
  | "info" => some .info
  | "warn" | "warning" => some .warn
  | "error" => some .error
  | _ => none

end LogLevel

namespace Config

/-- The pace of a run in milliseconds: how often a paused run looks whether it may go on, and how
long it waits between two iterations. -/
structure Pace where
  pausePoll : UInt64 := 100
  iterationDelay : UInt64 := 0
deriving DecidableEq, Inhabited

structure Watching where
  checkDelay : UInt64 := 1000
deriving DecidableEq, Inhabited

/-- How input is made, with times in milliseconds. In a dry run nothing is sent. -/
structure Input where
  dryRun : Bool := false
  clickHold : UInt64 := 50
  doubleClickGap : UInt64 := 100
  dragSettle : UInt64 := 100
  keyHold : UInt64 := 50
  keyGap : UInt64 := 20
  typeDelay : UInt64 := 20
  jitter : UInt64 := 0
deriving DecidableEq, Inhabited

structure Logging where
  level : Option LogLevel := none
  maxEntries : UInt64 := 1000
deriving DecidableEq, Inhabited

end Config

structure Config where
  pace : Config.Pace := {}
  watching : Config.Watching := {}
  input : Config.Input := {}
  logging : Config.Logging := {}
deriving DecidableEq, Inhabited

namespace Config

/-- The milliseconds between two looks at the observers of a script: those of its settings, unless
they say nothing or zero. -/
def Watching.checkDelayFor (w : Watching) (settings : Settings) : UInt64 :=
  match settings.checkDelay with
  | some ms => if ms = 0 then w.checkDelay else ms
  | none => w.checkDelay

/-! ### Ranges -/

inductive Positive where
  | pausePoll | checkDelay | maxEntries
deriving DecidableEq, Repr

def Positive.all : List Positive := [.pausePoll, .checkDelay, .maxEntries]

def Positive.value (c : Config) : Positive → UInt64
  | .pausePoll => c.pace.pausePoll
  | .checkDelay => c.watching.checkDelay
  | .maxEntries => c.logging.maxEntries

def Positive.sectionName : Positive → String
  | .pausePoll => "executor"
  | .checkDelay => "observer"
  | .maxEntries => "logging"

/-- The name under which the value is reported: that of its usual value. -/
def Positive.reportedName : Positive → String
  | .pausePoll => "default_pause_poll_ms"
  | .checkDelay => "default_check_delay_ms"
  | .maxEntries => "default_max_entries"

def outOfRange (c : Config) : List Positive := Positive.all.filter fun p => p.value c == 0

/-- The report of faults in `properties`, with no fault beside them. -/
def report (properties : List (String × Json)) : Json :=
  .object [("errors", .array []), ("properties", .object properties)]

def Positive.report (p : Positive) : String × Json :=
  (p.sectionName, Config.report [(p.reportedName,
    .object [("errors", .strings ["The number must be \x60>= 1\x60."])])])

def rangeReport (ps : List Positive) : Json := report (ps.map Positive.report)

/-! ### As JSON -/

def toJson (c : Config) : Json :=
  .object [
    ("executor", .object [
      ("pause_poll_ms", millisecondsJson c.pace.pausePoll),
      ("iteration_delay_ms", millisecondsJson c.pace.iterationDelay)]),
    ("observer", .object [("check_delay_ms", millisecondsJson c.watching.checkDelay)]),
    ("input", .object [
      ("dry_run", .bool c.input.dryRun),
      ("click_hold_ms", millisecondsJson c.input.clickHold),
      ("double_click_gap_ms", millisecondsJson c.input.doubleClickGap),
      ("drag_settle_ms", millisecondsJson c.input.dragSettle),
      ("key_hold_ms", millisecondsJson c.input.keyHold),
      ("key_gap_ms", millisecondsJson c.input.keyGap),
      ("type_delay_ms", millisecondsJson c.input.typeDelay),
      ("jitter_ms", millisecondsJson c.input.jitter)]),
    ("logging", .object [
      ("level", match c.logging.level with
        | some level => .string level.word
        | none => .null),
      ("max_entries", millisecondsJson c.logging.maxEntries)])]

end Config

end DeskScript
