import DeskScript.Engine.Control
import DeskScript.Engine.Headless
import DeskScript.Loading
import DeskScript.Script.Finding
import DeskScript.Usage

/-! A script is loaded, checked and run as the command line asks, without a display. -/

namespace DeskScript

inductive Refusal where
  | misuse
  | config (e : LoadError)
  | level (name : String)
  | script (e : LoadError)
  | invalid (name : String)
  | unfit (name : String) (errors : Nat)

namespace Refusal

def message : Refusal → String
  | .misuse => usageText
  | .config e => e.configMessage
  | .level name => s!"Unknown log level '{name}'"
  | .script e => e.scriptMessage
  | .invalid name => s!"Script '{name}' is invalid"
  | .unfit name errors => s!"Script '{name}' has {errors} validation error(s); refusing to run"

def code : Refusal → UInt8
  | .misuse => 2
  | _ => 1

end Refusal

def Severity.level : Severity → LogLevel
  | .warning => .warn
  | .error => .error

/-- What comes of a request: findings that are told, lines that are printed, and why it came to
nothing, if it did. -/
structure Report where
  findings : List Finding := []
  lines : List String := []
  refusal : Option Refusal := none

def Report.code (r : Report) : UInt8 :=
  match r.refusal with
  | some refusal => refusal.code
  | none => 0

abbrev Files := String → Option (List UInt8)

def Script.programs (s : Script) : List String :=
  (Forest.walk s.steps).filterMap fun v =>
    match v.step with
    | .action _ (.system (.launch path _)) => some path
    | _ => none

structure Session where
  script : Script
  config : Config
  level : LogLevel

namespace Session

def loadConfig (o : Options) (files : Files) : Except Refusal Config := do
  let config ← match o.config with
    | some path => (Config.load (.wholeFile path) ((files path).map .ofBytes)).mapError .config
    | none => pure {}
  return if o.dryRun then { config with input := { config.input with dryRun := true } } else config

/-- The level that the options name; else that of the configuration, or the usual one. -/
def levelOf (o : Options) (config : Config) : Except Refusal LogLevel :=
  match o.level with
  | some name =>
    match LogLevel.ofName? name with
    | some l => .ok l
    | none => .error (.level name)
  | none => .ok (config.logging.level.getD .info)

/-- The session with the script at `path`. The configuration is looked at first, the script last. -/
def load (path : String) (o : Options) (files : Files) : Except Refusal Session := do
  let config ← loadConfig o files
  let level ← levelOf o config
  let script ← (Script.load (.wholeFile path) ((files path).map .ofBytes)).mapError .script
  return { script, config, level }

def count (s : Session) (severity : Severity) : Nat :=
  Finding.count severity s.script.findings

def told (s : Session) : List Finding :=
  s.script.findings.filter fun f => s.level.tells f.severity.level

def check (s : Session) : Report where
  findings := s.told
  lines := [s!"{s.script.name}: {s.count .error} error(s), {s.count .warning} warning(s)"]
  refusal := if s.count .error = 0 then none else some (.invalid s.script.name)

/-! ### A run -/

def setup (s : Session) : Setup where
  pace := s.config.pace
  checkDelay := s.config.watching.checkDelayFor s.script.settings

def world (s : Session) (codec : Picture.Codec) (isProgram : String → Bool) : World :=
  Headless.world codec s.config.input.dryRun isProgram

/-- Starts the script, obeys the commands once it waits, and lets it go on until it has come to its
end. After a command to stop there are five seconds left. With the answers to the commands. -/
def play (s : Session) (codec : Picture.Codec) (isProgram : String → Bool)
    (commands : List Command) : List String × State :=
  let w := s.world codec isProgram
  let started := ((({} : State).start s.setup s.script).2).awaitAll s.setup w
  let (answers, obeyed) := started.obeyAll commands
  let patience := if commands.contains .stop then 5000 else 1 <<< 64
  (answers, obeyed.awaitIdle s.setup w patience)

/-- What came of a run, as far as the journal still knows. -/
def summary (s : Session) (final : State) : String :=
  let kept := ((Journal.empty s.config.logging.maxEntries.toNat).recordAll final.events).events
  let succeeded := kept.countP fun e => e matches .stepSucceeded _ _
  let failed := kept.countP fun e => e matches .stepFailed _ _ _
  let triggered := kept.countP fun e => e matches .observerTriggered _
  s!"{final.iterations} iteration(s), {succeeded} step(s) succeeded, {failed} failed, " ++
    s!"{triggered} observer trigger(s) (last {kept.length} events)"

/-- Runs the script, if there are no errors in it. -/
def run (s : Session) (codec : Picture.Codec) (isProgram : String → Bool)
    (commands : List Command) : Report :=
  if s.count .error = 0 then
    let (answers, final) := s.play codec isProgram commands
    { findings := s.told
      lines := ["Commands: pause | resume | stop | status"] ++ answers ++ [s.summary final] }
  else { findings := s.told, refusal := some (.unfit s.script.name (s.count .error)) }

end Session

namespace Request

def paths : Request → List String
  | .script path o => path :: o.config.toList
  | _ => []

def runs : Request → Bool
  | .script _ o => !o.validateOnly
  | _ => false

def programs (files : Files) : Request → List String
  | .script path o =>
    match Session.load path o files with
    | .ok s => s.script.programs
    | .error _ => []
  | _ => []

/-- What comes of a request where there are these files and programs, pictures are kept in files by the
codec, and these commands are given. No schema is kept here, so that none is printed. -/
def report (files : Files) (codec : Picture.Codec) (isProgram : String → Bool)
    (commands : List Command) : Request → Report
  | .misuse => { refusal := some .misuse }
  | .help => { lines := helpText }
  | .version => { lines := [s!"{programName} {programVersion}"] }
  | .schema _ => {}
  | .script path o =>
    match Session.load path o files with
    | .ok s => if o.validateOnly then s.check else s.run codec isProgram commands
    | .error refusal => { refusal := some refusal }

end Request

end DeskScript
