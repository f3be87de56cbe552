/-! The options on the command line. They are read from left to right, and the first that asks for
help or for the version, or that is wrong, decides. -/

namespace DeskScript

inductive Schema where
  | script | config
deriving DecidableEq, Repr

def Schema.ofName? : String → Option Schema
  | "script" => some .script
  | "config" => some .config
  | _ => none

structure Options where
  script : Option String := none
  config : Option String := none
  level : Option String := none
  schema : Option Schema := none
  dryRun : Bool := false
  validateOnly : Bool := false
deriving DecidableEq, Repr

namespace Options

inductive Parameter where
  | script | config | level | schema
deriving DecidableEq, Repr

inductive Switch where
  | dryRun | validateOnly | help | version
deriving DecidableEq, Repr

def has (o : Options) : Parameter → Bool
  | .script => o.script.isSome
  | .config => o.config.isSome
  | .level => o.level.isSome
  | .schema => o.schema.isSome

/-- With a value for a parameter, if the value will do: a path is not empty, and a schema is one of
those there are. -/
def set? (o : Options) : Parameter → String → Option Options
  | .script, path => if path.isEmpty then none else some { o with script := some path }
  | .config, path => if path.isEmpty then none else some { o with config := some path }
  | .level, name => some { o with level := some name }
  | .schema, name => (Schema.ofName? name).map fun schema => { o with schema := some schema }

/-- With a value for a parameter that has had none yet, if the value will do. -/
def put? (o : Options) (p : Parameter) (value : String) : Option Options :=
  if o.has p then none else o.set? p value

end Options

inductive Request where
  | misuse
  | help
  | version
  | schema (wanted : Schema)
  | script (path : String) (o : Options)
deriving DecidableEq, Repr

namespace Request

open Options (Parameter Switch)

def long? : String → Option (Parameter ⊕ Switch)
  | "script" => some (.inl .script)
  | "config" => some (.inl .config)
  | "log-level" => some (.inl .level)
  | "print-schema" => some (.inl .schema)
  | "dry-run" => some (.inr .dryRun)
  | "validate-only" => some (.inr .validateOnly)
  | "help" => some (.inr .help)
  | "version" => some (.inr .version)
  | _ => none

def short? : Char → Option (Parameter ⊕ Switch)
  | 's' => some (.inl .script)
  | 'c' => some (.inl .config)
  | 'h' => some (.inr .help)
  | 'V' => some (.inr .version)
  | _ => none

/-- An argument that is an option: which one, and the value that is written together with it. -/
inductive Argument where
  | parameter (p : Parameter) (value : Option String)
  | switch (s : Switch)

/-- The option that an argument is. A long name takes its value after an equals sign, a short one
with or without it. What follows the short name of a switch does not count, for both switches that
have one end the reading. -/
def Argument.ofChars? : List Char → Option Argument
  | '-' :: '-' :: cs =>
    match long? (.ofList (cs.takeWhile (· != '='))), cs.dropWhile (· != '=') with
    | some (.inl p), [] => some (.parameter p none)
    | some (.inl p), _ :: value => some (.parameter p (some (.ofList value)))
    | some (.inr s), [] => some (.switch s)
    | _, _ => none
  | '-' :: c :: cs =>
    match short? c, cs with
    | some (.inl p), [] => some (.parameter p none)
    | some (.inl p), '=' :: value | some (.inl p), value =>
      some (.parameter p (some (.ofList value)))
    | some (.inr s), _ => some (.switch s)
    | none, _ => none
  | _ => none

def isValue (argument : String) : Bool := argument.front != '-' || argument == "-"

/-- What is asked for when all has been read. A schema goes before a script, and one of them there
must be. -/
def ofOptions (o : Options) : Request :=
  match o.schema, o.script with
  | some wanted, _ => .schema wanted
  | none, some path => .script path o
  | none, none => .misuse

/-- Reads the arguments that follow on the options `o`. After two hyphens there may be none. -/
def read (o : Options) : List String → Request
  | [] => ofOptions o
  | ["--"] => ofOptions o
  | argument :: rest =>
    match Argument.ofChars? argument.toList, rest with
    | some (.parameter p (some value)), rest =>
      match o.put? p value with
      | some o => read o rest
      | none => .misuse
    | some (.parameter p none), value :: rest =>
      match if isValue value then o.put? p value else none with
      | some o => read o rest
      | none => .misuse
    | some (.parameter _ none), [] => .misuse
    | some (.switch .dryRun), rest =>
      if o.dryRun then .misuse else read { o with dryRun := true } rest
    | some (.switch .validateOnly), rest =>
      if o.validateOnly then .misuse else read { o with validateOnly := true } rest
    | some (.switch .help), _ => .help
    | some (.switch .version), _ => .version
    | none, _ => .misuse

def ofArguments (arguments : List String) : Request := read {} arguments

end Request

def programName : String := "stepbot"

def programVersion : String := "0.1.0"

def usageText : String := s!"Usage: {programName} [OPTIONS]"

def helpText : List String := [
  "Run desktop-automation scripts with background screen observers",
  "",
  usageText,
  "",
  "Options:",
  "  -s, --script <SCRIPT>              Path to the JSON script to run",
  "  -c, --config <CONFIG>              Path to the JSON engine configuration file " ++
    "(defaults apply when omitted)",
  "      --dry-run                      Enable dry-run mode " ++
    "(log actions instead of simulating input)",
  "      --log-level <LOG_LEVEL>        Set log level " ++
    "(e.g., trace, debug, info, warn, error). Overrides config and RUST_LOG",
  "      --print-schema <PRINT_SCHEMA>  Print the JSON Schema for scripts or for the " ++
    "configuration and exit [possible values: script, config]",
  "      --validate-only                Validate the script, print issues and exit",
  "  -h, --help                         Print help",
  "  -V, --version                      Print version"]

end DeskScript
