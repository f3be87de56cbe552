import DeskScript.Config.Basic
import DeskScript.Json.Fields

/-! The configuration from JSON. What is left out has its usual value. -/

namespace DeskScript

open Json

/-- Reads a level: its word, or an object with that word as its only key and `null` in it. -/
def LogLevel.read (room : Nat) : Reading → Decoded LogLevel
  | .string q => do named (← exactly q.exact)
  | .object ((key, content) :: rest) ending =>
    match room with
    | 0 => faulty .malformed
    | _ + 1 => do
      if key.skipped.isSome then content.refuse "variant identifier"
      let level ← named (← exactly key.exact)
      content.asUnit .streamed
      if rest.isEmpty then unless? ending else faulty .malformed
      return level
  | .object [] ending => faulty (ending.getD .malformed)
  | .broken f => faulty f
  | _ => faulty .malformed
where
  named (name : String) : Decoded LogLevel := do
    return LogLevel.all.getD (← variantNamed (LogLevel.all.map LogLevel.word) name) .info

namespace Config

inductive Field where
  | pausePoll | iterationDelay | checkDelay | dryRun | clickHold | doubleClickGap | dragSettle
  | keyHold | keyGap | typeDelay | jitter | level | maxEntries
deriving DecidableEq

abbrev Field.Value : Field → Type
  | .dryRun => Bool
  | .level => Option LogLevel
  | _ => UInt64

def Field.name : Field → String
  | .pausePoll => "pause_poll_ms"
  | .iterationDelay => "iteration_delay_ms"
  | .checkDelay => "check_delay_ms"
  | .dryRun => "dry_run"
  | .clickHold => "click_hold_ms"
  | .doubleClickGap => "double_click_gap_ms"
  | .dragSettle => "drag_settle_ms"
  | .keyHold => "key_hold_ms"
  | .keyGap => "key_gap_ms"
  | .typeDelay => "type_delay_ms"
  | .jitter => "jitter_ms"
  | .level => "level"
  | .maxEntries => "max_entries"

def Field.read (room : Nat) : (i : Field) → Reading → Decoded i.Value
  | .dryRun, r => r.asBool
  | .level, r => r.asOption (LogLevel.read room)
  | .maxEntries, r => r.asWord "usize"
  | .pausePoll, r | .iterationDelay, r | .checkDelay, r | .clickHold, r | .doubleClickGap, r
  | .dragSettle, r | .keyHold, r | .keyGap, r | .typeDelay, r | .jitter, r => r.asMilliseconds

def readFields (title : String) (all : List Field) (room : Nat) (r : Reading) :
    Decoded (Fields.Record Field.Value) :=
  (⟨"struct " ++ title, all, Field.name⟩ : Fields Field).readRecord .streamed room Field.read r

def Pace.read (room : Nat) (r : Reading) : Decoded Pace := do
  let usual : Pace := {}
  let s ← readFields "ExecutorConfig" [.pausePoll, .iterationDelay] room r
  return ⟨s.getD .pausePoll usual.pausePoll, s.getD .iterationDelay usual.iterationDelay⟩

def Watching.read (room : Nat) (r : Reading) : Decoded Watching := do
  let usual : Watching := {}
  let s ← readFields "ObserverConfig" [.checkDelay] room r
  return ⟨s.getD .checkDelay usual.checkDelay⟩

def Input.read (room : Nat) (r : Reading) : Decoded Input := do
  let usual : Input := {}
  let s ← readFields "InputConfig" [.dryRun, .clickHold, .doubleClickGap, .dragSettle, .keyHold,
    .keyGap, .typeDelay, .jitter] room r
  return {
    dryRun := s.getD .dryRun usual.dryRun
    clickHold := s.getD .clickHold usual.clickHold
    doubleClickGap := s.getD .doubleClickGap usual.doubleClickGap
    dragSettle := s.getD .dragSettle usual.dragSettle
    keyHold := s.getD .keyHold usual.keyHold
    keyGap := s.getD .keyGap usual.keyGap
    typeDelay := s.getD .typeDelay usual.typeDelay
    jitter := s.getD .jitter usual.jitter }

def Logging.read (room : Nat) (r : Reading) : Decoded Logging := do
  let usual : Logging := {}
  let s ← readFields "LoggingConfig" [.level, .maxEntries] room r
  return ⟨s.getD .level usual.level, s.getD .maxEntries usual.maxEntries⟩

inductive Section where
  | pace | watching | input | logging
deriving DecidableEq

abbrev Section.Value : Section → Type
  | .pace => Pace
  | .watching => Watching
  | .input => Input
  | .logging => Logging

def Section.read (room : Nat) : (i : Section) → Reading → Decoded i.Value
  | .pace => Pace.read room
  | .watching => Watching.read room
  | .input => Input.read room
  | .logging => Logging.read room

def sections : Fields Section where
  title := "struct EngineConfig"
  all := [.pace, .watching, .input, .logging]
  name
    | .pace => "executor"
    | .watching => "observer"
    | .input => "input"
    | .logging => "logging"

def read (room : Nat) (r : Reading) : Decoded Config := do
  let s ← sections.readRecord .streamed room Section.read r
  return ⟨s.getD .pace {}, s.getD .watching {}, s.getD .input {}, s.getD .logging {}⟩

end Config

end DeskScript
