import EntityStore.Engine.Workspace
import EntityStore.Log.Logger
import EntityStore.Settings.Load
/-!
# Starting with settings

A program starts by loading its settings and turning its logger to the level and the file that they
name. Invalid settings leave the logger alone, and a log file that cannot be opened is reported
through it. The engine's options are settings too.
-/
namespace EntityStore

/-- Settings in use and the logger they steer. -/
structure Program where
  settings : Settings
  logger : Log.Logger
  deriving DecidableEq

namespace Program

def fresh : Program := ⟨∅, .fresh⟩

def write (p : Program) (log : List Log.Entry) : Program := { p with logger := p.logger.write log }

/-- Sends the log to the file named in the settings. `locate` says which file a path leads to, if
it can be opened. -/
def openLog (p : Program) (locate : String → Option String) : Program :=
  let path := p.settings.text "log.file" ""
  if path = "" then p
  else match locate (Text.beforeNul path) with
    | some file => { p with logger := p.logger.continueIn file }
    | none =>
      { p with logger := p.logger.closeFile }.write [.error s!"Could not open log file: {path}"]

def load (p : Program) (env : Environment) (file : Settings.File) : Bool × Program :=
  let loaded := p.settings.load env file
  (loaded.valid, { p with settings := loaded.settings }.write loaded.log)

def start (p : Program) (env : Environment) (file : Settings.File)
    (locate : String → Option String) : Bool × Program :=
  match p.load env file with
  | (false, p) => (false, p.write [.error s!"Configuration is invalid: {file.path}"])
  | (true, p) =>
    let level := Log.Level.ofSetting (p.settings.text "log.level" "")
    (true, { p with logger := { p.logger with level } }.openLog locate)

end Program

/-- The options that settings give an engine. -/
def Options.ofSettings (s : Settings) : Options × List Log.Entry :=
  let default : Options := {}
  let (strict, strictLog) := s.flag "engine.strict" default.strict
  let (withClasses, classLog) :=
    s.flag "cascade.remove_dependent_relationship_classes" default.withClasses
  (⟨s.text "engine.owner" default.owner, strict, withClasses⟩, strictLog ++ classLog)

end EntityStore
