import EntityStore.Text.Cut
/-!
# Log entries

Every entry has a level. A logger set to a level lets entries of that level and above through, and
none at all when it is off.
-/
namespace EntityStore.Log

/-- Severity of an entry, by rank. Ranks outside the named ones have no name. -/
structure Level where
  rank : Int
  deriving DecidableEq, Repr

namespace Level

def debug : Level := ⟨0⟩
def info : Level := ⟨1⟩
def warn : Level := ⟨2⟩
def error : Level := ⟨3⟩
def off : Level := ⟨4⟩

def name (l : Level) : String :=
  if l = debug then "DEBUG"
  else if l = info then "INFO"
  else if l = warn then "WARN"
  else if l = error then "ERROR"
  else if l = off then "OFF"
  else "?"

/-- The level that a setting names; any other word means `info`. -/
def ofSetting (s : String) : Level :=
  if s = "debug" then debug
  else if s = "warn" then warn
  else if s = "error" then error
  else if s = "off" then off
  else info

/-- Whether a logger at this level lets an entry of level `l` through. -/
def admits (threshold l : Level) : Bool := threshold ≠ off && threshold.rank ≤ l.rank

end Level

/-- The place in a program that an entry comes from. -/
structure Location where
  file : String
  line : Int
  function : String
  deriving DecidableEq, Repr

namespace Location

/-- The part of a path after its last slash. -/
def baseName (path : String) : String :=
  String.ofList (path.toList.reverse.takeWhile (· ≠ '/')).reverse

def text (l : Location) : String :=
  s!"{baseName (Text.beforeNul l.file)}:{l.line} {Text.beforeNul l.function}() - "

end Location

structure Entry where
  level : Level
  message : String
  location : Option Location
  deriving DecidableEq, Repr

namespace Entry

def debug (message : String) : Entry := ⟨.debug, message, none⟩
def info (message : String) : Entry := ⟨.info, message, none⟩
def warn (message : String) : Entry := ⟨.warn, message, none⟩
def error (message : String) : Entry := ⟨.error, message, none⟩

/-- The entry without its location. -/
def text (e : Entry) : String := s!"{e.level.name} {e.message}"

/-- The entry with its location, if it has one. -/
def located (e : Entry) : String :=
  e.level.name ++ " " ++ e.location.elim "" Location.text ++ e.message

end Entry

/-- The entries that a logger at a level lets through. -/
def visible (threshold : Level) (log : List Entry) : List Entry :=
  log.filter fun e => threshold.admits e.level

end EntityStore.Log
