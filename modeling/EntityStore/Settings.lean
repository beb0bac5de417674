import EntityStore.Log
import EntityStore.SortedMap
import EntityStore.Text.Integer
/-!
# Settings

Settings are texts by key. A setting that is asked for as a number or a flag and does not read as
one gives the default, with a warning in the log.
-/
namespace EntityStore

abbrev Settings := SortedMap String String

/-- Environment variables. -/
abbrev Environment := SortedMap String String

namespace Environment

/-- Variables from names and values; a value ends at its first NUL. -/
def ofList (l : List (String × String)) : Environment :=
  l.foldl (fun env e => env.set e.1 (Text.beforeNul e.2)) ∅

/-- The value of a variable that is set and not empty, else a fallback. -/
def value (env : Environment) (name fallback : String) : String :=
  match env.get? name with
  | some v => if v = "" then fallback else v
  | none => fallback

end Environment

namespace Settings

def text (s : Settings) (key default : String) : String := (s.get? key).getD default

/-- A setting as a 32-bit integer. -/
def int (s : Settings) (key : String) (default : Int) : Int × List Log.Entry :=
  match s.get? key with
  | none => (default, [])
  | some v =>
    match Text.readInt .word32 v.toList with
    | .ok i => (i, [])
    | .error _ =>
      (default, [.warn s!"Failed to parse config value for key {Text.quote key}, using default"])

/-- The flag that a word stands for, in capitals or not. -/
def flagOf? (v : String) : Option Bool :=
  let word := Text.lowerAscii v
  if ["true", "1", "yes", "on"].contains word then some true
  else if ["false", "0", "no", "off"].contains word then some false
  else none

def flag (s : Settings) (key : String) (default : Bool) : Bool × List Log.Entry :=
  match s.get? key with
  | none => (default, [])
  | some v =>
    match flagOf? v with
    | some b => (b, [])
    | none => (default, [.warn s!"Config key {Text.quote key} is not a boolean: {Text.quote v}"])

end Settings

end EntityStore
