import EntityStore.Settings
/-!
# Settings files

A settings file has one setting on a line, `key = value`, with blanks around either part left out.
Empty lines and lines that begin with `#` or `;` say nothing. Any other line without a key before
an equals sign is skipped with a warning. Of several lines for one key the last one holds.
-/
namespace EntityStore.Settings
open Text

/-- The lines of a text. A line feed ends a line, and what follows the last one is a line if there
is anything. -/
def lines : List Char → List (List Char)
  | [] => []
  | c :: cs =>
    if c = '\n' then [] :: lines cs
    else match lines cs with
      | [] => [[c]]
      | l :: ls => (c :: l) :: ls

/-- What a line says. -/
inductive Line where
  | silent
  | setting (key value : String)
  | malformed
  deriving DecidableEq, Repr

def Line.ofChars (line : List Char) : Line :=
  match trimChars line with
  | [] | '#' :: _ | ';' :: _ => silent
  | text =>
    match text.dropWhile (· ≠ '=') with
    | [] => malformed
    | _ :: value =>
      match trimChars (text.takeWhile (· ≠ '=')) with
      | [] => malformed
      | key => setting (String.ofList key) (String.ofList (trimChars value))

def fileLines (text : String) : List Line := (lines text.toList).map Line.ofChars

/-- The settings with those of some lines laid over them. -/
def addLines (s : Settings) (ls : List Line) : Settings :=
  ls.foldl (fun s l => match l with
    | .setting key value => s.set key value
    | _ => s) s

/-- The warnings about lines that are skipped, with their numbers counted from one. -/
def lineWarnings (path : String) (ls : List Line) : List Log.Entry :=
  (ls.zipIdx 1).filterMap fun (l, n) =>
    if l = .malformed then some (.warn s!"{path}:{n}: ignoring line without 'key = value'")
    else none

end EntityStore.Settings
