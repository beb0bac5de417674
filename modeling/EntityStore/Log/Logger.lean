import EntityStore.Log
import EntityStore.SortedMap
/-!
# Loggers

A logger lets entries of its level through to one place: the stream it began with, or a file. When
a file cannot be opened while another is in use, that other file has been closed already, and what
is written then is lost.
-/
namespace EntityStore.Log

/-- Where entries go. -/
inductive Sink where
  | stream
  | file (path : String)
  | closed
  deriving DecidableEq, Repr

structure Logger where
  level : Level
  sink : Sink
  stream : List Entry
  files : SortedMap String (List Entry)
  deriving DecidableEq

namespace Logger

/-- A logger that lets everything through to its stream. -/
def fresh : Logger := ⟨.debug, .stream, [], ∅⟩

def fileEntries (l : Logger) (path : String) : List Entry := (l.files.get? path).getD []

/-- Writes the entries that the level lets through. -/
def write (l : Logger) (entries : List Entry) : Logger :=
  match l.sink with
  | .stream => { l with stream := l.stream ++ visible l.level entries }
  | .file path =>
    { l with files := l.files.set path (l.fileEntries path ++ visible l.level entries) }
  | .closed => l

/-- Goes on in a file, after what the file holds already. -/
def continueIn (l : Logger) (path : String) : Logger :=
  { l with sink := .file path, files := l.files.set path (l.fileEntries path) }

/-- Gives up the file in use, if there is one. -/
def closeFile (l : Logger) : Logger :=
  { l with sink := match l.sink with
      | .stream => .stream
      | _ => .closed }

end Logger

end EntityStore.Log
