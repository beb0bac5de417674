import EntityStore.Id
import EntityStore.Text.Cut
/-!
# Field values

A field of a record is null, an integer, a text, a list of ids or a list of names. `describe`
writes a value the way messages show it.
-/
namespace EntityStore

inductive Field where
  | null
  | int (value : Int)
  | text (value : String)
  | ids (value : List Id)
  | names (value : List String)
  deriving DecidableEq, Repr, Inhabited

namespace Field

def isNull : Field → Bool
  | null => true
  | _ => false

def bracketed (items : List String) : String := "[" ++ ",".intercalate items ++ "]"

def describe : Field → String
  | null => "null"
  | int i => toString i
  | text s => Text.quote s
  | ids l => bracketed (l.map toString)
  | names l => bracketed l

end Field

end EntityStore
