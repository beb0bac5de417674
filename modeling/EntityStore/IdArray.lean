import EntityStore.Id
import EntityStore.Text.Integer
/-!
# Array literals of ids

An id list is written `{1,2,3}`. Reading drops spaces and ends an element at a brace or a comma;
an empty element and `NULL` stand for no id, and every other element is read as a 64-bit integer.
-/
namespace EntityStore.IdArray
open Text

def encode (ids : List Id) : String :=
  "\x7b" ++ ",".intercalate (ids.map toString) ++ "\x7d"

/-- Characters that end an element. -/
def isDelimiter (c : Char) : Bool := c = '\x7b' || c = '\x7d' || c = ','

/-- The elements that a delimiter ends, without their spaces, after the part of one already read. -/
def elements (element : List Char) : List Char → List (List Char)
  | [] => []
  | c :: cs =>
    if isDelimiter c then element :: elements [] cs
    else if c = ' ' then elements element cs
    else elements (element ++ [c]) cs

/-- Whether an element stands for an id. -/
def isPresent (element : List Char) : Bool := element ≠ [] && element ≠ ['N', 'U', 'L', 'L']

def decode (text : String) : Except NumberFault (List Id) :=
  ((elements [] text.toList).filter isPresent).mapM (readInt .word64)

end EntityStore.IdArray
