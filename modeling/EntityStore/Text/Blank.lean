/-!
# Blank characters and letter case in ASCII

Settings and numbers know six blank characters: space, tab, line feed, vertical tab, form feed and
carriage return. Every other character, the other Unicode spaces included, is text.
-/
namespace EntityStore.Text

def isBlank (c : Char) : Bool :=
  c = ' ' || c = '\t' || c = '\n' || c = '\x0b' || c = '\x0c' || c = '\r'

/-- The characters without the blanks at either end. -/
def trimChars (cs : List Char) : List Char :=
  ((cs.dropWhile isBlank).reverse.dropWhile isBlank).reverse

def trim (s : String) : String := String.ofList (trimChars s.toList)

/-- The ASCII capitals in lower case, all other characters as they are. -/
def lowerAscii (s : String) : String := s.map Char.toLower

@[simp] theorem toList_trim (s : String) : (trim s).toList = trimChars s.toList := by
  simp [trim]

end EntityStore.Text
