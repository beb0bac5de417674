/-!
# Texts that end at a NUL character

A message that travels as a NUL terminated text keeps what stands before its first NUL.
-/
namespace EntityStore.Text

/-- The part of a text before its first NUL character. -/
def beforeNul (s : String) : String :=
  String.ofList (s.toList.takeWhile (· ≠ '\x00'))

/-- A text between single quotes, as names appear in messages. -/
def quote (s : String) : String := "'" ++ s ++ "'"

end EntityStore.Text
