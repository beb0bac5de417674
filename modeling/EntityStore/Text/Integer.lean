import EntityStore.Text.Blank
/-!
# Integers at the start of a text

A number is read from the front of a text: blanks are skipped, one sign may follow, then decimal
digits; what stands after the digits is not looked at. A text without digits holds no number, and
a number outside the limits is out of range.
-/
namespace EntityStore.Text

/-- Limits of the integers that a reader accepts. -/
structure Limits where
  low : Int
  high : Int

def Limits.word32 : Limits := ⟨-Int.pow 2 31, Int.pow 2 31 - 1⟩
def Limits.word64 : Limits := ⟨-Int.pow 2 63, Int.pow 2 63 - 1⟩

inductive NumberFault where
  | notANumber
  | outOfRange
  deriving DecidableEq, Repr

def digitValue (c : Char) : Nat := c.toNat - '0'.toNat

/-- The value of a run of decimal digits, continuing from a value already read. -/
def digitsValue (acc : Nat) (ds : List Char) : Nat :=
  ds.foldl (fun n c => 10 * n + digitValue c) acc

/-- The digits at the front as a natural number. -/
def leadingNat? (cs : List Char) : Option Nat :=
  match cs.takeWhile Char.isDigit with
  | [] => none
  | ds => some (digitsValue 0 ds)

/-- The number at the front, after blanks and at most one sign. -/
def leadingInt? (cs : List Char) : Option Int :=
  match cs.dropWhile isBlank with
  | '-' :: rest => (leadingNat? rest).map fun n => -(n : Int)
  | '+' :: rest => (leadingNat? rest).map Int.ofNat
  | rest => (leadingNat? rest).map Int.ofNat

def readInt (limits : Limits) (cs : List Char) : Except NumberFault Int :=
  match leadingInt? cs with
  | none => .error .notANumber
  | some i => if limits.low ≤ i ∧ i ≤ limits.high then .ok i else .error .outOfRange

end EntityStore.Text
