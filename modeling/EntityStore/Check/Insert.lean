import EntityStore.Check.Batch
import EntityStore.Check.KeyIndex
/-!
# Checking candidates for insertion

A candidate is accepted when its names resolve, it reads as a row of the kind, the row keeps the
rules against the snapshot, and its keys are free both in the snapshot and among the candidates
accepted before it.
-/
namespace EntityStore

/-- Reads a row for a check; a field that cannot be read breaks a rule. -/
def Row.read (k : Kind) (r : Record) : Except Violation (Row k) :=
  (Row.ofRecord k r).mapError .fault

/-- The row of a candidate, pending an id. -/
def candidateRow (s : Snapshot) (k : Kind) (taken : KeyIndex) (candidate : Record) :
    Except Violation (Row k) := do
  let resolved ← Row.resolveNames k s candidate
  let row ← Row.read k resolved
  let row ← Row.validate k s (Row.withId k pendingId row)
  taken.checkUnique k row
  return row

/-- Answers one candidate, whose keys are taken from then on if it is accepted. -/
def insertStep (s : Snapshot) (k : Kind) (taken : KeyIndex) (candidate : Record) :
    Except Rejection (Row k) × KeyIndex :=
  match candidateRow s k taken candidate with
  | .ok row => (.ok row, taken.addRow k row)
  | .error v => (.error ⟨k, .insert, none, v⟩, taken)

end EntityStore
