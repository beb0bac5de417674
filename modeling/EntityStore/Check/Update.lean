import EntityStore.Check.Insert
/-!
# Checking updates

An update names a row by its id and gives the fields that change. They are laid over the row's
record, and the result is held against the rules like a candidate, with the row itself out of the
way and what is fixed for it left alone. Later updates of the batch see the rows that earlier ones
left.
-/
namespace EntityStore

namespace Record

/-- Whether a field of the current record gives way because the changes name the same reference
under another field name. -/
def gaveWay (changes : Record) (field : String) : Bool :=
  [ReferenceFields.owner, ReferenceFields.subject].any fun group =>
    group.names.contains field && group.names.any changes.has && !changes.contains field

/-- The current record with the changed fields laid over it. -/
def overlay (current changes : Record) : Record :=
  (current.filter fun e => !gaveWay changes e.1).union changes

end Record

/-- Rows and taken keys as a batch of updates has left them. -/
structure Working (k : Kind) where
  rows : Table k
  taken : KeyIndex

namespace Working
variable {k : Kind}

def ofTable (t : Table k) : Working k := ⟨t, .ofTable k t⟩

/-- The rows without one of them, whose keys are free. -/
def remove (w : Working k) (row : Row k) : Working k :=
  ⟨w.rows.erase (Row.id k row), w.taken.removeRow k row⟩

def put (w : Working k) (row : Row k) : Working k :=
  ⟨w.rows.insert row, w.taken.addRow k row⟩

/-- The row that an update is for. -/
def target (w : Working k) (changes : Record) : Except Violation (Row k) :=
  match changes.int? "id" with
  | none => .error (.missingId k)
  | some i =>
    if i = pendingId then .error (.missingId k)
    else match w.rows.find? i with
      | none => .error (.unknownId k i)
      | some row => .ok row

/-- The row that an update makes of a row already taken out. -/
def revise (w : Working k) (s : Snapshot) (before : Row k) (changes : Record) :
    Except Violation (Row k) := do
  let resolved ← Row.resolveNames k s ((Row.toRecord k before).overlay changes)
  let row ← Row.read k resolved
  let after := Row.withId k (Row.id k before) row
  Row.checkFixed k s before after
  let after ← Row.validate k s after
  w.taken.checkUnique k after
  return after

end Working

/-- Answers one update; a refused one puts the row back as it was. -/
def updateStep (s : Snapshot) (k : Kind) (w : Working k) (changes : Record) :
    Except Rejection (Row k) × Working k :=
  let refuse (v : Violation) : Except Rejection (Row k) :=
    .error ⟨k, .update, changes.int? "id", v⟩
  match w.target changes with
  | .error v => (refuse v, w)
  | .ok before =>
    let rest := w.remove before
    match rest.revise s before changes with
    | .error v => (refuse v, rest.put before)
    | .ok after => (.ok after, rest.put after)

end EntityStore
