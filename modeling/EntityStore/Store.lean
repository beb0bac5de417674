import EntityStore.ByKind
import EntityStore.Failure
/-!
# The store

The store keeps one table of records for every kind, under the ids in the records, and a cursor
for handing out new ids. `apply` makes a set of changes all at once or not at all: per kind deletes
come first, then updates, then inserts. The next apply and the next claim can be made to fail.
-/
namespace EntityStore

/-- Records of one kind in ascending order of their ids. -/
abbrev RecordTable := Ascending Record.id

abbrev RecordTables := ByKind fun _ => RecordTable

/-- The shared record of id allocation: the next id of every kind that ids were ever handed out
for, and who is handing out ids now. -/
structure Cursor where
  owner : String
  nextIds : SortedMap Kind Id
  deriving DecidableEq

structure Store where
  tables : RecordTables
  cursor : Option Cursor
  claimed : Bool
  /-- Number of change sets applied. -/
  applyCount : Nat
  /-- The next apply fails. -/
  applyFails : Bool
  /-- The next claim fails. -/
  claimFails : Bool
  deriving DecidableEq

/-- Changes that are made together. -/
structure ChangeSet where
  inserts : SortedMap Kind (List Record)
  /-- Whole rows, found by their ids. -/
  updates : SortedMap Kind (List Record)
  deletes : IdMap
  deriving DecidableEq

namespace ChangeSet

def none : ChangeSet := ⟨∅, ∅, ∅⟩

instance : EmptyCollection ChangeSet := ⟨none⟩

def recordCount (m : SortedMap Kind (List Record)) : Nat :=
  (m.toList.map fun e => e.2.length).foldr (· + ·) 0

def size (c : ChangeSet) : Nat := c.deletes.total + recordCount c.inserts + recordCount c.updates

/-- Whether no kind is named in the inserts or updates and no row in the deletes. -/
def isEmpty (c : ChangeSet) : Bool :=
  c.inserts.isEmpty && c.updates.isEmpty && c.deletes.total == 0

end ChangeSet

namespace RecordTables

/-- The largest id of a table; pending when the table is empty. -/
def maxId (t : RecordTable) : Id := t.last?.elim pendingId Record.id

/-- The id under which a record can be stored. -/
def storedId (k : Kind) (r : Record) : Except StorageFault Id :=
  match r.int? "id" with
  | some i => if i = pendingId then .error (.rowWithoutId k) else .ok i
  | none => .error (.rowWithoutId k)

def updateRow (k : Kind) (t : RecordTable) (r : Record) : Except StorageFault RecordTable := do
  let i ← storedId k r
  if t.contains i then return t.insert r else throw (.updateOfMissing k i)

def insertRow (k : Kind) (t : RecordTable) (r : Record) : Except StorageFault RecordTable := do
  let i ← storedId k r
  if t.contains i then throw (.duplicateId k i) else return t.insert r

def deleteRows (ts : RecordTables) (m : IdMap) : RecordTables :=
  .ofFn fun k => (ts.get k).filter fun r => !m.has k r.id

/-- Takes the records kind by kind through a step on the table of their kind. -/
def changeRows (step : Kind → RecordTable → Record → Except StorageFault RecordTable)
    (ts : RecordTables) (m : SortedMap Kind (List Record)) : Except StorageFault RecordTables :=
  m.toList.foldlM (fun ts e => do return ts.set e.1 (← e.2.foldlM (step e.1) (ts.get e.1))) ts

def change (ts : RecordTables) (c : ChangeSet) : Except StorageFault RecordTables := do
  let updated ← changeRows updateRow (deleteRows ts c.deletes) c.updates
  changeRows insertRow updated c.inserts

end RecordTables

namespace Store

def empty : Store := ⟨.ofFn fun _ => ∅, none, false, 0, false, false⟩

instance : Inhabited Store := ⟨empty⟩

def table (s : Store) (k : Kind) : RecordTable := s.tables.get k

def records (s : Store) (k : Kind) : List Record := (s.table k).toList

def maxId (s : Store) (k : Kind) : Id := RecordTables.maxId (s.table k)

/-- The id after the largest one of a kind. -/
def floorId (s : Store) (k : Kind) : Id := Id.wrap (s.maxId k + 1)

/-- Writes a record past every check but that of its id. -/
def putRaw (s : Store) (k : Kind) (r : Record) : Except StorageFault Store := do
  let _ ← RecordTables.storedId k r
  return { s with tables := s.tables.set k ((s.table k).insert r) }

def putRawAll (s : Store) (k : Kind) (rs : List Record) : Except StorageFault Store :=
  rs.foldlM (fun s r => s.putRaw k r) s

/-- Makes the changes, or leaves the rows as they are and says why. -/
def apply (s : Store) (c : ChangeSet) : Except StorageFault Unit × Store :=
  if s.applyFails then (.error .injected, { s with applyFails := false })
  else match s.tables.change c with
    | .error f => (.error f, s)
    | .ok tables => (.ok (), { s with tables, applyCount := s.applyCount + 1 })

end Store

end EntityStore
